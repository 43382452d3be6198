import HookLint.Proofs.Dependency.Relaxation
import HookLint.Proofs.Lint.MissingDependency

/-!
# Proofs.Lint.MemoChain — checking memo chains only relaxes

Two runs over one program are compared, without and with memo chains checked.  Each rule for static
bindings is a rule in both runs or in the second alone, so a static binding stays static
(`StaticBinding.verified`).  Hence a reference of a callback can move from the required to the
tolerated, and no other way (`relaxes_needsOf`), if static elements are not to be reported.  What
relaxed needs do to one array is in `Proofs.Dependency.Relaxation`; here it is carried to the
outcomes of all sites and to their findings.
-/

namespace HookLint.Stability

open Dependency

/-- The program with memo chains checked. -/
def Program.verified (p : Program) : Program := { p with verifyMemoChain := true }

section Labels

variable {p : Program} {id : Nat}

theorem FixedAt.verified {b : Scope.Binding} {init : Syntax.Node} (h : FixedAt p id b init) :
    FixedAt p.verified id b init := ⟨h.bound, h.init_eq, h.unwritten, h.variable_kind⟩

theorem MemoCall.checked {call array : Syntax.Node} {site : Hook.Site}
    (h : MemoCall p call site array) : MemoCall p.verified call site array where
  verified := rfl
  is_call := h.is_call
  no_spec := h.no_spec
  site_eq := h.site_eq
  is_memo := h.is_memo
  array_eq := h.array_eq
  is_array := h.is_array

/-- A static binding stays static. -/
theorem StaticBinding.verified (h : StaticBinding p id) : StaticBinding p.verified id := by
  induction h with
  | primitive hf hs hp => exact .primitive hf.verified hs hp
  | spec hf hcall hname hspec hs => exact .spec hf.verified hcall hname hspec hs
  | emptyMemo hf hm hnil => exact .emptyMemo hf.verified hm.checked hnil
  | memo hf hm hne hin hmut _ ih => exact .memo hf.verified hm.checked hne hin hmut ih

theorem labelOf_verified (h : p.labelOf id = .static) : p.verified.labelOf id = .static :=
  labelOf_eq_static_iff.mpr (labelOf_eq_static_iff.mp h).verified

end Labels
end HookLint.Stability

namespace HookLint.Dependency

open Stability

theorem relaxes_needsOf (p : Program) (site : Hook.Site) :
    (needsOf p.verified false [] site).Relaxes (needsOf p false [] site) := by
  have hsplit : ∀ q : Program, needsOf q false [] site =
      ⟨(Assoc.values (references q.source q.tree site).dependencies).filter fun d =>
          q.labelOf d.binding.id = .dynamic,
        ((Assoc.values (references q.source q.tree site).dependencies).filter fun d =>
          q.labelOf d.binding.id = .static).map fun d => d.binding.id⟩ := by
    intro q
    unfold needsOf
    simp only [(splitByLabel_found (p := q) .nil _).1, Bool.false_eq_true, if_false]
  -- both runs split the same references, each by its own labels
  have hrefs : references p.verified.source p.verified.tree site =
      references p.source p.tree site := rfl
  rw [hsplit, hsplit, hrefs]
  constructor
  case required =>
    refine List.monotone_filter_right _ fun d hd => ?_
    simp only [decide_eq_true_eq] at hd ⊢
    cases hl : p.labelOf d.binding.id with
    | dynamic => rfl
    | static =>
      rw [labelOf_verified hl] at hd
      cases hd
  case tolerated =>
    intro id hid
    obtain ⟨d, hd, rfl⟩ := List.mem_map.mp hid
    obtain ⟨hmem, hs⟩ := List.mem_filter.mp hd
    refine List.mem_map.mpr ⟨d, List.mem_filter.mpr ⟨hmem, ?_⟩, rfl⟩
    exact decide_eq_true (labelOf_verified (of_decide_eq_true hs))
  case moved =>
    intro r hr
    obtain ⟨hmem, -⟩ := List.mem_filter.mp hr
    cases hl : p.verified.labelOf r.binding.id with
    | dynamic => exact .inl (List.mem_filter.mpr ⟨hmem, decide_eq_true hl⟩)
    | static =>
      exact .inr (List.mem_map.mpr ⟨r, List.mem_filter.mpr ⟨hmem, decide_eq_true hl⟩, rfl⟩)

/-- Which elements are unstable does not depend on the labels. -/
theorem unstableIn_verified (p : Program) (site : Hook.Site) (array : Syntax.Node)
    (reported : List Nat) (ds : List Declared) :
    unstableIn p.verified site array reported ds = unstableIn p site array reported ds := by
  induction ds generalizing reported with
  | nil => rfl
  | cons d ds ih =>
    unfold unstableIn
    simp only [ih]
    rfl

/-- Up to the comparison, a site takes the same way in both runs. -/
theorem relaxes_reconcile (p : Program) (site : Hook.Site) :
    (reconcile p.verified false [] site).1.Relaxes (reconcile p false [] site).1 := by
  unfold reconcile
  cases site.dependencies with
  | none => exact ⟨rfl, .same _⟩
  | some argument =>
    simp only
    split
    · exact ⟨rfl, .same _⟩
    · split
      · exact ⟨rfl, .same _⟩
      · split
        · exact ⟨rfl, .same _⟩
        · refine ⟨rfl, ?_⟩
          show Outcome.Relaxes (compare p.verified false [] site argument.unwrap).1
            (compare p false [] site argument.unwrap).1
          rw [compare_eq, compare_eq, unstableIn_verified]
          exact .compared _ _ ((relaxes_needsOf p site).diff _)

end HookLint.Dependency

namespace HookLint.Lint

open Syntax Stability Dependency Report

/-! ### The findings that the labels have no part in -/

/-- Whether a kind of findings is about what a callback needs. -/
def concernsNeeds : DiagnosticKind → Bool
  | .missingDependency | .unnecessaryDependency => true
  | _ => false

/-- The findings that are about the array alone, without the fix that they share with the others. -/
def findingsOfArray (ds : List Diagnostic) : List Diagnostic :=
  (ds.filter fun d => !concernsNeeds d.kind).map fun d => { d with fix := none }

theorem findingsOfArray_append (ds es : List Diagnostic) :
    findingsOfArray (ds ++ es) = findingsOfArray ds ++ findingsOfArray es := by
  simp [findingsOfArray]

theorem findingsOfArray_flatMap {α : Type} (f : α → List Diagnostic) (l : List α) :
    findingsOfArray (l.flatMap f) = l.flatMap fun a => findingsOfArray (f a) := by
  simp [findingsOfArray, List.filter_flatMap, List.map_flatMap]

theorem findingsOfArray_defect (src : Source) (array : Node) (hook : String)
    (kind : DiagnosticKind) (defect : Defect) (names : List String) (fix : Option Fix) :
    findingsOfArray (defectDiagnostic src array hook kind defect names fix) =
      if concernsNeeds kind then []
      else defectDiagnostic src array hook kind defect names none := by
  unfold defectDiagnostic findingsOfArray
  by_cases hn : names.isEmpty = true
  · simp [hn]
  · by_cases hk : concernsNeeds kind = true <;> simp [hn, hk, diagnosticAt]

theorem findingsOfArray_compared (src : Source) (hook : String) (array : Node) {d d' : Diff}
    (unstable : List Unstable) (fix fix' : Option Fix) (h : d.Relaxes d') :
    findingsOfArray (comparedDiagnostics src hook array d unstable fix) =
      findingsOfArray (comparedDiagnostics src hook array d' unstable fix') := by
  rw [comparedDiagnostics_eq, comparedDiagnostics_eq]
  simp only [findingsOfArray_append, findingsOfArray_defect, concernsNeeds, h.complex, h.duplicates,
    if_true]

theorem findingsOfArray_diagnostics (src : Source) {r r' : Reconciliation} (h : r.Relaxes r') :
    findingsOfArray (diagnostics src r) = findingsOfArray (diagnostics src r') := by
  obtain ⟨site, outcome⟩ := r
  obtain ⟨site', outcome'⟩ := r'
  obtain ⟨rfl, ho⟩ : site = site' ∧ outcome.Relaxes outcome' := ⟨h.site, h.outcome⟩
  cases ho with
  | same => rfl
  | compared array unstable hd => exact findingsOfArray_compared src _ array unstable _ _ hd

/-- **Checking memo chains only relaxes.**  Take a program and options under which static elements
are not reported, and check it with memo chains unchecked and checked.  Whatever each run was asked
before, a binding that is static in the first is static in the second.  The two runs go through the
same sites; at each of them the second has the same outcome, or compares the same array with the
same unstable, complex and duplicate elements, and its missing paths and its unnecessary elements
are sublists of those of the first.  So the findings of all other kinds are the same in both runs,
but for the fixes that they carry. -/
theorem memo_chains_only_relax (src : Source) (root : Node) (o : Options) :
    let off := Rule.ofOptions { o with checkMemoized := false, reportStatic := false }
    let on := Rule.ofOptions { o with checkMemoized := true, reportStatic := false }
    let p := off.program src root
    let q := on.program src root
    (∀ history history' id, (p.label (cacheAfter p false history) id).1 = .static →
      (q.label (cacheAfter q false history') id).1 = .static) ∧
    List.Forall₂ Reconciliation.Relaxes (on.reconcileAll q).1 (off.reconcileAll p).1 ∧
    findingsOfArray (on.check src root) = findingsOfArray (off.check src root) := by
  intro off on p q
  have hq : q = p.verified := rfl
  refine ⟨fun history history' id hs => ?_, ?_, ?_⟩
  · rw [label_eq_labelOf (agrees_cacheAfter p false history)] at hs
    rw [label_eq_labelOf (agrees_cacheAfter q false history'), hq]
    exact labelOf_verified hs
  · -- each site has the outcome that it has on its own
    show List.Forall₂ _ (Rule.reconcileSites q false [] _).1 (Rule.reconcileSites p false [] _).1
    rw [reconcileSites_eq .nil, reconcileSites_eq .nil, List.forall₂_map_left_iff,
      List.forall₂_map_right_iff]
    exact List.forall₂_same.mpr fun site _ => relaxes_reconcile p site
  · rw [check_eq_flatMap, check_eq_flatMap, findingsOfArray_flatMap, findingsOfArray_flatMap]
    refine List.flatMap_congr fun site _ => ?_
    exact findingsOfArray_diagnostics src (relaxes_reconcile p site)

end HookLint.Lint
