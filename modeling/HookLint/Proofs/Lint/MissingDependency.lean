import HookLint.Lint.Rule
import HookLint.Proofs.Dependency.FixedArray
import HookLint.Proofs.Dependency.PlainSite
import HookLint.Proofs.Scope.StoreInvariant
import HookLint.Proofs.Stability.History
import HookLint.Proofs.Syntax.Layout

/-!
# Proofs.Lint.MissingDependency — exactly the missing dependencies are reported

`IsMissing p site array b` says when a binding is missing in the array of a site, in terms of the
uses inside the callback, the scopes around the site, the label of the binding, and the elements of
the array.  The findings of a site report exactly these bindings, in one finding, each once, in the
order in which the callback reads them first.

The proof goes along the chain of components: the uses of the callback give the references
(`Proofs.Dependency.References`), the labels split them whatever was asked before
(`Proofs.Stability.History`), the diff keeps those that no element covers, and the builder makes one
finding of them.
-/

namespace HookLint.Lint

open Syntax Scope Hook Stability Dependency Report

/-- What it means that the array of a site lacks a binding. -/
structure IsMissing (p : Program) (site : Site) (array : Node) (b : Binding) : Prop where
  /-- The callback reads the binding. -/
  read : ∃ u ∈ p.tree.usesWithin site.callback, p.tree.bindingOf? u = some b ∧ u.access.reads = true
  /-- The callback does not write it. -/
  unwritten : ∀ u ∈ p.tree.usesWithin site.callback, p.tree.bindingOf? u = some b →
    u.access.writes = false
  /-- Its scope is between the site and the component. -/
  in_region : b.scope ∈ p.tree.store.region site.scope
  /-- Its scope is not inside the callback. -/
  outside : ∃ frame, p.tree.store.scopes[b.scope]? = some frame ∧
    site.callback.contains frame.node = false
  /-- It is not static. -/
  not_static : (p.label [] b.id).1 ≠ .static
  /-- No element that names it is a beginning of all paths under which the callback uses it. -/
  uncovered : ∀ e ∈ array.elements, ∀ root path, memberChain? p.source e = some (root, path) →
    (p.tree.useAt? root).bind p.tree.bindingOf? = some b →
    ¬ ∀ u ∈ p.tree.usesWithin site.callback, p.tree.bindingOf? u = some b →
      u.access.writes = false → path <+: accessPath p.source u.cursor

/-- Within a node, `b` is read before `c` is read for the first time. -/
def ReadBefore (t : Tree) (n : Node) (b c : Binding) : Prop :=
  ∃ before u after, t.usesWithin n = before ++ u :: after ∧
    t.bindingOf? u = some b ∧ u.access.reads = true ∧
    ∀ v ∈ before ++ [u], t.bindingOf? v = some c → v.access.reads = false

/-- The findings of a site, asked on its own. -/
def Rule.findings (rule : Rule) (p : Program) (site : Site) : List Diagnostic :=
  diagnostics p.source (reconcile p rule.reportStatic [] site).1

theorem reads_of_writes_eq_false {a : Access} (h : a.writes = false) : a.reads = true := by
  cases a with
  | read => rfl
  | write => cases h
  | update => cases h

/-! ### All sites of a program -/

theorem reconcileSites_eq {p : Program} {reportStatic : Bool} {cache : Cache}
    (hc : Agrees p.evidenceAt cache) (sites : List Site) :
    (Rule.reconcileSites p reportStatic cache sites).1 =
      sites.map fun s => (reconcile p reportStatic [] s).1 := by
  induction sites generalizing cache with
  | nil => rfl
  | cons s sites ih =>
    have h := reconcile_found reportStatic hc s
    simp only [Rule.reconcileSites, List.map_cons]
    rw [h.1, ih h.2.agrees]

/-- The findings of a program are those of its sites. -/
theorem check_eq_flatMap (rule : Rule) (src : Source) (root : Node) :
    rule.check src root =
      (Assoc.values (rule.program src root).sites).flatMap
        (rule.findings (rule.program src root)) := by
  unfold Rule.check Rule.reconcileAll
  rw [reconcileSites_eq .nil, List.flatMap_map]
  rfl

/-! ### The missing paths of a site -/

section Missing

variable {p : Program} {site : Site} {array : Node} {b : Binding} {d : Path}

/-- The paths that a site lacks. -/
def missingOf (p : Program) (reportStatic : Bool) (site : Site) (array : Node) : List Path :=
  (diff (needsOf p reportStatic [] site) (declaredIn p array)).missing

theorem mem_missingOf_iff {reportStatic : Bool} : d ∈ missingOf p reportStatic site array ↔
    d ∈ Assoc.values (references p.source p.tree site).dependencies ∧
      (p.label [] d.binding.id).1 ≠ .static ∧
      ∀ e ∈ array.elements, (declaredOf p.source p.tree e).covers d = false := by
  have hreq : (needsOf p reportStatic [] site).required =
      (Assoc.values (references p.source p.tree site).dependencies).filter fun d =>
        p.labelOf d.binding.id = .dynamic := by
    unfold needsOf
    simp only [(splitByLabel_found (p := p) .nil _).1]
  have hlabel : p.labelOf d.binding.id = .dynamic ↔ (p.label [] d.binding.id).1 ≠ .static := by
    show (p.label [] d.binding.id).1 = .dynamic ↔ _
    cases (p.label [] d.binding.id).1 <;> simp
  unfold missingOf
  rw [mem_missing_iff, hreq, List.mem_filter, decide_eq_true_eq, hlabel, and_assoc]
  simp [declaredIn]

theorem outer_iff (hv : p.tree.store.Valid) {u : Use} (hb : p.tree.bindingOf? u = some b) :
    Outer p.tree site b ↔ b.scope ∈ p.tree.store.region site.scope ∧
      ∃ frame, p.tree.store.scopes[b.scope]? = some frame ∧
        site.callback.contains frame.node = false := by
  obtain ⟨frame, hf⟩ : ∃ frame, p.tree.store.scopes[b.scope]? = some frame :=
    ⟨_, Array.getElem?_eq_getElem (hv.scope_lt (Tree.id_of_bindingOf? hv hb).2)⟩
  unfold Outer
  simp [Tree.scopeNode?, hf]

/-- An element covers a path if it is a chain on the binding and a beginning of the path. -/
theorem covers_declaredOf_iff (hv : p.tree.store.Valid) {v : Use}
    (hb : p.tree.bindingOf? v = some d.binding) {e : Node} :
    (declaredOf p.source p.tree e).covers d = true ↔
      ∃ root path, memberChain? p.source e = some (root, path) ∧
        (p.tree.useAt? root).bind p.tree.bindingOf? = some d.binding ∧ path <+: d.path := by
  unfold Declared.covers Declared.path? declaredOf targetOf
  cases hm : memberChain? p.source e with
  | none => simp
  | some chain =>
    obtain ⟨root, path⟩ := chain
    simp only [Option.some.injEq, Prod.mk.injEq]
    cases hu : (p.tree.useAt? root).bind p.tree.bindingOf? with
    | none =>
      simp only [Option.any_none, Bool.false_eq_true, false_iff]
      rintro ⟨_, _, ⟨rfl, rfl⟩, h, -⟩
      rw [hu] at h
      cases h
    | some c =>
      simp only [Option.any_some, Path.covers, Bool.and_eq_true, decide_eq_true_eq,
        List.isPrefixOf_iff_prefix]
      constructor
      · rintro ⟨hid, hp⟩
        obtain ⟨w, -, hw⟩ := Option.bind_eq_some_iff.mp hu
        exact ⟨root, path, ⟨rfl, rfl⟩, by rw [hu, Tree.bindingOf?_inj hv hw hb hid], hp⟩
      · rintro ⟨_, _, ⟨rfl, rfl⟩, h, hp⟩
        rw [hu] at h
        obtain rfl := Option.some.inj h
        exact ⟨rfl, hp⟩

/-- A dependency of the callback is a binding that is read and not written, from outside. -/
theorem mem_values_iff (hv : p.tree.store.Valid) :
    (∃ d ∈ Assoc.values (references p.source p.tree site).dependencies, d.binding = b) ↔
      (∃ u ∈ p.tree.usesWithin site.callback, p.tree.bindingOf? u = some b ∧
        u.access.reads = true) ∧
      (∀ u ∈ p.tree.usesWithin site.callback, p.tree.bindingOf? u = some b →
        u.access.writes = false) ∧ Outer p.tree site b := by
  constructor
  · rintro ⟨d, hd, rfl⟩
    obtain ⟨k, hk⟩ := Assoc.mem_values hd
    obtain ⟨hget, hunw⟩ := mem_dependencies_iff.mp hk
    obtain ⟨rfl, ⟨u, c⟩, hmem, hread, rfl⟩ := get?_noteAll hget
    obtain ⟨hu, hub, hout⟩ := mem_relevantUses_iff.mp hmem
    refine ⟨⟨u, hu, hub, ?_⟩, fun v hvu hvb => ?_, hout⟩
    · exact reads_of_writes_eq_false hread.1
    · exact hunw (v, _) (mem_relevantUses_iff.mpr ⟨hvu, hvb, hout⟩) rfl
  · rintro ⟨⟨u, hu, hub, -⟩, hunw, hout⟩
    have hmem : (u, b) ∈ relevantUses p.tree site := mem_relevantUses_iff.mpr ⟨hu, hub, hout⟩
    have hkey : b.id ∈ Assoc.keys (noteAll p.source (relevantUses p.tree site)).dependencies := by
      rw [keys_noteAll]
      exact mem_readIds_iff.mpr ⟨(u, b), hmem, hunw u hu hub, rfl⟩
    obtain ⟨d, hd⟩ := Option.isSome_iff_exists.mp (Assoc.mem_keys_iff.mp hkey)
    -- uses of one number are uses of one binding
    have hsame : ∀ e ∈ relevantUses p.tree site, e.2.id = b.id → e.2 = b := by
      rintro ⟨v, c⟩ he hid
      exact Tree.bindingOf?_inj hv (mem_relevantUses_iff.mp he).2.1 hub hid
    refine ⟨d, List.mem_map.mpr ⟨(b.id, d), mem_dependencies_iff.mpr ⟨hd, ?_⟩, rfl⟩, ?_⟩
    · rintro ⟨v, c⟩ he hid
      obtain rfl : c = b := hsame _ he hid
      obtain ⟨hvu, hvb, -⟩ := mem_relevantUses_iff.mp he
      exact hunw v hvu hvb
    · obtain ⟨-, e, he, hread, hed⟩ := get?_noteAll hd
      rw [← hed]
      exact hsame e he hread.2

/-- A path begins the path of a dependency if it begins the path of every use. -/
theorem prefix_path_iff (hv : p.tree.store.Valid)
    (hd : d ∈ Assoc.values (references p.source p.tree site).dependencies) (path : List String) :
    path <+: d.path ↔ ∀ u ∈ p.tree.usesWithin site.callback,
      p.tree.bindingOf? u = some d.binding → u.access.writes = false →
        path <+: accessPath p.source u.cursor := by
  have hout := ((mem_values_iff hv).mp ⟨d, hd, rfl⟩).2.2
  obtain ⟨k, hk⟩ := Assoc.mem_values hd
  obtain ⟨hget, -⟩ := mem_dependencies_iff.mp hk
  obtain ⟨rfl, ⟨u₀, c₀⟩, hmem₀, -, rfl⟩ := get?_noteAll hget
  rw [prefix_noteAll_iff hget]
  constructor
  · intro h u hu hub hw
    exact h (u, _) (mem_relevantUses_iff.mpr ⟨hu, hub, hout⟩) ⟨hw, rfl⟩
  · rintro h ⟨u, c⟩ he ⟨hw, hid⟩
    obtain ⟨hu, hub, -⟩ := mem_relevantUses_iff.mp he
    have hc := Tree.bindingOf?_inj hv hub (mem_relevantUses_iff.mp hmem₀).2.1 hid
    exact h u hu (hc ▸ hub) hw

/-- The missing paths are about the missing bindings. -/
theorem mem_missingOf_binding_iff (hv : p.tree.store.Valid) (reportStatic : Bool) :
    (∃ d ∈ missingOf p reportStatic site array, d.binding = b) ↔ IsMissing p site array b := by
  constructor
  · rintro ⟨d, hd, rfl⟩
    obtain ⟨hdep, hlabel, hcov⟩ := mem_missingOf_iff.mp hd
    obtain ⟨hread, hunw, hout⟩ := (mem_values_iff hv).mp ⟨d, hdep, rfl⟩
    obtain ⟨u, -, hub, -⟩ := hread
    obtain ⟨hreg, hframe⟩ := (outer_iff hv hub).mp hout
    refine ⟨((mem_values_iff hv).mp ⟨d, hdep, rfl⟩).1, hunw, hreg, hframe, hlabel, ?_⟩
    intro e he root path hm hroot hall
    have hyes := (covers_declaredOf_iff hv hub).mpr
      ⟨root, path, hm, hroot, (prefix_path_iff hv hdep path).mpr hall⟩
    rw [hcov e he] at hyes
    cases hyes
  · intro h
    obtain ⟨u, -, hub, -⟩ := h.read
    have hout := (outer_iff hv hub).mpr ⟨h.in_region, h.outside⟩
    obtain ⟨d, hdep, rfl⟩ := (mem_values_iff hv).mpr ⟨h.read, h.unwritten, hout⟩
    refine ⟨d, mem_missingOf_iff.mpr ⟨hdep, h.not_static, fun e he => ?_⟩, rfl⟩
    cases hc : (declaredOf p.source p.tree e).covers d with
    | false => rfl
    | true =>
      obtain ⟨root, path, hm, hroot, hp⟩ := (covers_declaredOf_iff hv hub).mp hc
      exact absurd ((prefix_path_iff hv hdep path).mp hp) (h.uncovered e he root path hm hroot)

/-! ### The order of the missing paths -/

/-- First readings come in the same order among the relevant uses and among all uses. -/
theorem readBefore_of_readFirst (hv : p.tree.store.Valid) {c : Binding} {u₀ : Use}
    (hb : p.tree.bindingOf? u₀ = some b)
    (hunw : ∀ u ∈ p.tree.usesWithin site.callback, p.tree.bindingOf? u = some c →
      u.access.writes = false)
    (hout : Outer p.tree site c) (h : ReadFirst (relevantUses p.tree site) b.id c.id) :
    ReadBefore p.tree site.callback b c := by
  obtain ⟨es₁, e, es₂, heq, hread, hnone⟩ := h
  -- the relevant uses up to `e` are those among the uses up to the use of `e`
  obtain ⟨l₁, l₂, hl, hl₁, hl₂⟩ := List.filterMap_eq_append_iff.mp heq
  obtain ⟨m, u, l₃, rfl, hm, hu, -⟩ := List.filterMap_eq_cons_iff.mp hl₂
  obtain ⟨b', hb', rfl⟩ := Option.map_eq_some_iff.mp hu
  have hub := (relevant?_eq_some_iff.mp hb').1
  obtain rfl : b' = b := Tree.bindingOf?_inj hv hub hb hread.2
  refine ⟨l₁ ++ m, u, l₃, by rw [hl, List.append_assoc], hub, reads_of_writes_eq_false hread.1,
    fun v hvm hvc => ?_⟩
  have hsub : (l₁ ++ m ++ [u]).Sublist (p.tree.usesWithin site.callback) := by
    rw [hl, List.append_assoc]
    simp
  have hvin : v ∈ p.tree.usesWithin site.callback := hsub.subset hvm
  have hvr : (relevant? p.tree site v).map (v, ·) = some (v, c) := by
    rw [relevant?_eq_some_iff.mpr ⟨hvc, hout⟩]
    rfl
  have hvreads : ReadsId c.id (v, c) := ⟨hunw v hvin hvc, rfl⟩
  -- so `v` would be a relevant reading of `c`, at or before `u`
  exfalso
  rcases List.mem_append.mp hvm with hv' | hv'
  · rcases List.mem_append.mp hv' with h₁ | h₂
    · refine hnone (v, c) (List.mem_append_left _ ?_) hvreads
      rw [← hl₁]
      exact List.mem_filterMap.mpr ⟨v, h₁, hvr⟩
    · rw [hm v h₂] at hvr
      cases hvr
  · obtain rfl := List.mem_singleton.mp hv'
    rw [hu] at hvr
    refine hnone (v, b') (List.mem_append_right _ (List.mem_singleton.mpr rfl)) ?_
    rw [Option.some.inj hvr]
    exact hvreads

theorem pairwise_values (hv : p.tree.store.Valid) :
    (Assoc.values (references p.source p.tree site).dependencies).Pairwise fun d e =>
      ReadBefore p.tree site.callback d.binding e.binding := by
  have hkeys : (Assoc.keys (references p.source p.tree site).dependencies).Pairwise
      (ReadFirst (relevantUses p.tree site)) := by
    rw [dependencies_eq, Assoc.keys_filter _ fun k =>
      !Assoc.has (noteAll p.source (relevantUses p.tree site)).mutations k, keys_noteAll]
    exact (pairwise_readIds _).filter _
  rw [keys_dependencies, List.pairwise_map] at hkeys
  refine hkeys.imp_of_mem fun {d e} hd he h => ?_
  obtain ⟨⟨u, -, hub, -⟩, -, -⟩ := (mem_values_iff hv).mp ⟨d, hd, rfl⟩
  obtain ⟨-, hunw, hout⟩ := (mem_values_iff hv).mp ⟨e, he, rfl⟩
  exact readBefore_of_readFirst hv hub hunw hout h

theorem missingOf_sublist (p : Program) (reportStatic : Bool) (site : Site) (array : Node) :
    (missingOf p reportStatic site array).Sublist
      (Assoc.values (references p.source p.tree site).dependencies) :=
  List.filter_sublist.trans (splitByLabel_sublist p [] _)

theorem nodup_missingOf (p : Program) (reportStatic : Bool) (site : Site) (array : Node) :
    ((missingOf p reportStatic site array).map fun d => d.binding.id).Nodup :=
  (nodup_required p reportStatic [] site).sublist (List.filter_sublist.map _)

/-! ### The finding -/

theorem filter_defectDiagnostic {src : Source} {hook : String} {kind : DiagnosticKind}
    {defect : Defect} {names : List String} {fix : Option Fix} (k : DiagnosticKind) :
    (defectDiagnostic src array hook kind defect names fix).filter (fun d => d.kind = k) =
      if kind = k then defectDiagnostic src array hook kind defect names fix else [] := by
  unfold defectDiagnostic
  by_cases hn : names.isEmpty = true
  · rw [if_pos hn]
    simp
  · rw [if_neg hn]
    by_cases hk : kind = k <;> simp [diagnosticAt, hk]

/-- Of the findings of a comparison, the one for the missing paths is the only one of its kind. -/
theorem filter_comparedDiagnostics (src : Source) (hook : String) (array : Node) (d : Diff)
    (unstable : List Unstable) (fix : Option Fix) :
    (comparedDiagnostics src hook array d unstable fix).filter
        (fun d => d.kind = .missingDependency) =
      defectDiagnostic src array hook .missingDependency .missing (d.missing.map Path.render)
        fix := by
  have hunstable : (unstable.map fun u =>
      diagnosticAt src u.binding.node .unstableLiteral hook [u.binding.name]
        (unstableMessage hook u.binding.name u.construction u.usedOutside
          (src.position array.start).line) none).filter
      (fun d => d.kind = .missingDependency) = [] := by
    simp [List.filter_eq_nil_iff, diagnosticAt]
  have hcomplex : (d.complex.map fun e =>
      diagnosticAt src e.node .complexDependency hook [e.source] (complexMessage hook) none).filter
      (fun d => d.kind = .missingDependency) = [] := by
    simp [List.filter_eq_nil_iff, diagnosticAt]
  rw [comparedDiagnostics_eq]
  simp only [List.filter_append, hunstable, hcomplex, filter_defectDiagnostic]
  simp

theorem names_missing_findings (rule : Rule) (p : Program) (h : Compared site array) :
    ((rule.findings p site).filter fun d => d.kind = .missingDependency).map Diagnostic.names =
      if missingOf p rule.reportStatic site array = [] then []
      else [(missingOf p rule.reportStatic site array).map Path.render] := by
  unfold Rule.findings diagnostics
  rw [reconcile_of_compared h]
  simp only [filter_comparedDiagnostics]
  unfold defectDiagnostic missingOf
  simp only [List.isEmpty_iff, List.map_eq_nil_iff]
  split <;> rfl

end Missing

/-- **Exactly the missing dependencies are reported.**  The findings of a program are those of its
sites, and for a site with an inline callback and a plain array, there is a list of paths that name
exactly the missing bindings, each once, in the order in which the callback reads them first.  If
the list is empty, the site has no finding for a missing dependency; otherwise it has exactly one,
and it names these paths. -/
theorem missing_dependency_exact (rule : Rule) (src : Source) (root : Node) {site : Site}
    {array : Node} (h : Compared site array) :
    let p := rule.program src root
    rule.check src root = (Assoc.values p.sites).flatMap (rule.findings p) ∧
    ∃ missing : List Path,
      (∀ b, (∃ d ∈ missing, d.binding = b) ↔ IsMissing p site array b) ∧
      (missing.map fun d => d.binding.id).Nodup ∧
      (missing.Pairwise fun d e => ReadBefore p.tree site.callback d.binding e.binding) ∧
      ((rule.findings p site).filter fun d => d.kind = .missingDependency).map Diagnostic.names =
        if missing = [] then [] else [missing.map Path.render] := by
  intro p
  have hv : p.tree.store.Valid := Tree.valid_ofProgram src root
  refine ⟨check_eq_flatMap rule src root, missingOf p rule.reportStatic site array,
    fun b => mem_missingOf_binding_iff hv rule.reportStatic, nodup_missingOf _ _ _ _,
    (pairwise_values hv).sublist (missingOf_sublist _ _ _ _), names_missing_findings rule p h⟩

/-- The site of the small effect, as the walk finds it. -/
def effectSite : Site where
  name := "useEffect"
  kind := .effect
  node := effectCall
  callback := effectCallback
  dependencies := some effectArray
  scope := 1

/-- The small component under the default options. -/
def effectRun : Program := (Rule.ofOptions {}).program effectText effectProgram

theorem sites_effectRun : Assoc.values effectRun.sites = [effectSite] := by
  with_unfolding_all rfl

theorem compared_effectSite : Compared effectSite effectArray := by
  refine ⟨rfl, ?_, rfl, by simp [effectArray, Node.elements, Node.namedChildren]⟩
  show some effectArray.unwrap = some effectArray
  rw [Node.unwrap, if_neg (by decide)]

theorem plain_effectSite : Plain effectRun effectSite effectArray where
  compared := compared_effectSite
  labelled := by
    have hall : ((Assoc.values (references effectRun.source effectRun.tree
        effectSite).dependencies).all fun d => (ownLabel? effectRun d.binding.id).isSome) = true := by
      decide +kernel
    exact List.all_eq_true.mp hall

/-- The effect is the only site of the small component.  The parameter is all that is missing in
its array, and the one finding for it names the parameter. -/
theorem missing_dependency_exact_effect :
    Compared effectSite effectArray ∧ Assoc.values effectRun.sites = [effectSite] ∧
    ∃ missing : List Path,
      (∀ b, (∃ d ∈ missing, d.binding = b) ↔ IsMissing effectRun effectSite effectArray b) ∧
      missing.map Path.render = ["p"] ∧
      (((Rule.ofOptions {}).findings effectRun effectSite).filter fun d =>
        d.kind = .missingDependency).map Diagnostic.names = [["p"]] := by
  obtain ⟨-, missing, hmem, -, -, hnames⟩ :=
    missing_dependency_exact (Rule.ofOptions {}) effectText effectProgram compared_effectSite
  have hfound : (((Rule.ofOptions {}).findings effectRun effectSite).filter fun d =>
      d.kind = .missingDependency).map Diagnostic.names = [["p"]] := by
    unfold Rule.findings
    rw [plain_effectSite.reconcile_eq]
    decide +kernel
  refine ⟨compared_effectSite, sites_effectRun, missing, hmem, ?_, hfound⟩
  -- the theorem and the run give the same finding
  have hsame := hnames.symm.trans hfound
  split at hsame
  · cases hsame
  · exact List.singleton_inj.mp hsame

end HookLint.Lint
