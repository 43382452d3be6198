import HookLint.Proofs.Lint.MissingDependency

/-!
# Proofs.Lint.FreshValue — a static binding is no construction

Two classifiers look at the initializer of a binding: one finds values that stay, the other values
that are made anew.  Both decide by the kind of the expression inside of parentheses, and no kind is
on both sides (`lastingKinds_not_fresh`), so a static binding is no construction
(`StaticBinding.bindingConstruction?_eq_none`).

Hence no finding about an unstable element is about a static binding.  The scan that looks for such
elements reports only bindings of the component that a bare element names (`Unsteady`), each of them
once (`nodup_unstableIn`).
-/

namespace HookLint.Stability

open Syntax Scope

/-! ### Values that stay, and values that are made anew -/

/-- The kinds of expressions whose values can be static: those that can be primitive, and calls. -/
def lastingKinds : List Kind :=
  [.string, .number, .trueWord, .falseWord, .nullWord, .undefinedWord, .identifier, .templateString,
    .unary, .callExpression]

/-- None of them is a construction, and none passes one on. -/
theorem lastingKinds_not_fresh : ∀ k ∈ lastingKinds,
    Construction.ofKind? k = none ∧ k ≠ .ternary ∧ k ≠ .binary ∧ k ≠ .assignment := by decide

section Kinds

variable {src : Source} {n : Node}

theorem constructionOf?_of_lasting (h : n.unwrap.kind ∈ lastingKinds) :
    constructionOf? src n = none := by
  obtain ⟨hnone, ht, hb, ha⟩ := lastingKinds_not_fresh _ h
  rw [constructionOf?]
  dsimp only
  split
  · next hk => exact absurd hk ht
  · next hk => exact absurd hk hb
  · next hk => exact absurd hk ha
  · exact hnone

theorem kind_of_isPrimitive (h : isPrimitive src n = true) : n.unwrap.kind ∈ lastingKinds := by
  have hmem : ∀ {k : Kind}, n.unwrap.kind = k → k ∈ lastingKinds →
      n.unwrap.kind ∈ lastingKinds := fun hk hin => hk ▸ hin
  rw [isPrimitive] at h
  split at h
  -- each of the nine kinds with a branch of its own, and then all others
  iterate 9
    · next hk => exact hmem hk (by decide)
  · cases h

end Kinds

section Bindings

variable {p : Program} {id : Nat} {b : Binding}

/-- The initializer of a static binding is of a kind whose values can be static. -/
theorem StaticBinding.exists_lasting (h : StaticBinding p id) :
    ∃ b init, FixedAt p id b init ∧ init.unwrap.kind ∈ lastingKinds := by
  have hcall : ∀ {n : Node}, n.kind = .callExpression → n.kind ∈ lastingKinds := by
    intro n hn
    rw [hn]
    decide
  cases h with
  | primitive hf _ hp => exact ⟨_, _, hf, kind_of_isPrimitive hp⟩
  | spec hf hk _ _ _ => exact ⟨_, _, hf, hcall hk⟩
  | emptyMemo hf hm _ => exact ⟨_, _, hf, hcall hm.is_call⟩
  | memo hf hm _ _ _ _ => exact ⟨_, _, hf, hcall hm.is_call⟩

/-- **A static binding is no construction.** -/
theorem StaticBinding.bindingConstruction?_eq_none (h : StaticBinding p id)
    (hb : p.tree.binding? id = some b) : bindingConstruction? p.source b = none := by
  obtain ⟨c, init, hf, hk⟩ := h.exists_lasting
  obtain rfl : b = c := Option.some.inj (hb.symm.trans hf.bound)
  have hlast : constructionOf? p.source init = none := constructionOf?_of_lasting hk
  unfold bindingConstruction?
  rw [hf.init_eq]
  rcases hf.variable_kind with hkind | hkind <;> rw [hkind] <;> cases b.slot with
  | whole => exact hlast
  | position i => rfl
  | key name => rfl
  | rest => rfl

end Bindings
end HookLint.Stability

namespace HookLint.Dependency

open Syntax Scope Hook Stability

/-! ### The scan for unstable elements -/

/-- What is reported as unstable: a construction of the component that a bare element names. -/
structure Unsteady (p : Program) (site : Site) (elements : List Declared) (u : Unstable) :
    Prop where
  listed : ∃ d ∈ elements, ∃ offset, d.path? = some ⟨u.binding, [], offset⟩
  in_region : u.binding.scope ∈ p.tree.store.region site.scope
  fresh : bindingConstruction? p.source u.binding = some u.construction

section Scan

variable {p : Program} {site : Site} {array : Node} {u : Unstable}

theorem Unsteady.cons {d : Declared} {ds : List Declared} (h : Unsteady p site ds u) :
    Unsteady p site (d :: ds) u := by
  obtain ⟨e, he, hpath⟩ := h.listed
  exact ⟨⟨e, List.mem_cons_of_mem _ he, hpath⟩, h.in_region, h.fresh⟩

/-- One element of the scan: it is passed over, or it is the first to name a construction of the
component. -/
theorem unstableIn_cons (p : Program) (site : Site) (array : Node) (reported : List Nat)
    (d : Declared) (ds : List Declared) :
    unstableIn p site array reported (d :: ds) = unstableIn p site array reported ds ∨
    ∃ u, Unsteady p site [d] u ∧ u.binding.id ∉ reported ∧
      unstableIn p site array reported (d :: ds) =
        u :: unstableIn p site array (u.binding.id :: reported) ds := by
  rw [unstableIn]
  split
  · next b offset hpath =>
    split
    · exact Or.inl rfl
    · next hnew =>
      simp only [Bool.or_eq_true, List.contains_iff_mem, Bool.not_eq_true', not_or,
        Bool.not_eq_false] at hnew
      split
      · next construction hc =>
        exact Or.inr ⟨_, ⟨⟨d, List.mem_singleton.mpr rfl, offset, hpath⟩, hnew.2, hc⟩, hnew.1, rfl⟩
      · exact Or.inl rfl
  · exact Or.inl rfl

theorem unsteady_of_mem_unstableIn {reported : List Nat} {ds : List Declared}
    (h : u ∈ unstableIn p site array reported ds) :
    u.binding.id ∉ reported ∧ Unsteady p site ds u := by
  induction ds generalizing reported with
  | nil => cases h
  | cons d ds ih =>
    rcases unstableIn_cons p site array reported d ds with heq | ⟨v, hv, hnew, heq⟩
    · rw [heq] at h
      obtain ⟨hfresh, hu⟩ := ih h
      exact ⟨hfresh, hu.cons⟩
    · rw [heq] at h
      rcases List.mem_cons.mp h with rfl | h
      · obtain ⟨e, he, hpath⟩ := hv.listed
        obtain rfl := List.mem_singleton.mp he
        exact ⟨hnew, ⟨e, List.mem_cons_self, hpath⟩, hv.in_region, hv.fresh⟩
      · obtain ⟨hfresh, hu⟩ := ih h
        exact ⟨fun hmem => hfresh (List.mem_cons_of_mem _ hmem), hu.cons⟩

/-- No binding is reported twice. -/
theorem nodup_unstableIn (p : Program) (site : Site) (array : Node) (reported : List Nat)
    (ds : List Declared) :
    ((unstableIn p site array reported ds).map fun u => u.binding.id).Nodup := by
  induction ds generalizing reported with
  | nil => exact List.nodup_nil
  | cons d ds ih =>
    rcases unstableIn_cons p site array reported d ds with heq | ⟨v, -, -, heq⟩
    · rw [heq]
      exact ih reported
    · rw [heq, List.map_cons, List.nodup_cons]
      refine ⟨fun hmem => ?_, ih _⟩
      -- whatever is reported later is none of those reported by then
      obtain ⟨w, hw, hid⟩ := List.mem_map.mp hmem
      exact (unsteady_of_mem_unstableIn hw).1 (by rw [hid]; exact List.mem_cons_self)

/-- The unstable elements of a site are those of the comparison with its array. -/
theorem unstable_reconcile (p : Program) (reportStatic : Bool) (cache : Cache) (site : Site) :
    (reconcile p reportStatic cache site).1.unstable = [] ∨
    ∃ array, Compared site array ∧ (reconcile p reportStatic cache site).1.array? = some array ∧
      (reconcile p reportStatic cache site).1.unstable =
        unstableIn p site array [] (declaredIn p array) := by
  cases h : (reconcile p reportStatic cache site).1.outcome with
  | compared array d unstable =>
    have hc := compared_of_outcome h
    refine Or.inr ⟨array, hc, ?_⟩
    rw [reconcile_of_compared hc]
    exact ⟨rfl, rfl⟩
  | _ => exact Or.inl (by simp [Reconciliation.unstable, h])

/-- A plain element on a local binding is a chain whose root resolves to the binding. -/
theorem exists_chain_of_path? {src : Source} {t : Tree} {e : Node} {d : Path}
    (h : (declaredOf src t e).path? = some d) :
    ∃ root, memberChain? src e = some (root, d.path) ∧
      (t.useAt? root).bind t.bindingOf? = some d.binding := by
  unfold Declared.path? declaredOf targetOf at h
  cases hm : memberChain? src e with
  | none => simp [hm] at h
  | some chain =>
    obtain ⟨root, path⟩ := chain
    simp only [hm] at h
    cases hb : (t.useAt? root).bind t.bindingOf? with
    | none => simp [hb] at h
    | some b =>
      simp only [hb, Option.some.injEq] at h
      subst h
      exact ⟨root, rfl, hb⟩

end Scan
end HookLint.Dependency

namespace HookLint.Lint

open Syntax Scope Hook Stability Dependency Report

section Findings

variable {src : Source} {r : Reconciliation} {d : Diagnostic}

/-- A finding about an unstable element is shown at the binding that the element names. -/
theorem exists_unstable_of_mem_diagnostics (hd : d ∈ diagnostics src r)
    (hk : d.kind = .unstableLiteral) :
    ∃ u ∈ r.unstable, d.names = [u.binding.name] ∧
      d.start = u.binding.node.start ∧ d.stop = u.binding.node.stop := by
  unfold diagnostics at hd
  cases ho : r.outcome with
  | compared array c unstable =>
    rw [ho] at hd
    have hu : r.unstable = unstable := by simp [Reconciliation.unstable, ho]
    simp only [comparedDiagnostics_eq, List.mem_append, List.mem_map, or_assoc] at hd
    rw [hu]
    rcases hd with ⟨u, hmem, rfl⟩ | ⟨e, -, rfl⟩ | hd | hd | hd
    · exact ⟨u, hmem, rfl, rfl, rfl⟩
    · cases hk
    all_goals
      -- the findings of defects have other kinds
      unfold defectDiagnostic at hd
      split at hd
      · cases hd
      · rw [List.mem_singleton.mp hd] at hk
        cases hk
  | unchecked => simp [ho] at hd
  | notArray argument =>
    simp only [ho, List.mem_singleton] at hd
    rw [hd] at hk
    cases hk
  | spread argument array =>
    simp only [ho, List.mem_singleton] at hd
    rw [hd] at hk
    cases hk
  | passedCallback array unknown =>
    simp only [ho] at hd
    split at hd
    · rw [List.mem_singleton.mp hd] at hk
      cases hk
    · cases hd

end Findings

section Exclusion

variable {p : Program} {reportStatic : Bool} {cache : Cache} {site : Site} {u : Unstable}

/-- An array lists a binding bare: one of its elements is an identifier that resolved to it. -/
def ListsBare (p : Program) (array : Node) (b : Binding) : Prop :=
  ∃ e ∈ array.elements, ∃ root, memberChain? p.source e = some (root, []) ∧
    (p.tree.useAt? root).bind p.tree.bindingOf? = some b

/-- What is reported as unstable is listed bare in the array of the site. -/
theorem unsteady_of_mem_unstable (hu : u ∈ (reconcile p reportStatic cache site).1.unstable) :
    ∃ array, (reconcile p reportStatic cache site).1.array? = some array ∧
      ListsBare p array u.binding ∧ Unsteady p site (declaredIn p array) u := by
  rcases unstable_reconcile p reportStatic cache site with hnil | ⟨array, -, harray, heq⟩
  · rw [hnil] at hu
    cases hu
  · rw [heq] at hu
    obtain ⟨-, h⟩ := unsteady_of_mem_unstableIn hu
    obtain ⟨d, hd, offset, hpath⟩ := h.listed
    obtain ⟨e, he, rfl⟩ := List.mem_map.mp hd
    obtain ⟨root, hchain, hroot⟩ := exists_chain_of_path? hpath
    exact ⟨array, harray, ⟨e, he, root, hchain, hroot⟩, h⟩

theorem construction?_of_label_static {id : Nat} {b : Binding} (hc : Agrees p.evidenceAt cache)
    (hb : p.tree.binding? id = some b) (hs : (p.label cache id).1 = .static) :
    bindingConstruction? p.source b = none := by
  rw [label_eq_labelOf hc] at hs
  exact (labelOf_eq_static_iff.mp hs).bindingConstruction?_eq_none hb

/-- No binding that is reported as unstable is labelled static. -/
theorem label_ne_static_of_mem_unstable (hv : p.tree.store.Valid)
    (hu : u ∈ (reconcile p reportStatic cache site).1.unstable) {cache' : Cache}
    (hc : Agrees p.evidenceAt cache') : (p.label cache' u.binding.id).1 ≠ .static := by
  intro hs
  obtain ⟨array, -, ⟨e, -, root, -, hroot⟩, h⟩ := unsteady_of_mem_unstable hu
  obtain ⟨v, -, hvb⟩ := Option.bind_eq_some_iff.mp hroot
  have hnone := construction?_of_label_static hc (Tree.id_of_bindingOf? hv hvb).2 hs
  rw [h.fresh] at hnone
  cases hnone

theorem nodup_unstable (p : Program) (reportStatic : Bool) (cache : Cache) (site : Site) :
    ((reconcile p reportStatic cache site).1.unstable.map fun u => u.binding.id).Nodup := by
  rcases unstable_reconcile p reportStatic cache site with hnil | ⟨array, -, -, heq⟩
  · rw [hnil]
    exact List.nodup_nil
  · rw [heq]
    exact nodup_unstableIn p site array [] _

/-- A finding of a rule about an unstable element is about a binding that is not static. -/
theorem exists_binding_of_mem_check {rule : Rule} {src : Source} {root : Node} {d : Diagnostic}
    (hd : d ∈ rule.check src root) (hk : d.kind = .unstableLiteral) :
    ∃ b, (rule.program src root).tree.binding? b.id = some b ∧ d.names = [b.name] ∧
      d.start = b.node.start ∧ d.stop = b.node.stop ∧
      ∀ later, ((rule.program src root).label
        (cacheAfter (rule.program src root) rule.reportStatic later) b.id).1 ≠ .static := by
  rw [check_eq_flatMap] at hd
  have hv : (rule.program src root).tree.store.Valid := Tree.valid_ofProgram src root
  generalize rule.program src root = p at hd hv ⊢
  obtain ⟨site, -, hd⟩ := List.mem_flatMap.mp hd
  obtain ⟨u, hu, hnames, hstart, hstop⟩ := exists_unstable_of_mem_diagnostics hd hk
  obtain ⟨array, -, ⟨e, -, r, -, hroot⟩, -⟩ := unsteady_of_mem_unstable hu
  obtain ⟨v, -, hvb⟩ := Option.bind_eq_some_iff.mp hroot
  exact ⟨u.binding, (Tree.id_of_bindingOf? hv hvb).2, hnames, hstart, hstop, fun later =>
    label_ne_static_of_mem_unstable hv hu (agrees_cacheAfter p rule.reportStatic later)⟩

end Exclusion

/-- **Static and unstable exclude each other.**  For every program, whatever its sites and specs are
and whether memo chains are verified or not, and after any history of questions: a binding that is
labelled static is no construction.  What a site reports as unstable is a binding of the component
that the array of the site lists bare; it is labelled static after no history, and it is reported
once.  The findings of this kind are about these bindings, and so are those of every rule. -/
theorem static_excludes_construction (src : Source) (root : Node) (sites : Sites)
    (specs : Assoc String Spec) (verify reportStatic : Bool) (history : List Question) :
    let p : Program := ⟨src, Tree.ofProgram src root, sites, specs, verify⟩
    let cache := cacheAfter p reportStatic history
    (∀ id b, p.tree.binding? id = some b → (p.label cache id).1 = .static →
      bindingConstruction? src b = none) ∧
    (∀ site, let r := (reconcile p reportStatic cache site).1
      (∀ u ∈ r.unstable, u.binding.scope ∈ p.tree.store.region site.scope ∧
        (∃ array, r.array? = some array ∧ ListsBare p array u.binding) ∧
        ∀ later, (p.label (cacheAfter p reportStatic later) u.binding.id).1 ≠ .static) ∧
      (r.unstable.map fun u => u.binding.id).Nodup ∧
      ∀ d ∈ diagnostics src r, d.kind = .unstableLiteral →
        ∃ u ∈ r.unstable, d.names = [u.binding.name] ∧
          d.start = u.binding.node.start ∧ d.stop = u.binding.node.stop) ∧
    ∀ rule : Rule, ∀ d ∈ rule.check src root, d.kind = .unstableLiteral →
      ∃ b, (rule.program src root).tree.binding? b.id = some b ∧ d.names = [b.name] ∧
        d.start = b.node.start ∧ d.stop = b.node.stop ∧
        ∀ later, ((rule.program src root).label
          (cacheAfter (rule.program src root) rule.reportStatic later) b.id).1 ≠ .static := by
  intro p cache
  have hc : Agrees p.evidenceAt cache := agrees_cacheAfter p reportStatic history
  have hv : p.tree.store.Valid := Tree.valid_ofProgram src root
  refine ⟨fun id b hb hs => construction?_of_label_static hc hb hs, fun site => ⟨fun u hu => ?_,
    nodup_unstable p reportStatic cache site, fun d hd hk =>
      exists_unstable_of_mem_diagnostics hd hk⟩,
    fun rule d hd hk => exists_binding_of_mem_check hd hk⟩
  obtain ⟨array, harray, hbare, h⟩ := unsteady_of_mem_unstable hu
  exact ⟨h.in_region, ⟨array, harray, hbare⟩, fun later =>
    label_ne_static_of_mem_unstable hv hu (agrees_cacheAfter p reportStatic later)⟩

end HookLint.Lint
