import HookLint.Proofs.Dependency.References
import HookLint.Proofs.Stability.Closure
import HookLint.Stability.Classifier

/-!
# Proofs.Stability.StaticBinding — which bindings are static

`StaticBinding p` is the least set of bindings of a program that is closed under four rules, each
about a variable with an initializer that nothing writes:

* the variable is the whole of a primitive value;
* it is a part of the result of a hook whose spec marks that part;
* it is the result of a memo hook with an empty dependency array;
* it is the result of a memo hook whose callback is written in place and writes nothing, and every
  dependency of which is in the set.

The last two need memo chains to be checked, and a callee without a spec.  `grounded_iff` says that
this is the closure of `Program.evidenceAt`.
-/

namespace HookLint.Stability

open Syntax Scope Hook Dependency

/-- Binding `id` is the variable `b` with initializer `init`, and nothing writes it. -/
structure FixedAt (p : Program) (id : Nat) (b : Binding) (init : Node) : Prop where
  bound : p.tree.binding? id = some b
  init_eq : b.init = some init
  unwritten : b.reassigned = false
  variable_kind : b.kind = .value ∨ b.kind = .hookResult

/-- `call` is the call of a memo hook without a spec, with a dependency array, in a program whose
memo chains are checked. -/
structure MemoCall (p : Program) (call : Node) (site : Site) (array : Node) : Prop where
  verified : p.verifyMemoChain = true
  is_call : call.kind = .callExpression
  no_spec : ∀ name, p.source.calleeName? call = some name → Assoc.get? p.specs name = none
  site_eq : Assoc.get? p.sites call.key = some site
  is_memo : site.kind = .memo
  array_eq : site.dependencies.map Node.unwrap = some array
  is_array : array.kind = .array

/-- The static bindings of a program, by their numbers. -/
inductive StaticBinding (p : Program) : Nat → Prop
  | primitive {id : Nat} {b : Binding} {init : Node} : FixedAt p id b init → b.slot = .whole →
      isPrimitive p.source init = true → StaticBinding p id
  | spec {id : Nat} {b : Binding} {init : Node} {name : String} {spec : Spec} :
      FixedAt p id b init → init.unwrap.kind = .callExpression →
      p.source.calleeName? init.unwrap = some name → Assoc.get? p.specs name = some spec →
      spec.isStatic b.slot = true → StaticBinding p id
  | emptyMemo {id : Nat} {b : Binding} {init array : Node} {site : Site} :
      FixedAt p id b init → MemoCall p init.unwrap site array → array.elements = [] →
      StaticBinding p id
  | memo {id : Nat} {b : Binding} {init array : Node} {site : Site} :
      FixedAt p id b init → MemoCall p init.unwrap site array → array.elements ≠ [] →
      site.hasInlineCallback = true → (references p.source p.tree site).mutations = [] →
      (∀ d ∈ Assoc.values (references p.source p.tree site).dependencies,
        StaticBinding p d.binding.id) →
      StaticBinding p id

/-- A static binding is a variable with an initializer that nothing writes. -/
theorem StaticBinding.exists_fixedAt {p : Program} {id : Nat} (h : StaticBinding p id) :
    ∃ b init, FixedAt p id b init := by
  cases h with
  | primitive hf _ _ => exact ⟨_, _, hf⟩
  | spec hf _ _ _ _ => exact ⟨_, _, hf⟩
  | emptyMemo hf _ _ => exact ⟨_, _, hf⟩
  | memo hf _ _ _ _ _ => exact ⟨_, _, hf⟩

section Evidence

variable {p : Program} {id : Nat} {b : Binding} {init call array : Node} {site : Site} {slot : Slot}

/-! ### What the rules say is the evidence -/

theorem evidenceAt_of_fixed (h : FixedAt p id b init) :
    p.evidenceAt id =
      if b.slot = .whole ∧ isPrimitive p.source init = true then .settled .static
      else if init.unwrap.kind = .callExpression then p.callEvidence init.unwrap b.slot
      else .settled .dynamic := by
  have hfix : Program.isFixedVariable b = true := by
    rcases h.variable_kind with hk | hk <;> simp [Program.isFixedVariable, h.unwritten, hk]
  simp [Program.evidenceAt, Program.evidence, h.bound, h.init_eq, hfix]

theorem callEvidence_of_memo (h : MemoCall p call site array) :
    p.callEvidence call slot = p.memoEvidence site := by
  have hspec : (p.source.calleeName? call).bind (Assoc.get? p.specs) = none := by
    cases hn : p.source.calleeName? call with
    | none => rfl
    | some name => exact h.no_spec name hn
  simp [Program.callEvidence, hspec, h.verified, h.site_eq, h.is_memo]

theorem memoEvidence_of_memo (h : MemoCall p call site array) :
    p.memoEvidence site =
      if array.elements.isEmpty then .settled .static
      else if !site.hasInlineCallback then .settled .dynamic
      else if (references p.source p.tree site).mutations.isEmpty then
        .allOf (Assoc.keys (references p.source p.tree site).dependencies)
      else .settled .dynamic := by
  obtain ⟨argument, hd, ha⟩ := Option.map_eq_some_iff.mp h.array_eq
  have hk := h.is_array
  rw [← ha] at hk ⊢
  simp [Program.memoEvidence, hd, hk]

/-- A primitive initializer settles the label; otherwise the call decides. -/
theorem grounded_of_call (h : FixedAt p id b init) (hcall : init.unwrap.kind = .callExpression)
    (hg : p.evidenceAt id = p.callEvidence init.unwrap b.slot → Grounded p.evidenceAt id) :
    Grounded p.evidenceAt id := by
  have he := evidenceAt_of_fixed h
  by_cases hp : b.slot = .whole ∧ isPrimitive p.source init = true
  · rw [if_pos hp] at he
    exact .settled he
  · rw [if_neg hp, if_pos hcall] at he
    exact hg he

theorem grounded_of_static (h : StaticBinding p id) : Grounded p.evidenceAt id := by
  induction h with
  | primitive h hs hp =>
    refine .settled ?_
    rw [evidenceAt_of_fixed h, if_pos ⟨hs, hp⟩]
  | spec h hcall hname hspec hstatic =>
    refine grounded_of_call h hcall fun he => .settled ?_
    simp [he, Program.callEvidence, hname, hspec, hstatic]
  | emptyMemo h hm hempty =>
    refine grounded_of_call h hm.is_call fun he => .settled ?_
    rw [he, callEvidence_of_memo hm, memoEvidence_of_memo hm, hempty]
    rfl
  | @memo id b init array site h hm hne hin hmut _ ih =>
    refine grounded_of_call h hm.is_call fun he => ?_
    have hids : p.evidenceAt id =
        .allOf (Assoc.keys (references p.source p.tree site).dependencies) := by
      rw [he, callEvidence_of_memo hm, memoEvidence_of_memo hm]
      simp [hne, hin, hmut]
    refine .allOf hids fun j hj => ?_
    rw [keys_dependencies] at hj
    obtain ⟨d, hd, rfl⟩ := List.mem_map.mp hj
    exact ih d hd

/-! ### What the evidence says follows from the rules -/

theorem fixedAt_of_evidence (h : p.evidenceAt id ≠ .settled .dynamic) :
    ∃ b init, FixedAt p id b init := by
  unfold Program.evidenceAt at h
  cases hb : p.tree.binding? id with
  | none => simp [hb] at h
  | some b =>
    rw [hb] at h
    simp only [Option.elim_some, Program.evidence] at h
    cases hi : b.init with
    | none => simp [hi] at h
    | some init =>
      rw [hi] at h
      cases hf : Program.isFixedVariable b with
      | false => simp [hf] at h
      | true =>
        simp only [Program.isFixedVariable, Bool.and_eq_true, Bool.not_eq_true', Bool.or_eq_true,
          decide_eq_true_eq] at hf
        exact ⟨b, init, hb, hi, hf.1, hf.2⟩

theorem memoCall_of_evidence (slot : Slot) (hcall : call.kind = .callExpression)
    (hspec : (p.source.calleeName? call).bind (Assoc.get? p.specs) = none)
    (h : p.callEvidence call slot ≠ .settled .dynamic) :
    ∃ site array, MemoCall p call site array := by
  have hno : ∀ name, p.source.calleeName? call = some name → Assoc.get? p.specs name = none := by
    intro name hn
    rw [hn] at hspec
    exact hspec
  unfold Program.callEvidence at h
  rw [hspec] at h
  simp only at h
  split at h
  · next hv =>
    split at h
    · next site hs =>
      split at h
      · next hk =>
        unfold Program.memoEvidence at h
        cases hd : site.dependencies with
        | none => simp [hd] at h
        | some argument =>
          rw [hd] at h
          by_cases ha : argument.unwrap.kind = .array
          · exact ⟨site, argument.unwrap, hv, hcall, hno, hs, hk, by rw [hd]; rfl, ha⟩
          · simp [ha] at h
      · exact absurd rfl h
    · exact absurd rfl h
  · exact absurd rfl h

/-- The three things that the evidence of a binding can be. -/
theorem evidenceAt_cases (p : Program) (id : Nat) :
    p.evidenceAt id = .settled .dynamic ∨
    (p.evidenceAt id = .settled .static ∧ StaticBinding p id) ∨
    ∃ b init site array, FixedAt p id b init ∧ MemoCall p init.unwrap site array ∧
      array.elements ≠ [] ∧ site.hasInlineCallback = true ∧
      (references p.source p.tree site).mutations = [] ∧
      p.evidenceAt id = .allOf (Assoc.keys (references p.source p.tree site).dependencies) := by
  by_cases hdyn : p.evidenceAt id = .settled .dynamic
  · exact Or.inl hdyn
  refine Or.inr ?_
  obtain ⟨b, init, hfix⟩ := fixedAt_of_evidence hdyn
  have he := evidenceAt_of_fixed hfix
  by_cases hp : b.slot = .whole ∧ isPrimitive p.source init = true
  · rw [if_pos hp] at he
    exact Or.inl ⟨he, .primitive hfix hp.1 hp.2⟩
  by_cases hcall : init.unwrap.kind = .callExpression
  swap
  · rw [if_neg hp, if_neg hcall] at he
    exact absurd he hdyn
  rw [if_neg hp, if_pos hcall] at he
  cases hspec : (p.source.calleeName? init.unwrap).bind (Assoc.get? p.specs) with
  | some spec =>
    obtain ⟨name, hn, hsp⟩ := Option.bind_eq_some_iff.mp hspec
    cases hst : spec.isStatic b.slot with
    | true =>
      refine Or.inl ⟨?_, .spec hfix hcall hn hsp hst⟩
      simp [he, Program.callEvidence, hspec, hst]
    | false => exact absurd (by simp [he, Program.callEvidence, hspec, hst]) hdyn
  | none =>
    obtain ⟨site, array, hm⟩ := memoCall_of_evidence b.slot hcall hspec (he ▸ hdyn)
    rw [callEvidence_of_memo hm, memoEvidence_of_memo hm] at he
    split at he
    · next hempty => exact Or.inl ⟨he, .emptyMemo hfix hm (List.isEmpty_iff.mp hempty)⟩
    · next hne =>
      split at he
      · exact absurd he hdyn
      · next hin =>
        split at he
        · next hmut =>
          exact Or.inr ⟨b, init, site, array, hfix, hm, by simpa using hne, by simpa using hin,
            List.isEmpty_iff.mp hmut, he⟩
        · exact absurd he hdyn

theorem static_of_grounded (h : Grounded p.evidenceAt id) : StaticBinding p id := by
  induction h with
  | @settled id hs =>
    rcases evidenceAt_cases p id with he | ⟨-, hst⟩ | ⟨_, _, _, _, -, -, -, -, -, he⟩
    · simp [hs] at he
    · exact hst
    · simp [hs] at he
  | @allOf id ids ha _ ih =>
    rcases evidenceAt_cases p id with
      he | ⟨-, hst⟩ | ⟨b, init, site, array, hf, hm, hne, hin, hmut, he⟩
    · simp [ha] at he
    · exact hst
    · obtain rfl := Evidence.allOf.inj (ha.symm.trans he)
      refine .memo hf hm hne hin hmut fun d hd => ih _ ?_
      rw [keys_dependencies]
      exact List.mem_map_of_mem hd

/-- **The closure of the evidence is the set of static bindings.** -/
theorem grounded_iff : Grounded p.evidenceAt id ↔ StaticBinding p id :=
  ⟨static_of_grounded, grounded_of_static⟩

end Evidence

end HookLint.Stability
