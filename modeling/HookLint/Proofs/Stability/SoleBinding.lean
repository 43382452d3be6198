import HookLint.Proofs.Scope.VariableEntries
import HookLint.Proofs.Stability.History

/-!
# Proofs.Stability.SoleBinding — a static binding that is used is the only one of its name

A static binding is an initialized variable without the mark of a reassignment.  The mark is an
account of all uses and of the older bindings of the name (`Tree.accounted_ofProgram`): so no use
writes the binding, and there is no older one of its name in its scope.  If the binding is used,
there is no younger one either, since a variable that is used stays the entry of its name
(`intact_ofProgram`).
-/

namespace HookLint.Stability

open Syntax Scope Hook

section Sole

variable {p : Program} {b c : Binding} {init : Node} {u : Use}

theorem FixedAt.isVariable {id : Nat} (h : FixedAt p id b init) : b.kind.isVariable = true := by
  rcases h.variable_kind with hk | hk <;> rw [hk] <;> rfl

/-- Nothing writes a binding without the mark. -/
theorem writes_eq_false_of_fixedAt (ha : p.tree.Accounted) (h : FixedAt p b.id b init)
    (hu : u ∈ p.tree.uses) (hb : u.binding = some b.id) : u.access.writes = false := by
  obtain ⟨-, huses, hre⟩ := ha.tallied b (Array.mem_of_getElem? h.bound)
  have hmem : u ∈ p.tree.usesOf b := by
    rw [huses, List.mem_filter]
    exact ⟨Array.mem_toList_iff.mpr hu, decide_eq_true hb⟩
  by_contra hwrites
  have hmark : b.reassigned = true := hre.mpr (Or.inl ⟨u, hmem, by simpa using hwrites⟩)
  rw [h.unwritten] at hmark
  cases hmark

/-- In a run that spares the entries of variables, an initialized variable without the mark has its
name for itself once it is used. -/
theorem eq_of_fixedAt (ha : p.tree.Accounted) (hi : p.tree.Intact) (h : FixedAt p b.id b init)
    (hu : u ∈ p.tree.uses) (hb : p.tree.bindingOf? u = some b) (hc : c ∈ p.tree.store.bindings)
    (hscope : c.scope = b.scope) (hname : c.name = b.name) : c = b := by
  obtain ⟨j, hj⟩ := Array.mem_iff_getElem?.mp hc
  have hid := ha.consistent.binding_id hj
  -- an older one would have marked the binding
  have hge : b.id ≤ c.id := by
    by_contra hlt
    obtain ⟨-, -, hre⟩ := ha.tallied b (Array.mem_of_getElem? h.bound)
    have hmark : b.reassigned = true :=
      hre.mpr (Or.inr ⟨by rw [h.init_eq]; rfl, c, hc, by omega, hscope, hname⟩)
    rw [h.unwritten] at hmark
    cases hmark
  -- a younger one would have taken over the entry
  have hle : c.id ≤ b.id := by
    rw [hid]
    exact (hi u hu b hb h.isVariable).last hj hname hscope
  have hsame : p.tree.store.bindings[b.id]? = some c := by
    rw [show b.id = j by omega]
    exact hj
  exact Option.some.inj (hsame.symm.trans h.bound)

end Sole

/-- **A static binding that is used is written nowhere and declared once.**  In every program, the
numbers that a binding keeps are those of the recorded uses that resolved to it, and it is marked as
reassigned exactly if one of them writes it, or if it has an initializer and an older binding of its
scope has its name.  So if a use means a binding that is labelled static, whatever the sites and specs are,
whether memo chains are verified or not, and after any history of questions, then no use in the
program writes the binding, and no other binding has its name in its scope. -/
theorem static_binding_sole (src : Source) (root : Node) :
    let t := Tree.ofProgram src root
    (∀ b ∈ t.store.bindings,
      (∀ i ∈ b.uses, i < t.uses.size) ∧
      t.usesOf b = t.uses.toList.filter (fun u => u.binding = some b.id) ∧
      (b.reassigned = true ↔ (∃ u ∈ t.usesOf b, u.access.writes = true) ∨
        b.init.isSome = true ∧ t.store.Redeclares b)) ∧
    ∀ sites specs verify reportStatic history,
      let p : Program := ⟨src, t, sites, specs, verify⟩
      ∀ u ∈ t.uses, ∀ b, t.bindingOf? u = some b →
        (p.label (cacheAfter p reportStatic history) b.id).1 = .static →
        (∀ v ∈ t.uses, v.binding = some b.id → v.access.writes = false) ∧
        ∀ c ∈ t.store.bindings, c.scope = b.scope → c.name = b.name → c = b := by
  intro t
  have ha : t.Accounted := Tree.accounted_ofProgram src root
  have hi : t.Intact := intact_ofProgram src root
  refine ⟨fun b hb => ?_, ?_⟩
  · obtain ⟨hnumbers, huses, hre⟩ := ha.tallied b hb
    exact ⟨hnumbers, huses, hre⟩
  intro sites specs verify reportStatic history p u hu b hb hlabel
  rw [label_eq_labelOf (agrees_cacheAfter p reportStatic history), labelOf_eq_static_iff] at hlabel
  obtain ⟨b', init, hf⟩ := hlabel.exists_fixedAt
  obtain rfl : b' = b :=
    Option.some.inj (hf.bound.symm.trans (Tree.id_of_bindingOf? ha.consistent.toValid hb).2)
  exact ⟨fun v hv hvb => writes_eq_false_of_fixedAt (p := p) ha hf hv hvb,
    fun c hc hscope hname => eq_of_fixedAt (p := p) ha hi hf hu hb hc hscope hname⟩

/-! ### A constant that is read

In `const a=1;a` the second statement reads a static binding. -/

def constantText : Source := ⟨"const a=1;a"⟩

def constantProgram : Node :=
  { kind := .other "program", start := 0, stop := 11
    children := [
      { kind := .lexicalDeclaration, start := 0, stop := 10
        children := [
          { kind := .constWord, field := some .kind, named := false, start := 0, stop := 5 },
          { kind := .variableDeclarator, start := 6, stop := 9
            children := [
              { kind := .identifier, field := some .name, start := 6, stop := 7 },
              { kind := .number, field := some .value, start := 8, stop := 9 }] }] },
      { kind := .other "expression_statement", start := 10, stop := 11
        children := [{ kind := .identifier, start := 10, stop := 11 }] }] }

/-- The program without sites and specs. -/
def constantRun : Program :=
  ⟨constantText, Tree.ofProgram constantText constantProgram, [], [], false⟩

/-- The constant is read, it is static, and no other binding has its name. -/
theorem static_binding_sole_constant :
    ∃ u ∈ constantRun.tree.uses, ∃ b, constantRun.tree.bindingOf? u = some b ∧
      (constantRun.label [] b.id).1 = .static ∧
      ∀ c ∈ constantRun.tree.store.bindings, c.scope = b.scope → c.name = b.name → c = b := by
  have hany : (constantRun.tree.uses.any fun u => (constantRun.tree.bindingOf? u).any fun b =>
      decide (b.slot = .whole ∧ b.kind = .value ∧ b.reassigned = false) &&
        b.init.any (isPrimitive constantText)) = true := by decide +kernel
  obtain ⟨i, hi, hu⟩ := Array.any_eq_true.mp hany
  obtain ⟨b, hb, hcheck⟩ := (Option.any_eq_true _ _).mp hu
  obtain ⟨hfixed, hinit⟩ := Bool.and_eq_true_iff.mp hcheck
  obtain ⟨hslot, hkind, hre⟩ := of_decide_eq_true hfixed
  obtain ⟨init, hinit, hprim⟩ := (Option.any_eq_true _ _).mp hinit
  have hbound := (Tree.id_of_bindingOf? (Tree.valid_ofProgram constantText constantProgram) hb).2
  have hstatic : (constantRun.label [] b.id).1 = .static :=
    labelOf_eq_static_iff.mpr (.primitive ⟨hbound, hinit, hre, Or.inl hkind⟩ hslot hprim)
  have hmem := Array.getElem_mem hi
  obtain ⟨-, hsole⟩ := static_binding_sole constantText constantProgram
  exact ⟨_, hmem, b, hb, hstatic, (hsole [] [] false false [] _ hmem b hb hstatic).2⟩

end HookLint.Stability
