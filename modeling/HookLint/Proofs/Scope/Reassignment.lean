import HookLint.Proofs.Scope.ScriptRun

/-!
# Proofs.Scope.Reassignment — what a binding records of its uses

A binding keeps the numbers of the uses that resolved to it, and whether it was reassigned.  Both
are written bit by bit, on whichever binding a name means at the moment, while later declarations
take over entries of the tables.  `Tallied` says what they come to: the uses of a binding are all
recorded uses that resolved to it, and it is reassigned exactly if one of them writes it, or if it
is initialized and its scope had the name before.

Each event keeps that of all bindings (`Accounted.step`), so it holds after every run of events
(`Accounted.foldl`), and of every program.
-/

namespace HookLint.Scope

open Syntax

/-- A binding after one more use of it. -/
def Binding.noted (b : Binding) (use : Nat) (writes : Bool) : Binding :=
  { b with uses := b.uses.push use, reassigned := b.reassigned || writes }

namespace Store

/-- The scope of a binding had its name before: an older binding of the scope has it too. -/
def Redeclares (s : Store) (b : Binding) : Prop :=
  ∃ c ∈ s.bindings, c.id < b.id ∧ c.scope = b.scope ∧ c.name = b.name

/-- The same bindings, but for what they record of their uses. -/
structure Alike (s t : Store) : Prop where
  forth : ∀ {k : Nat} {b : Binding}, s.bindings[k]? = some b → ∃ c, t.bindings[k]? = some c ∧
    c.toDeclaration = b.toDeclaration ∧ c.id = b.id ∧ c.scope = b.scope
  back : ∀ {k : Nat} {c : Binding}, t.bindings[k]? = some c → ∃ b, s.bindings[k]? = some b ∧
    b.toDeclaration = c.toDeclaration ∧ b.id = c.id ∧ b.scope = c.scope

namespace Alike

variable {s t : Store}

theorem symm (h : s.Alike t) : t.Alike s := ⟨h.back, h.forth⟩

theorem of_bindings_eq (h : t.bindings = s.bindings) : s.Alike t :=
  ⟨fun {_ b} hb => ⟨b, by rw [h, hb], rfl, rfl, rfl⟩,
    fun {_ c} hc => ⟨c, by rw [← h, hc], rfl, rfl, rfl⟩⟩

theorem noteUse (s : Store) (binding use : Nat) (writes : Bool) :
    s.Alike (s.noteUse binding use writes) := by
  refine ⟨exists_noteUse binding use writes, fun {k c} hc => ?_⟩
  obtain ⟨b, hb, hd, hid, hs⟩ := getElem?_noteUse hc
  exact ⟨b, hb, hd.symm, hid.symm, hs.symm⟩

theorem latest (h : s.Alike t) {name : String} {i k : Nat} (hl : s.Latest name i k) :
    t.Latest name i k := by
  obtain ⟨⟨b, hb, hname, hscope⟩, hlast⟩ := hl
  obtain ⟨c, hc, hd, -, hs⟩ := h.forth hb
  refine ⟨⟨c, hc, by rw [hd]; exact hname, hs.trans hscope⟩, fun {j e} he hname hscope => ?_⟩
  obtain ⟨e', he', hd', -, hs'⟩ := h.back he
  exact hlast he' (by rw [hd']; exact hname) (hs'.trans hscope)

theorem redeclares (h : s.Alike t) {b : Binding} (hb : s.Redeclares b) : t.Redeclares b := by
  obtain ⟨c, hc, hrest⟩ := hb
  obtain ⟨k, hk⟩ := Array.mem_iff_getElem?.mp hc
  obtain ⟨c', hc', hd, hid, hs⟩ := h.forth hk
  rw [← hid, ← hs, ← hd] at hrest
  exact ⟨c', Array.mem_of_getElem? hc', hrest⟩

theorem redeclares_iff (h : s.Alike t) (b : Binding) : t.Redeclares b ↔ s.Redeclares b :=
  ⟨h.symm.redeclares, h.redeclares⟩

end Alike

section Tables

variable {s : Store}

theorem Consistent.noteUse (h : s.Consistent) (binding use : Nat) (writes : Bool) :
    (s.noteUse binding use writes).Consistent := by
  have halike := Alike.noteUse s binding use writes
  exact ⟨h.toValid.noteUse binding use writes, fun name i k =>
    (h.latest name i k).trans ⟨halike.latest, halike.symm.latest⟩⟩

/-- Every binding has its name in the table of its scope; the entry may be a later one. -/
theorem Consistent.exists_lookup (h : s.Consistent) {j : Nat} {c : Binding}
    (hc : s.bindings[j]? = some c) : ∃ k, s.lookup c.name c.scope = some k := by
  classical
  -- the entry is the last binding of the name in the scope
  let declaredAt : Nat → Prop := fun k =>
    ∃ b, s.bindings[k]? = some b ∧ b.name = c.name ∧ b.scope = c.scope
  have hle : ∀ {k : Nat} {b : Binding}, s.bindings[k]? = some b → k ≤ s.bindings.size := by
    intro k b hb
    exact Nat.le_of_lt (lt_of_getElem? hb)
  have hj : declaredAt j := ⟨c, hc, rfl, rfl⟩
  refine ⟨Nat.findGreatest declaredAt s.bindings.size, (h.latest _ _ _).mpr ⟨?_, ?_⟩⟩
  · exact Nat.findGreatest_spec (hle hc) hj
  · intro k b hb hname hscope
    exact Nat.le_findGreatest (hle hb) ⟨b, hb, hname, hscope⟩

theorem Consistent.isSome_lookup_iff (h : s.Consistent) (name : String) (scope : Nat) :
    (s.lookup name scope).isSome = true ↔ ∃ c ∈ s.bindings, c.scope = scope ∧ c.name = name := by
  constructor
  · intro hsome
    obtain ⟨k, hk⟩ := Option.isSome_iff_exists.mp hsome
    obtain ⟨⟨c, hc, hname, hscope⟩, -⟩ := (h.latest name scope k).mp hk
    exact ⟨c, Array.mem_of_getElem? hc, hscope, hname⟩
  · rintro ⟨c, hc, rfl, rfl⟩
    obtain ⟨j, hj⟩ := Array.mem_iff_getElem?.mp hc
    obtain ⟨k, hk⟩ := h.exists_lookup hj
    rw [hk]
    rfl

/-- A younger binding changes nothing for the older ones. -/
theorem redeclares_declareIn_iff (d : Declaration) (scope : Nat) {b : Binding}
    (hb : b.id ≤ s.bindings.size) : (s.declareIn d scope).Redeclares b ↔ s.Redeclares b := by
  constructor
  · rintro ⟨c, hc, hlt, hrest⟩
    simp only [declareIn, Array.mem_push] at hc
    rcases hc with hc | rfl
    · exact ⟨c, hc, hlt, hrest⟩
    · simp only at hlt
      omega
  · rintro ⟨c, hc, hrest⟩
    exact ⟨c, Array.mem_push_of_mem _ hc, hrest⟩

/-- The next binding has an older one of its name exactly if the table of its scope has the name. -/
theorem Consistent.redeclares_next_iff (h : s.Consistent) {b : Binding}
    (hb : b.id = s.bindings.size) :
    s.Redeclares b ↔ (s.lookup b.name b.scope).isSome = true := by
  rw [h.isSome_lookup_iff]
  constructor
  · rintro ⟨c, hc, -, hscope, hname⟩
    exact ⟨c, hc, hscope, hname⟩
  · rintro ⟨c, hc, hscope, hname⟩
    obtain ⟨k, hk⟩ := Array.mem_iff_getElem?.mp hc
    refine ⟨c, hc, ?_, hscope, hname⟩
    rw [hb, h.binding_id hk]
    exact lt_of_getElem? hk

end Tables

end Store

namespace Tree

/-- What a binding records of its uses. -/
structure Tallied (t : Tree) (b : Binding) : Prop where
  numbers : ∀ i ∈ b.uses, i < t.uses.size
  uses : t.usesOf b = t.uses.toList.filter fun u => u.binding = some b.id
  reassigned : b.reassigned = true ↔ (∃ u ∈ t.usesOf b, u.access.writes = true) ∨
    b.init.isSome = true ∧ t.store.Redeclares b

/-- The tables are right, and every binding records its uses. -/
structure Accounted (t : Tree) : Prop where
  consistent : t.store.Consistent
  bound : ∀ u ∈ t.uses, ∀ k, u.binding = some k → k < t.store.bindings.size
  tallied : ∀ b ∈ t.store.bindings, t.Tallied b

/-! ### One event -/

section Step

variable {src : Source} {t : Tree} {b : Binding} {u : Use} {store : Store}

/-- A later use is none of those that a binding has recorded. -/
theorem usesOf_push (h : ∀ i ∈ b.uses, i < t.uses.size) :
    usesOf { t with store, uses := t.uses.push u } b = t.usesOf b := by
  refine List.filterMap_congr fun i hi => ?_
  have hlt := h i (Array.mem_toList_iff.mp hi)
  show (t.uses.push u)[i]? = t.uses[i]?
  rw [Array.getElem?_push, if_neg (by omega)]

/-- A binding without uses, which no use means. -/
theorem tallied_of_no_uses (hnone : b.uses = #[]) (hbound : ∀ u ∈ t.uses, u.binding ≠ some b.id)
    (hre : b.reassigned = true ↔ b.init.isSome = true ∧ t.store.Redeclares b) : t.Tallied b := by
  have husesOf : t.usesOf b = [] := by
    unfold usesOf
    rw [hnone]
    rfl
  refine ⟨fun i hi => by simp [hnone] at hi, ?_, ?_⟩
  · rw [husesOf, eq_comm, List.filter_eq_nil_iff]
    exact fun u hu hbinding =>
      hbound u (Array.mem_toList_iff.mp hu) (of_decide_eq_true hbinding)
  · rw [husesOf, hre]
    simp

/-- Nothing that matters to the records changes. -/
theorem Accounted.of_same (h : t.Accounted) {t' : Tree} (hs : t'.store.Consistent)
    (hb : t'.store.bindings = t.store.bindings) (hu : t'.uses = t.uses) : t'.Accounted := by
  refine ⟨hs, by rw [hu, hb]; exact h.bound, fun b hmem => ?_⟩
  rw [hb] at hmem
  obtain ⟨hnumbers, huses, hre⟩ := h.tallied b hmem
  have husesOf : t'.usesOf b = t.usesOf b := by
    unfold usesOf
    rw [hu]
  have hredeclares := (Store.Alike.of_bindings_eq hb).redeclares_iff b
  exact ⟨by rw [hu]; exact hnumbers, by rw [husesOf, hu]; exact huses,
    by rw [husesOf, hredeclares]; exact hre⟩

theorem Accounted.declare (h : t.Accounted) (d : Declaration) {x : Nat}
    (hx : x < t.store.scopes.size) :
    Accounted { t with store := t.store.declareIn d x } := by
  refine ⟨h.consistent.declareIn d hx, fun u hu k hk => ?_, fun b hb => ?_⟩
  · have hlt := h.bound u hu k hk
    simp only [Store.declareIn, Array.size_push]
    omega
  · simp only [Store.declareIn, Array.mem_push] at hb
    rcases hb with hb | rfl
    · obtain ⟨k, hk⟩ := Array.mem_iff_getElem?.mp hb
      have hid := h.consistent.binding_id hk
      have hlt := Store.lt_of_getElem? hk
      obtain ⟨hnumbers, huses, hre⟩ := h.tallied b hb
      refine ⟨hnumbers, huses, ?_⟩
      rw [Store.redeclares_declareIn_iff d x (by omega)]
      exact hre
    · -- the flag is set if the table has the name
      refine tallied_of_no_uses rfl (fun u hu hbinding => ?_) ?_
      · exact Nat.lt_irrefl _ (h.bound u hu _ hbinding)
      · rw [Store.redeclares_declareIn_iff d x (Nat.le_refl _),
          h.consistent.redeclares_next_iff rfl, Bool.and_eq_true, and_comm]

/-- A binding that a use does not mean records nothing of it. -/
theorem Tallied.pass (h : t.Tallied b) (hu : u.binding ≠ some b.id)
    (hs : store.Redeclares b ↔ t.store.Redeclares b) :
    Tallied { t with store, uses := t.uses.push u } b := by
  have husesOf : usesOf { t with store, uses := t.uses.push u } b = t.usesOf b :=
    usesOf_push h.numbers
  refine ⟨fun i hi => ?_, ?_, ?_⟩
  · have hlt := h.numbers i hi
    simp only [Array.size_push]
    omega
  · rw [husesOf, h.uses, Array.toList_push, List.filter_append]
    simp [hu]
  · rw [husesOf, hs]
    exact h.reassigned

/-- The binding that a use means records it last. -/
theorem Tallied.note (h : t.Tallied b) (hu : u.binding = some b.id)
    (hs : store.Redeclares b ↔ t.store.Redeclares b) :
    Tallied { t with store, uses := t.uses.push u } (b.noted t.uses.size u.access.writes) := by
  have hold : usesOf { t with store, uses := t.uses.push u } b = t.usesOf b :=
    usesOf_push h.numbers
  have husesOf : usesOf { t with store, uses := t.uses.push u }
      (b.noted t.uses.size u.access.writes) = t.usesOf b ++ [u] := by
    unfold usesOf Binding.noted at *
    rw [Array.toList_push, List.filterMap_append, hold]
    simp
  refine ⟨fun i hi => ?_, ?_, ?_⟩
  · simp only [Binding.noted, Array.mem_push] at hi
    simp only [Array.size_push]
    rcases hi with hi | rfl
    · have hlt := h.numbers i hi
      omega
    · omega
  · have hnew : [u].filter (fun v => v.binding = some b.id) = [u] := by simp [hu]
    rw [husesOf, h.uses, Array.toList_push, List.filter_append]
    exact congrArg (t.uses.toList.filter (fun v => v.binding = some b.id) ++ ·) hnew.symm
  · have hnoted : store.Redeclares (b.noted t.uses.size u.access.writes) ↔
        t.store.Redeclares b := hs
    rw [husesOf, hnoted]
    simp only [Binding.noted, Bool.or_eq_true, h.reassigned, List.mem_append, List.mem_singleton,
      or_and_right, exists_or, exists_eq_left]
    exact or_right_comm

theorem Accounted.use (h : t.Accounted) (src : Source) (x : Nat) (c : Cursor) (a : Access) :
    Accounted { t with uses := t.uses.push (t.useIn src x c a),
                       store := t.storeAfterUse src x c a } := by
  have hvalid := h.consistent.toValid
  have hbound : ∀ k, (t.useIn src x c a).binding = some k → k < t.store.bindings.size := by
    intro k hk
    obtain ⟨b, hb, -⟩ := Store.exists_of_resolveFrom hvalid hk
    exact Store.lt_of_getElem? hb
  unfold storeAfterUse
  cases hk : (t.useIn src x c a).binding with
  | none =>
    refine ⟨h.consistent, fun u hu k hk' => ?_, fun b hb => ?_⟩
    · simp only [Array.mem_push] at hu
      rcases hu with hu | rfl
      · exact h.bound u hu k hk'
      · exact hbound k hk'
    · exact (h.tallied b hb).pass (by rw [hk]; exact (Option.some_ne_none _).symm) Iff.rfl
  | some k =>
    refine ⟨h.consistent.noteUse _ _ _, fun u hu j hj => ?_, fun b hb => ?_⟩
    · have hsize : (t.store.noteUse k t.uses.size a.writes).bindings.size =
          t.store.bindings.size := by simp [Store.noteUse]
      simp only [Array.mem_push] at hu
      show j < (t.store.noteUse k t.uses.size a.writes).bindings.size
      rw [hsize]
      rcases hu with hu | rfl
      · exact h.bound u hu j hj
      · exact hbound j hj
    · obtain ⟨j, hj⟩ := Array.mem_iff_getElem?.mp hb
      have hredeclares := (Store.Alike.noteUse t.store k t.uses.size a.writes).redeclares_iff
      simp only [Option.elim_some, Store.noteUse, Array.getElem?_modify] at hj
      split at hj
      · next hjk =>
        obtain ⟨b', hb', rfl⟩ := Option.map_eq_some_iff.mp hj
        have hid := hvalid.binding_id hb'
        have htallied := h.tallied b' (Array.mem_of_getElem? hb')
        exact htallied.note (by rw [hk, hid, hjk]) (hredeclares b')
      · next hjk =>
        have hid := hvalid.binding_id hj
        refine (h.tallied b (Array.mem_of_getElem? hj)).pass ?_ (hredeclares b)
        rw [hk, hid]
        exact fun heq => hjk (Option.some.inj heq)

theorem Accounted.step (src : Source) (h : t.Accounted) (e : Event) :
    (t.step src e).Accounted := by
  rcases step_cases src t e with ⟨kind, n, -, heq⟩ | heq | ⟨x, hx, hcase⟩
  · rw [heq]
    exact h.of_same (h.consistent.enter kind n) rfl rfl
  · rw [heq]
    exact h
  · rcases hcase with ⟨-, heq⟩ | ⟨d, -, heq⟩ | ⟨c, a, -, heq⟩ | ⟨n, -, heq⟩
    · rw [heq]
      exact h.of_same (h.consistent.close x) rfl rfl
    · rw [heq]
      exact h.declare d (h.consistent.current_lt hx)
    · rw [heq]
      exact h.use src x c a
    · rw [heq]
      exact h.of_same h.consistent rfl rfl

end Step

/-! ### Runs -/

theorem accounted_empty : Accounted {} :=
  ⟨Store.consistent_empty, fun u hu => by simp at hu, fun b hb => by simp at hb⟩

theorem Accounted.foldl (src : Source) {t : Tree} (h : t.Accounted) (es : List Event) :
    (es.foldl (Tree.step src) t).Accounted := by
  induction es generalizing t with
  | nil => exact h
  | cons e es ih => exact ih (h.step src e)

/-- **Every binding of a program records its uses.** -/
theorem accounted_ofProgram (src : Source) (root : Node) : (ofProgram src root).Accounted :=
  accounted_empty.foldl src _

end Tree
end HookLint.Scope
