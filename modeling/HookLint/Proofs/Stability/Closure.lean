import HookLint.Proofs.Data.Assoc
import HookLint.Stability.Label
import Mathlib.Logic.Relation

/-!
# Proofs.Stability.Closure — depth-first labels are a least fixed point

`Grounded ev` is the least set of bindings that holds every binding settled as static, and every
binding all of whose conditions it holds.  `labelIn` answers `static` exactly for its members.

The search cuts a cycle by calling a binding dynamic that is being answered, and it keeps the labels
found under such a cut.  That is right because conditions are only ever joined by "and":

* whatever is asked below an open binding `v` is a condition of `v`, directly or through others
  (`Awaited`);
* a grounded binding is no condition of itself (`Grounded.not_cyclic`);
* so a cut binding is not grounded, and neither is anything on the cycle.
-/

namespace HookLint.Stability

open Relation

section Closure

variable (ev : Nat → Evidence)

/-- The least set closed under the evidence. -/
inductive Grounded : Nat → Prop
  | settled {id : Nat} : ev id = .settled .static → Grounded id
  | allOf {id : Nat} {ids : List Nat} : ev id = .allOf ids → (∀ j ∈ ids, Grounded j) → Grounded id

/-- `j` is one of the conditions of `i`. -/
def Condition (i j : Nat) : Prop := ∃ ids, ev i = .allOf ids ∧ j ∈ ids

/-- Every label of the cache tells whether its binding is grounded. -/
def Agrees (cache : Cache) : Prop :=
  ∀ id label, Assoc.get? cache id = some label → (label = .static ↔ Grounded ev id)

/-- Every binding that is being answered, if it is grounded at all, waits for `id`. -/
def Awaited (unvisited : List Nat) (id : Nat) : Prop :=
  ∀ v, v ∉ unvisited → Grounded ev v → TransGen (Condition ev) v id

variable {ev} {unvisited : List Nat} {cache : Cache} {id : Nat}

/-! ### Grounded bindings -/

theorem Grounded.condition {i j : Nat} (h : Grounded ev i) (hc : Condition ev i j) :
    Grounded ev j := by
  obtain ⟨ids, he, hj⟩ := hc
  cases h with
  | settled hs => rw [he] at hs; cases hs
  | allOf ha hall =>
    rw [he] at ha
    obtain rfl := Evidence.allOf.inj ha
    exact hall j hj

/-- No grounded binding is a condition of itself, directly or through others. -/
theorem Grounded.not_cyclic {i : Nat} (h : Grounded ev i) : ¬ TransGen (Condition ev) i i := by
  induction h with
  | settled hs =>
    intro hc
    obtain ⟨j, ⟨ids, he, -⟩, -⟩ := TransGen.head'_iff.mp hc
    rw [he] at hs
    cases hs
  | @allOf i ids ha _ ih =>
    intro hc
    obtain ⟨j, ⟨ids', he, hj⟩, hji⟩ := TransGen.head'_iff.mp hc
    rw [ha] at he
    obtain rfl := Evidence.allOf.inj he
    -- the cycle through `i` is a cycle through its condition `j`
    exact ih j hj (TransGen.tail' hji ⟨ids, ha, hj⟩)

theorem grounded_iff_of_settled {label : Label} (h : ev id = .settled label) :
    Grounded ev id ↔ label = .static := by
  constructor
  · intro hg
    cases hg with
    | settled hs => rw [h] at hs; exact Evidence.settled.inj hs
    | allOf ha _ => rw [h] at ha; cases ha
  · rintro rfl
    exact .settled h

theorem grounded_iff_of_allOf {ids : List Nat} (h : ev id = .allOf ids) :
    Grounded ev id ↔ ∀ j ∈ ids, Grounded ev j :=
  ⟨fun hg _ hj => hg.condition ⟨ids, h, hj⟩, .allOf h⟩

/-! ### Caches -/

theorem Agrees.nil : Agrees ev [] := fun _ _ h => nomatch h

theorem Agrees.put (hc : Agrees ev cache) {label : Label} (h : label = .static ↔ Grounded ev id) :
    Agrees ev (Assoc.put cache id label) := by
  intro k l hk
  rw [Assoc.get?_put] at hk
  split at hk
  · next he =>
    subst he
    obtain rfl := Option.some.inj hk
    exact h
  · exact hc k l hk

theorem isSome_get?_put {k : Nat} {label : Label} (h : (Assoc.get? cache k).isSome) :
    (Assoc.get? (Assoc.put cache id label) k).isSome := by
  rw [Assoc.get?_put]
  split
  · rfl
  · exact h

/-- A label that is there in two right caches is the same in both. -/
theorem Agrees.get?_eq {cache' : Cache} (hc : Agrees ev cache) (hc' : Agrees ev cache') {k : Nat}
    {label : Label} (h : Assoc.get? cache k = some label) (h' : (Assoc.get? cache' k).isSome) :
    Assoc.get? cache' k = some label := by
  obtain ⟨label', hl⟩ := Option.isSome_iff_exists.mp h'
  have hiff : label = .static ↔ label' = .static := (hc k label h).trans (hc' k label' hl).symm
  rw [hl]
  cases label <;> cases label' <;> simp_all

/-! ### The search -/

/-- What a search is to find: the label, a right cache, and every label that was there. -/
structure Found (ev : Nat → Evidence) (cache : Cache) (P : Prop) (r : Label × Cache) : Prop where
  label_iff : r.1 = .static ↔ P
  agrees : Agrees ev r.2
  keeps : ∀ k, (Assoc.get? cache k).isSome → (Assoc.get? r.2 k).isSome

theorem Awaited.erase (h : Awaited ev unvisited id) {j : Nat} (hj : Condition ev id j) :
    Awaited ev (unvisited.erase id) j := by
  intro v hv hg
  by_cases he : v = id
  · subst he
    exact .single hj
  · have hv' : v ∉ unvisited := fun hm => hv ((List.mem_erase_of_ne he).mpr hm)
    exact (h v hv' hg).tail hj

/-- A list is asked in turn: if every member is answered rightly, so is the list. -/
theorem labelAll_found
    (hin : ∀ cache id, Agrees ev cache → Awaited ev unvisited id →
      Found ev cache (Grounded ev id) (labelIn ev unvisited cache id))
    (ids : List Nat) (cache : Cache) (hc : Agrees ev cache)
    (hw : ∀ j ∈ ids, Awaited ev unvisited j) :
    Found ev cache (∀ j ∈ ids, Grounded ev j) (labelAll ev unvisited cache ids) := by
  induction ids generalizing cache with
  | nil =>
    rw [labelAll]
    exact ⟨by simp, hc, fun _ h => h⟩
  | cons id ids ih =>
    obtain ⟨hlabel, hagrees, hkeeps⟩ := hin cache id hc (hw id List.mem_cons_self)
    rw [labelAll]
    split
    · next cache' heq =>
      rw [heq] at hlabel hagrees hkeeps
      have htail := ih cache' hagrees fun j hj => hw j (List.mem_cons_of_mem _ hj)
      refine ⟨?_, htail.agrees, fun k hk => htail.keeps k (hkeeps k hk)⟩
      rw [htail.label_iff, List.forall_mem_cons]
      exact ⟨fun h => ⟨hlabel.mp rfl, h⟩, fun h => h.2⟩
    · next cache' heq =>
      rw [heq] at hlabel hagrees hkeeps
      refine ⟨⟨fun h => (by cases h), fun h => ?_⟩, hagrees, hkeeps⟩
      exact hlabel.mpr (h id List.mem_cons_self)

/-- **The search is right** from any right cache, below any bindings that wait for its answer. -/
theorem labelIn_found (unvisited : List Nat) (cache : Cache) (id : Nat) (hc : Agrees ev cache)
    (hw : Awaited ev unvisited id) :
    Found ev cache (Grounded ev id) (labelIn ev unvisited cache id) := by
  rw [labelIn]
  split
  · next label hl => exact ⟨hc id label hl, hc, fun _ h => h⟩
  · split
    · next hmem =>
      split
      · next label he =>
        have hiff := (grounded_iff_of_settled he).symm
        exact ⟨hiff, hc.put hiff, fun _ h => isSome_get?_put h⟩
      · next ids he =>
        have hshort : (unvisited.erase id).length < unvisited.length := by
          have h1 := List.length_erase_of_mem hmem
          have h2 := List.length_pos_of_mem hmem
          omega
        -- the members are asked while `id` is open, and `id` waits for all of them
        have hall := labelAll_found (fun c j => labelIn_found (unvisited.erase id) c j) ids cache hc
          (fun j hj => hw.erase ⟨ids, he, hj⟩)
        have hiff := hall.label_iff.trans (grounded_iff_of_allOf he).symm
        exact ⟨hiff, hall.agrees.put hiff, fun k hk => isSome_get?_put (hall.keeps k hk)⟩
    · next hmem =>
      -- `id` is open: if it were grounded, it would wait for itself
      refine ⟨⟨fun h => (by cases h), fun hg => ?_⟩, hc, fun _ h => h⟩
      exact absurd (hw id hmem hg) hg.not_cyclic
termination_by unvisited.length

/-- An open binding is in the cache once it is answered. -/
theorem get?_labelIn (h : id ∈ unvisited) :
    Assoc.get? (labelIn ev unvisited cache id).2 id = some (labelIn ev unvisited cache id).1 := by
  rw [labelIn]
  split
  · next label hl => exact hl
  · rw [if_pos h]
    split <;> exact Assoc.get?_put_self _ _ _

end Closure

end HookLint.Stability
