/-!
# Assoc — finite maps that keep the order of insertion

A map is the list of its entries.  `put` replaces the value of a key where it stands and appends a
new key at the end, so listing a map shows its keys in the order of their first insertion.
Objects of options files, name tables, event data and the sites of a file are all of this kind.
-/

namespace HookLint

/-- A finite map as the list of its entries, oldest key first. -/
abbrev Assoc (κ ν : Type) := List (κ × ν)

namespace Assoc

variable {κ ν : Type} [DecidableEq κ]

/-- The value of the first entry with key `k`. -/
def get? : Assoc κ ν → κ → Option ν
  | [], _ => none
  | (k', v) :: m, k => if k' = k then some v else get? m k

/-- Sets the value of `k`: in place if `k` has one, at the end otherwise. -/
def put : Assoc κ ν → κ → ν → Assoc κ ν
  | [], k, v => [(k, v)]
  | (k', v') :: m, k, v => if k' = k then (k, v) :: m else (k', v') :: put m k v

/-- Removes the entries of `k`. -/
def erase (m : Assoc κ ν) (k : κ) : Assoc κ ν := m.filter fun e => e.1 ≠ k

/-- The keys, oldest first. -/
def keys (m : Assoc κ ν) : List κ := m.map Prod.fst

/-- The values, in the order of their keys. -/
def values (m : Assoc κ ν) : List ν := m.map Prod.snd

/-- Whether `k` has a value. -/
def has (m : Assoc κ ν) (k : κ) : Bool := (get? m k).isSome

/-- The map that a list of entries writes, a later entry over an earlier one. -/
def ofList (entries : List (κ × ν)) : Assoc κ ν := entries.foldl (fun m e => put m e.1 e.2) []

@[simp] theorem get?_nil (k : κ) : get? ([] : Assoc κ ν) k = none := rfl

theorem get?_cons (k' k : κ) (v : ν) (m : Assoc κ ν) :
    get? ((k', v) :: m) k = if k' = k then some v else get? m k := rfl

@[simp] theorem get?_put_self (m : Assoc κ ν) (k : κ) (v : ν) : get? (put m k v) k = some v := by
  induction m with
  | nil => simp [put, get?]
  | cons e m ih =>
    obtain ⟨k', v'⟩ := e
    by_cases h : k' = k
    · simp [put, get?, h]
    · simp [put, get?, h, ih]

theorem get?_put_of_ne (m : Assoc κ ν) {k j : κ} (v : ν) (h : k ≠ j) :
    get? (put m k v) j = get? m j := by
  induction m with
  | nil => simp [put, get?, h]
  | cons e m ih =>
    obtain ⟨k', v'⟩ := e
    by_cases hk : k' = k
    · subst hk; simp [put, get?, h]
    · simp [put, get?, hk, ih]

/-- Setting a key that is there moves nothing. -/
theorem keys_put_of_mem (m : Assoc κ ν) {k : κ} (v : ν) (h : k ∈ keys m) :
    keys (put m k v) = keys m := by
  induction m with
  | nil => simp [keys] at h
  | cons e m ih =>
    obtain ⟨k', v'⟩ := e
    by_cases hk : k' = k
    · subst hk; simp [put, keys]
    · have hm : k ∈ keys m := by
        rcases List.mem_cons.mp (show k ∈ k' :: keys m from h) with rfl | hm
        · exact absurd rfl hk
        · exact hm
      have := ih hm
      simp only [put, hk, if_false, keys, List.map_cons] at this ⊢
      rw [this]

/-- A new key comes last. -/
theorem keys_put_of_notMem (m : Assoc κ ν) {k : κ} (v : ν) (h : k ∉ keys m) :
    keys (put m k v) = keys m ++ [k] := by
  induction m with
  | nil => rfl
  | cons e m ih =>
    obtain ⟨k', v'⟩ := e
    have hne : k' ≠ k := fun hk => h (by subst hk; simp [keys])
    have hm : k ∉ keys m := fun hk => h (List.mem_cons_of_mem k' hk)
    have := ih hm
    simp only [put, hne, if_false, keys, List.map_cons, List.cons_append] at this ⊢
    rw [this]

end Assoc
end HookLint
