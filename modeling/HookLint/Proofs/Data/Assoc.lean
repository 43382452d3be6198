import HookLint.Data.Assoc

/-!
# Proofs.Data.Assoc — look-up, membership and keys of maps

`put` never repeats a key, so in a map that is built by `put` looking up a key and finding its entry
in the list are the same thing.
-/

namespace HookLint.Assoc

variable {κ ν : Type} [DecidableEq κ] {m : Assoc κ ν} {k j : κ} {v w : ν}

theorem get?_put (m : Assoc κ ν) (k j : κ) (v : ν) :
    get? (put m k v) j = if k = j then some v else get? m j := by
  by_cases h : k = j
  · subst h
    rw [if_pos rfl, get?_put_self]
  · rw [if_neg h, get?_put_of_ne m v h]

theorem mem_keys_iff : k ∈ keys m ↔ (get? m k).isSome := by
  induction m with
  | nil => simp [keys]
  | cons e m ih =>
    obtain ⟨k', v'⟩ := e
    by_cases h : k' = k
    · subst h
      simp [keys, get?_cons]
    · rw [get?_cons, if_neg h, ← ih]
      simp [keys, Ne.symm h]

theorem mem_of_get? (h : get? m k = some v) : (k, v) ∈ m := by
  induction m with
  | nil => simp at h
  | cons e m ih =>
    obtain ⟨k', v'⟩ := e
    rw [get?_cons] at h
    by_cases hk : k' = k
    · rw [if_pos hk] at h
      obtain rfl := Option.some.inj h
      subst hk
      exact List.mem_cons_self
    · rw [if_neg hk] at h
      exact List.mem_cons_of_mem _ (ih h)

/-- In a map without repeated keys, the entries are what look-up finds. -/
theorem get?_eq_some_iff (hm : (keys m).Nodup) : get? m k = some v ↔ (k, v) ∈ m := by
  refine ⟨mem_of_get?, fun h => ?_⟩
  induction m with
  | nil => simp at h
  | cons e m ih =>
    obtain ⟨k', v'⟩ := e
    have hm' : k' ∉ keys m ∧ (keys m).Nodup := List.nodup_cons.mp hm
    rw [get?_cons]
    rcases List.mem_cons.mp h with he | he
    · obtain ⟨rfl, rfl⟩ := Prod.mk.inj he
      rw [if_pos rfl]
    · have hne : k' ≠ k := by
        rintro rfl
        exact hm'.1 (List.mem_map.mpr ⟨_, he, rfl⟩)
      rw [if_neg hne]
      exact ih hm'.2 he

theorem nodup_keys_put (hm : (keys m).Nodup) (k : κ) (v : ν) : (keys (put m k v)).Nodup := by
  by_cases h : k ∈ keys m
  · rw [keys_put_of_mem m v h]
    exact hm
  · rw [keys_put_of_notMem m v h]
    refine List.nodup_append.mpr ⟨hm, by simp, ?_⟩
    rintro a ha b hb rfl
    rw [List.mem_singleton.mp hb] at ha
    exact h ha

/-- An entry of a map after `put` is the new one or an old one. -/
theorem mem_put (h : (j, w) ∈ put m k v) : (j = k ∧ w = v) ∨ (j, w) ∈ m := by
  induction m with
  | nil =>
    obtain ⟨rfl, rfl⟩ := Prod.mk.inj (List.mem_singleton.mp h)
    exact Or.inl ⟨rfl, rfl⟩
  | cons e m ih =>
    obtain ⟨k', v'⟩ := e
    unfold put at h
    split at h
    · rcases List.mem_cons.mp h with he | he
      · obtain ⟨rfl, rfl⟩ := Prod.mk.inj he
        exact Or.inl ⟨rfl, rfl⟩
      · exact Or.inr (List.mem_cons_of_mem _ he)
    · rcases List.mem_cons.mp h with he | he
      · exact Or.inr (he ▸ List.mem_cons_self)
      · exact (ih he).imp_right (List.mem_cons_of_mem _)

omit [DecidableEq κ] in
theorem mem_values (h : v ∈ values m) : ∃ k, (k, v) ∈ m := by
  obtain ⟨⟨k, w⟩, he, rfl⟩ := List.mem_map.mp h
  exact ⟨k, he⟩

theorem mem_values_put (h : w ∈ values (put m k v)) : w = v ∨ w ∈ values m := by
  obtain ⟨j, hj⟩ := mem_values h
  rcases mem_put hj with ⟨-, hw⟩ | hw
  · exact Or.inl hw
  · exact Or.inr (List.mem_map.mpr ⟨(j, w), hw, rfl⟩)

/-- A new key comes last. -/
theorem values_put_of_none (h : get? m k = none) : values (put m k v) = values m ++ [v] := by
  induction m with
  | nil => rfl
  | cons e m ih =>
    obtain ⟨k', v'⟩ := e
    rw [get?_cons] at h
    by_cases hk : k' = k
    · rw [if_pos hk] at h
      cases h
    · rw [if_neg hk] at h
      simp only [put, hk, if_false]
      exact congrArg (v' :: ·) (ih h)

/-- Setting a key that is there changes nothing but what the new value changes. -/
theorem map_values_put {β : Type} {f : ν → β} (h : get? m k = some w) (hf : f v = f w) :
    (values (put m k v)).map f = (values m).map f := by
  induction m with
  | nil => cases h
  | cons e m ih =>
    obtain ⟨k', v'⟩ := e
    rw [get?_cons] at h
    by_cases hk : k' = k
    · rw [if_pos hk] at h
      obtain rfl := Option.some.inj h
      simp [put, values, hk, hf]
    · rw [if_neg hk] at h
      simp only [put, hk, if_false]
      exact congrArg (f v' :: ·) (ih h)

omit [DecidableEq κ] in
/-- Keeping entries by their keys keeps the keys. -/
theorem keys_filter (m : Assoc κ ν) (p : κ → Bool) :
    keys (m.filter fun e => p e.1) = (keys m).filter p := by
  unfold keys
  rw [List.filter_map]
  rfl

end HookLint.Assoc
