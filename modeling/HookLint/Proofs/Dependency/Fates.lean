import HookLint.Dependency.Diff
import Mathlib.Data.List.Basic
import Mathlib.Data.List.Nodup

/-!
# Proofs.Dependency.Fates — what becomes of the elements of an array

Each declared element has one fate, which its key, the keys before it and what is needed decide
(`fate_of_split`).  The comparison deals the elements out by their fates (`diff_eq`).

Keys decide: two elements with one key cover the same paths and are admitted together.  Of the
elements with one key the first is kept or unnecessary, and the others are duplicates.  So the kept
elements have different keys (`nodup_keys_kept`), each is complex or admitted (`mem_kept`), and each
admitted key is among theirs (`exists_kept_of_admits`).  Conversely, a list with different keys, all
admitted, is kept as it is (`fates_eq_kept`).
-/

namespace HookLint.Dependency

/-- What becomes of a declared element. -/
inductive Fate where
  | kept | duplicate | unnecessary
deriving DecidableEq, Repr

/-- The fate of an element, given the keys of the elements before it. -/
def fate (needs : Needs) (seen : List Key) (d : Declared) : Fate :=
  match d.key? with
  | none => .kept
  | some k =>
    if seen.contains k then .duplicate
    else if needs.admits d then .kept
    else .unnecessary

/-- The elements with their fates, in their order. -/
def fates (needs : Needs) : List Key → List Declared → List (Declared × Fate)
  | _, [] => []
  | seen, d :: ds => (d, fate needs seen d) :: fates needs (seen ++ d.key?.toList) ds

/-- The elements with the given fate. -/
def withFate (f : Fate) (es : List (Declared × Fate)) : List Declared :=
  (es.filter fun e => e.2 = f).map Prod.fst

section Keys

variable {d e : Declared} {k : Key} {r : Path} {needs : Needs}

/-- The key of an element that names a path. -/
theorem covers_iff : d.covers r = true ↔
    ∃ path, d.key? = some (.binding r.binding.id path) ∧ path <+: r.path := by
  unfold Declared.covers Declared.path? Declared.key?
  cases d.target with
  | binding p =>
    simp only [Option.any_some, Path.covers, Bool.and_eq_true, decide_eq_true_eq,
      List.isPrefixOf_iff_prefix, Option.some.injEq, Key.binding.injEq]
    exact ⟨fun ⟨h1, h2⟩ => ⟨p.path, ⟨h1, rfl⟩, h2⟩, fun ⟨_, ⟨h1, h2⟩, h3⟩ => ⟨h1, h2 ▸ h3⟩⟩
  | global name path => simp
  | complex => simp

theorem covers_of_key_eq (h : d.key? = e.key?) : d.covers r = e.covers r := by
  rw [Bool.eq_iff_iff, covers_iff, covers_iff, h]

theorem admits_iff : needs.admits d = true ↔ (∃ r ∈ needs.required, d.covers r = true) ∨
    ∃ id path, d.key? = some (.binding id path) ∧ id ∈ needs.tolerated := by
  unfold Needs.admits
  rw [Bool.or_eq_true, List.any_eq_true]
  refine or_congr Iff.rfl ?_
  unfold Declared.path? Declared.key?
  cases d.target with
  | binding p =>
    simp only [Option.any_some, List.contains_iff_mem, Option.some.injEq, Key.binding.injEq]
    exact ⟨fun h => ⟨_, _, ⟨rfl, rfl⟩, h⟩, fun ⟨_, _, ⟨h1, _⟩, h3⟩ => h1 ▸ h3⟩
  | global name path => simp
  | complex => simp

theorem admits_of_key_eq (h : d.key? = e.key?) : needs.admits d = needs.admits e := by
  rw [Bool.eq_iff_iff, admits_iff, admits_iff, h]
  simp only [covers_of_key_eq h]

theorem isComplex_iff : d.isComplex = true ↔ d.key? = none := by
  unfold Declared.isComplex Declared.key?
  cases d.target <;> simp

end Keys

section Fates

variable (needs : Needs)

/-- The kept elements, given the keys of the elements before the list. -/
def keptOf (seen : List Key) (ds : List Declared) : List Declared :=
  withFate .kept (fates needs seen ds)

variable {needs} {seen : List Key} {d : Declared} {ds : List Declared} {k : Key}

theorem withFate_map (f g : Fate) (ds : List Declared) :
    withFate f (ds.map fun d => (d, g)) = if g = f then ds else [] := by
  unfold withFate
  by_cases h : g = f <;> simp [h, List.filter_map, Function.comp_def]

theorem withFate_cons (f g : Fate) (d : Declared) (es : List (Declared × Fate)) :
    withFate f ((d, g) :: es) = if g = f then d :: withFate f es else withFate f es := by
  unfold withFate
  by_cases h : g = f <;> simp [h]

theorem keptOf_cons (d : Declared) (ds : List Declared) :
    keptOf needs seen (d :: ds) =
      if fate needs seen d = .kept then d :: keptOf needs (seen ++ d.key?.toList) ds
      else keptOf needs (seen ++ d.key?.toList) ds := by
  unfold keptOf withFate
  rw [fates]
  by_cases h : fate needs seen d = .kept <;> simp [h]

/-- An element is kept if it is complex, or new and admitted. -/
theorem fate_eq_kept_iff : fate needs seen d = .kept ↔
    ∀ k, d.key? = some k → k ∉ seen ∧ needs.admits d = true := by
  unfold fate
  cases hk : d.key? with
  | none => simp
  | some k =>
    by_cases hs : k ∈ seen
    · simp [hs]
    · by_cases ha : needs.admits d = true <;> simp [hs, ha]

/-- An element is a duplicate if its key came before. -/
theorem fate_eq_duplicate_iff :
    fate needs seen d = .duplicate ↔ ∃ k, d.key? = some k ∧ k ∈ seen := by
  unfold fate
  cases hk : d.key? with
  | none => simp
  | some k =>
    by_cases hs : k ∈ seen
    · simp [hs]
    · by_cases ha : needs.admits d = true <;> simp [hs, ha]

/-- An element is unnecessary if its key is new and not admitted. -/
theorem fate_eq_unnecessary_iff : fate needs seen d = .unnecessary ↔
    (∃ k, d.key? = some k ∧ k ∉ seen) ∧ needs.admits d = false := by
  unfold fate
  cases hk : d.key? with
  | none => simp
  | some k =>
    by_cases hs : k ∈ seen
    · simp [hs]
    · by_cases ha : needs.admits d = true <;> simp [hs, ha]

theorem map_fst_fates (needs : Needs) (seen : List Key) (ds : List Declared) :
    (fates needs seen ds).map Prod.fst = ds := by
  induction ds generalizing seen with
  | nil => rfl
  | cons d ds ih => rw [fates, List.map_cons, ih]

/-- The fate of an element is decided by the keys of the elements that stand before it. -/
theorem fate_of_split {f : Fate} {before after : List (Declared × Fate)}
    (h : fates needs seen ds = before ++ (d, f) :: after) :
    f = fate needs (seen ++ (before.map Prod.fst).filterMap Declared.key?) d := by
  induction before generalizing seen ds with
  | nil =>
    cases ds with
    | nil => cases h
    | cons e ds =>
      rw [fates, List.nil_append, List.cons.injEq, Prod.mk.injEq] at h
      obtain ⟨⟨rfl, rfl⟩, -⟩ := h
      simp
  | cons b before ih =>
    cases ds with
    | nil => cases h
    | cons e ds =>
      rw [fates, List.cons_append, List.cons.injEq] at h
      obtain ⟨rfl, h⟩ := h
      have hf := ih h
      have hkeys : ((e, fate needs seen e) :: before).map Prod.fst = e :: before.map Prod.fst := rfl
      rw [hf, hkeys]
      cases hk : e.key? with
      | none => simp [hk]
      | some k => simp [hk]

theorem mem_withFate_iff {f : Fate} {es : List (Declared × Fate)} :
    d ∈ withFate f es ↔ (d, f) ∈ es := by
  unfold withFate
  constructor
  · intro h
    obtain ⟨⟨e, g⟩, he, rfl⟩ := List.mem_map.mp h
    obtain ⟨hmem, hg⟩ := List.mem_filter.mp he
    obtain rfl : g = f := of_decide_eq_true hg
    exact hmem
  · intro h
    exact List.mem_map.mpr ⟨(d, f), List.mem_filter.mpr ⟨h, decide_eq_true rfl⟩, rfl⟩

theorem mem_kept (h : d ∈ keptOf needs seen ds) :
    d ∈ ds ∧ ∀ k, d.key? = some k → k ∉ seen ∧ needs.admits d = true := by
  induction ds generalizing seen with
  | nil => simp [keptOf, fates, withFate] at h
  | cons e ds ih =>
    have hrest : d ∈ keptOf needs (seen ++ e.key?.toList) ds →
        d ∈ e :: ds ∧ ∀ k, d.key? = some k → k ∉ seen ∧ needs.admits d = true := by
      intro h'
      obtain ⟨h1, h2⟩ := ih h'
      refine ⟨List.mem_cons_of_mem _ h1, fun k hk => ?_⟩
      obtain ⟨h3, h4⟩ := h2 k hk
      exact ⟨fun hs => h3 (List.mem_append_left _ hs), h4⟩
    rw [keptOf_cons] at h
    split at h
    · next hf =>
      rcases List.mem_cons.mp h with rfl | h
      · exact ⟨List.mem_cons_self, fate_eq_kept_iff.mp hf⟩
      · exact hrest h
    · exact hrest h

theorem nodup_keys_kept (needs : Needs) (seen : List Key) (ds : List Declared) :
    ((keptOf needs seen ds).filterMap Declared.key?).Nodup := by
  induction ds generalizing seen with
  | nil => exact List.nodup_nil
  | cons e ds ih =>
    rw [keptOf_cons]
    split
    · cases hk : e.key? with
      | none =>
        rw [List.filterMap_cons_none hk]
        exact ih _
      | some k =>
        rw [List.filterMap_cons_some hk, List.nodup_cons]
        refine ⟨fun hmem => ?_, ih _⟩
        -- later elements are compared with the key of this one
        obtain ⟨d, hd, hdk⟩ := List.mem_filterMap.mp hmem
        exact ((mem_kept hd).2 k hdk).1 (by simp)
    · exact ih _

/-- The key of an admitted element was seen before the list, or is that of a kept element. -/
theorem exists_kept_of_admits (seen : List Key) (hd : d ∈ ds) (hk : d.key? = some k)
    (ha : needs.admits d = true) :
    k ∈ seen ∨ ∃ e ∈ keptOf needs seen ds, e.key? = some k := by
  induction ds generalizing seen with
  | nil => simp at hd
  | cons e ds ih =>
    have hsub : ∀ x ∈ keptOf needs (seen ++ e.key?.toList) ds, x ∈ keptOf needs seen (e :: ds) := by
      intro x hx
      rw [keptOf_cons]
      split
      · exact List.mem_cons_of_mem _ hx
      · exact hx
    by_cases hs : k ∈ seen
    · exact Or.inl hs
    by_cases he : e.key? = some k
    · -- the first element with the key
      have hkept : fate needs seen e = .kept := by
        refine fate_eq_kept_iff.mpr fun k' hk' => ?_
        obtain rfl := Option.some.inj (hk'.symm.trans he)
        exact ⟨hs, by rw [admits_of_key_eq (he.trans hk.symm), ha]⟩
      refine Or.inr ⟨e, ?_, he⟩
      rw [keptOf_cons, if_pos hkept]
      exact List.mem_cons_self
    · have hd' : d ∈ ds := by
        rcases List.mem_cons.mp hd with rfl | h
        · exact absurd hk he
        · exact h
      rcases ih (seen ++ e.key?.toList) hd' with h | ⟨x, hx, hxk⟩
      · rcases List.mem_append.mp h with h | h
        · exact Or.inl h
        · exact absurd (Option.mem_toList.mp h) he
      · exact Or.inr ⟨x, hsub x hx, hxk⟩

/-- The complex elements are those of the kept ones. -/
theorem filter_keptOf (needs : Needs) (seen : List Key) (ds : List Declared) :
    (keptOf needs seen ds).filter Declared.isComplex = ds.filter Declared.isComplex := by
  induction ds generalizing seen with
  | nil => rfl
  | cons d ds ih =>
    rw [keptOf_cons]
    by_cases hd : d.isComplex = true
    · have hf : fate needs seen d = .kept := by
        refine fate_eq_kept_iff.mpr fun k hk => ?_
        rw [isComplex_iff.mp hd] at hk
        cases hk
      rw [if_pos hf, List.filter_cons_of_pos hd, List.filter_cons_of_pos hd, ih]
    · rw [List.filter_cons_of_neg hd]
      split
      · rw [List.filter_cons_of_neg hd, ih]
      · exact ih _

/-- A list with different keys, all of them new and admitted, is kept as it is. -/
theorem fates_eq_kept (hn : (ds.filterMap Declared.key?).Nodup)
    (hs : ∀ k ∈ ds.filterMap Declared.key?, k ∉ seen)
    (ha : ∀ d ∈ ds, d.key? ≠ none → needs.admits d = true) :
    fates needs seen ds = ds.map fun d => (d, .kept) := by
  induction ds generalizing seen with
  | nil => rfl
  | cons d ds ih =>
    have hkept : fate needs seen d = .kept := by
      refine fate_eq_kept_iff.mpr fun k hk => ?_
      have hmem : k ∈ (d :: ds).filterMap Declared.key? :=
        List.mem_filterMap.mpr ⟨d, List.mem_cons_self, hk⟩
      exact ⟨hs k hmem, ha d List.mem_cons_self (by simp [hk])⟩
    have hrest : fates needs (seen ++ d.key?.toList) ds = ds.map fun d => (d, .kept) := by
      refine ih ?_ (fun k hk hin => ?_) (fun e he => ha e (List.mem_cons_of_mem _ he))
      · cases hk : d.key? with
        | none => rwa [List.filterMap_cons_none hk] at hn
        | some k =>
          rw [List.filterMap_cons_some hk] at hn
          exact (List.nodup_cons.mp hn).2
      · rcases List.mem_append.mp hin with h | h
        · obtain ⟨e, he, hek⟩ := List.mem_filterMap.mp hk
          exact hs k (List.mem_filterMap.mpr ⟨e, List.mem_cons_of_mem _ he, hek⟩) h
        · have hdk : d.key? = some k := Option.mem_toList.mp h
          rw [List.filterMap_cons_some hdk] at hn
          exact (List.nodup_cons.mp hn).1 hk
    rw [fates, hkept, hrest]
    rfl

/-! ### The comparison deals the elements out by their fates -/

/-- What a deal has given out, when these elements follow what it had. -/
structure DealtBy (needs : Needs) (seen : List Key) (ds : List Declared) (s s' : Dealt) :
    Prop where
  kept : s'.kept = s.kept ++ withFate .kept (fates needs seen ds)
  unnecessary : s'.unnecessary = s.unnecessary ++ withFate .unnecessary (fates needs seen ds)
  duplicates : s'.duplicates = s.duplicates ++ withFate .duplicate (fates needs seen ds)
  complex : s'.complex = s.complex ++ ds.filter Declared.isComplex

/-- One element goes where its fate says, and its key counts as met. -/
theorem deal_dealtBy {s : Dealt} (hs : ∀ k, k ∈ s.seen ↔ k ∈ seen) (d : Declared) :
    DealtBy needs seen [d] s (needs.deal s d) ∧
      ∀ k, k ∈ (needs.deal s d).seen ↔ k ∈ seen ++ d.key?.toList := by
  unfold Needs.deal
  cases hk : d.key? with
  | none =>
    have hc : d.isComplex = true := isComplex_iff.mpr hk
    have hf : fate needs seen d = .kept := fate_eq_kept_iff.mpr fun k h => by simp [hk] at h
    exact ⟨by constructor <;> simp [fates, withFate, hf, hc], by simpa using hs⟩
  | some k =>
    have hc : d.isComplex = false := by simp [← Bool.not_eq_true, isComplex_iff, hk]
    by_cases hseen : k ∈ seen
    · have hf : fate needs seen d = .duplicate := fate_eq_duplicate_iff.mpr ⟨k, hk, hseen⟩
      simp only [List.contains_iff_mem, hs, hseen, if_true]
      refine ⟨by constructor <;> simp [fates, withFate, hf, hc], fun k' => ?_⟩
      by_cases heq : k' = k <;> simp [heq, hseen]
    · simp only [List.contains_iff_mem, hs, hseen, if_false]
      by_cases hadm : needs.admits d = true
      · have hf : fate needs seen d = .kept :=
          fate_eq_kept_iff.mpr fun k' hk' => by simp_all
        rw [if_pos hadm]
        refine ⟨by constructor <;> simp [fates, withFate, hf, hc], fun k' => ?_⟩
        simp [hs, or_comm]
      · have hf : fate needs seen d = .unnecessary :=
          fate_eq_unnecessary_iff.mpr ⟨⟨k, hk, hseen⟩, by simpa using hadm⟩
        rw [if_neg hadm]
        refine ⟨by constructor <;> simp [fates, withFate, hf, hc], fun k' => ?_⟩
        simp [hs, or_comm]

/-- So the whole list is dealt out by its fates. -/
theorem foldl_dealtBy {s : Dealt} (hs : ∀ k, k ∈ s.seen ↔ k ∈ seen) (ds : List Declared) :
    DealtBy needs seen ds s (ds.foldl needs.deal s) := by
  induction ds generalizing s seen with
  | nil => constructor <;> simp [fates, withFate]
  | cons d ds ih =>
    obtain ⟨hd, hseen⟩ := deal_dealtBy hs d
    have hrest := ih hseen
    rw [List.foldl_cons]
    have hfilter : (d :: ds).filter Declared.isComplex =
        [d].filter Declared.isComplex ++ ds.filter Declared.isComplex := List.filter_append [d] ds
    have hwith : ∀ f, withFate f (fates needs seen (d :: ds)) =
        withFate f (fates needs seen [d]) ++
          withFate f (fates needs (seen ++ d.key?.toList) ds) := by
      intro f
      rw [fates, fates, fates, withFate_cons, withFate_cons]
      split <;> simp [withFate]
    exact
      { kept := by rw [hrest.kept, hd.kept, hwith, List.append_assoc]
        unnecessary := by rw [hrest.unnecessary, hd.unnecessary, hwith, List.append_assoc]
        duplicates := by rw [hrest.duplicates, hd.duplicates, hwith, List.append_assoc]
        complex := by rw [hrest.complex, hd.complex, hfilter, List.append_assoc] }

/-- **The comparison by fates.**  Each element is dealt out by its fate, and the complex ones are
those of the array, in its order. -/
theorem diff_eq (needs : Needs) (declared : List Declared) :
    diff needs declared =
      { required := needs.required
        declared
        kept := keptOf needs [] declared
        missing := needs.required.filter fun r => !declared.any fun d => d.covers r
        unnecessary := withFate .unnecessary (fates needs [] declared)
        duplicates := withFate .duplicate (fates needs [] declared)
        complex := declared.filter Declared.isComplex } := by
  have h : DealtBy needs [] declared {} (declared.foldl needs.deal {}) :=
    foldl_dealtBy (fun k => by simp) declared
  simp only [diff, h.kept, h.unnecessary, h.duplicates, h.complex, List.nil_append, keptOf]

theorem kept_diff (needs : Needs) (declared : List Declared) :
    (diff needs declared).kept = keptOf needs [] declared := by rw [diff_eq]

theorem unnecessary_diff (needs : Needs) (declared : List Declared) :
    (diff needs declared).unnecessary = withFate .unnecessary (fates needs [] declared) := by
  rw [diff_eq]

theorem duplicates_diff (needs : Needs) (declared : List Declared) :
    (diff needs declared).duplicates = withFate .duplicate (fates needs [] declared) := by
  rw [diff_eq]

/-- The complex elements are those of the array, in its order. -/
theorem complex_diff (needs : Needs) (declared : List Declared) :
    (diff needs declared).complex = declared.filter Declared.isComplex := by rw [diff_eq]

end Fates

/-! ### Counting elements -/

section Shares

variable {needs : Needs} {seen : List Key} {ds : List Declared} {w : String}

/-- Each element goes to one list. -/
theorem length_shares (es : List (Declared × Fate)) : es.length =
    (withFate .kept es).length + (withFate .unnecessary es).length +
      (withFate .duplicate es).length := by
  induction es with
  | nil => rfl
  | cons e es ih =>
    obtain ⟨d, f⟩ := e
    rw [withFate_cons, withFate_cons, withFate_cons, List.length_cons, ih]
    cases f <;> simp <;> omega

/-- If all elements are kept, there is nothing to fix but missing paths. -/
theorem needsFix_eq_false_of_length (hmissing : (diff needs ds).missing = [])
    (hlength : (diff needs ds).kept.length = ds.length) : (diff needs ds).needsFix = false := by
  have hshares := length_shares (fates needs [] ds)
  have hall : (fates needs [] ds).length = ds.length := by
    rw [← List.length_map Prod.fst, map_fst_fates]
  rw [kept_diff, keptOf] at hlength
  have hun : (diff needs ds).unnecessary = [] := by
    rw [unnecessary_diff]
    exact List.length_eq_zero_iff.mp (by omega)
  have hdup : (diff needs ds).duplicates = [] := by
    rw [duplicates_diff]
    exact List.length_eq_zero_iff.mp (by omega)
  simp [Diff.needsFix, hmissing, hun, hdup]

/-- If all elements with a text are complex, all of them are kept. -/
theorem count_kept (h : ∀ d ∈ ds, d.source = w → d.key? = none) :
    ((keptOf needs seen ds).map Declared.source).count w = (ds.map Declared.source).count w := by
  induction ds generalizing seen with
  | nil => rfl
  | cons d ds ih =>
    have hrest : ((keptOf needs (seen ++ d.key?.toList) ds).map Declared.source).count w =
        (ds.map Declared.source).count w := ih fun e he => h e (List.mem_cons_of_mem _ he)
    rw [keptOf_cons]
    split
    · rw [List.map_cons, List.map_cons, List.count_cons, List.count_cons, hrest]
    · next hfate =>
      have hne : d.source ≠ w := by
        intro hw
        refine hfate (fate_eq_kept_iff.mpr fun k hk => ?_)
        rw [h d List.mem_cons_self hw] at hk
        cases hk
      rw [hrest, List.map_cons, List.count_cons_of_ne hne]

end Shares

end HookLint.Dependency
