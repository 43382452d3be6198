import HookLint.Proofs.Dependency.Comparison
import HookLint.Proofs.Dependency.Fates
import HookLint.Proofs.Dependency.References
import HookLint.Report.Builder

/-!
# Proofs.Dependency.FixedArray — the fix of an array settles its diff

The fix of a site writes the kept elements, then one plain element for each missing path.  Such
an array has nothing missing, nothing unnecessary and no duplicates.

The argument needs that the required paths are about different bindings: an added path can then
neither repeat another one nor a kept element, since a kept element with its key would have covered
it.
-/

namespace HookLint.Dependency

open Syntax Scope Hook Stability Report

/-- The element that writes a path, standing at `node`. -/
def Path.plain (d : Path) (node : Node) : Declared := ⟨node, d.render, .binding d⟩

/-- The elements that a fix writes: those that are kept, then the missing paths.  `place` says where
the new elements stand. -/
def Diff.fixed (d : Diff) (place : Path → Node) : List Declared :=
  d.kept ++ d.missing.map fun r => r.plain (place r)

section Diff

variable {needs : Needs} {declared : List Declared} {place : Path → Node} {r : Path}

@[simp] theorem key?_plain (d : Path) (node : Node) :
    (d.plain node).key? = some (.binding d.binding.id d.path) := rfl

theorem covers_plain_self (d : Path) (node : Node) : (d.plain node).covers d = true :=
  covers_iff.mpr ⟨d.path, rfl, List.prefix_rfl⟩

theorem mem_missing_iff : r ∈ (diff needs declared).missing ↔
    r ∈ needs.required ∧ ∀ d ∈ declared, d.covers r = false := by
  simp [diff]

/-- A required path that is not missing is covered by an element that is kept. -/
theorem exists_kept_covers (hr : r ∈ needs.required) (hd : r ∉ (diff needs declared).missing) :
    ∃ d ∈ (diff needs declared).kept, d.covers r = true := by
  have hcov : ∃ d ∈ declared, d.covers r = true := by
    by_contra hno
    refine hd (mem_missing_iff.mpr ⟨hr, fun d hmem => ?_⟩)
    cases hc : d.covers r with
    | false => rfl
    | true => exact absurd ⟨d, hmem, hc⟩ hno
  obtain ⟨d, hmem, hc⟩ := hcov
  obtain ⟨path, hk, -⟩ := covers_iff.mp hc
  have hadm : needs.admits d = true := admits_iff.mpr (Or.inl ⟨r, hr, hc⟩)
  rcases exists_kept_of_admits [] hmem hk hadm with hseen | ⟨e, he, hek⟩
  · simp at hseen
  · exact ⟨e, kept_diff needs declared ▸ he, by rw [covers_of_key_eq (hek.trans hk.symm), hc]⟩

/-- The keys that a fix writes are those of the kept elements and of the missing paths. -/
theorem keys_fixed : ((diff needs declared).fixed place).filterMap Declared.key? =
    (keptOf needs [] declared).filterMap Declared.key? ++
      (diff needs declared).missing.map fun r => Key.binding r.binding.id r.path := by
  unfold Diff.fixed
  rw [List.filterMap_append, List.filterMap_map, kept_diff, ← List.filterMap_eq_map]
  rfl

theorem nodup_keys_fixed (hn : (needs.required.map fun r => r.binding.id).Nodup) :
    (((diff needs declared).fixed place).filterMap Declared.key?).Nodup := by
  rw [keys_fixed]
  refine List.nodup_append.mpr ⟨nodup_keys_kept _ _ _, ?_, ?_⟩
  · -- different bindings, so different keys
    have hids : ((diff needs declared).missing.map fun r => r.binding.id).Nodup :=
      hn.sublist (List.filter_sublist.map _)
    refine List.Nodup.of_map (fun k => match k with | .binding id _ => id | .global _ _ => 0) ?_
    rw [List.map_map]
    exact hids
  · rintro k hk k' hk' rfl
    obtain ⟨d, hd, hdk⟩ := List.mem_filterMap.mp hk
    obtain ⟨r, hr, rfl⟩ := List.mem_map.mp hk'
    -- a kept element with the key of a missing path would cover it
    have hcov : d.covers r = true := covers_iff.mpr ⟨r.path, hdk, List.prefix_rfl⟩
    have hno := (mem_missing_iff.mp hr).2 d (mem_kept hd).1
    rw [hcov] at hno
    cases hno

theorem admits_of_mem_fixed {d : Declared} (hd : d ∈ (diff needs declared).fixed place)
    (hk : d.key? ≠ none) : needs.admits d = true := by
  rcases List.mem_append.mp hd with h | h
  · obtain ⟨k, hk⟩ := Option.ne_none_iff_exists'.mp hk
    exact ((mem_kept (kept_diff needs declared ▸ h)).2 k hk).2
  · obtain ⟨r, hr, rfl⟩ := List.mem_map.mp h
    exact admits_iff.mpr (Or.inl ⟨r, (mem_missing_iff.mp hr).1, covers_plain_self r _⟩)

/-- All elements that a fix writes are kept. -/
theorem withFate_fixed (hn : (needs.required.map fun r => r.binding.id).Nodup) (f : Fate) :
    withFate f (fates needs [] ((diff needs declared).fixed place)) =
      if .kept = f then (diff needs declared).fixed place else [] := by
  rw [fates_eq_kept (nodup_keys_fixed hn) (fun _ _ => List.not_mem_nil)
    (fun _ => admits_of_mem_fixed), withFate_map]

theorem missing_fixed (needs : Needs) (declared : List Declared) (place : Path → Node) :
    (diff needs ((diff needs declared).fixed place)).missing = [] := by
  refine List.eq_nil_iff_forall_not_mem.mpr fun r hr => ?_
  obtain ⟨hreq, hno⟩ := mem_missing_iff.mp hr
  by_cases hm : r ∈ (diff needs declared).missing
  · have h := hno (r.plain (place r)) (List.mem_append_right _ (List.mem_map_of_mem hm))
    rw [covers_plain_self] at h
    cases h
  · obtain ⟨d, hd, hc⟩ := exists_kept_covers hreq hm
    rw [hno d (List.mem_append_left _ hd)] at hc
    cases hc

theorem complex_fixed : ((diff needs declared).fixed place).filter Declared.isComplex =
    (diff needs declared).complex := by
  unfold Diff.fixed
  rw [List.filter_append, kept_diff, filter_keptOf, complex_diff]
  have hnone : ((diff needs declared).missing.map fun r => r.plain (place r)).filter
      Declared.isComplex = [] := by
    refine List.filter_eq_nil_iff.mpr fun d hd => ?_
    obtain ⟨r, -, rfl⟩ := List.mem_map.mp hd
    rw [isComplex_iff, key?_plain]
    simp
  rw [hnone, List.append_nil]

end Diff

section Site

variable {p : Program} {reportStatic : Bool} {cache : Cache} {site : Site}

theorem splitByLabel_sublist (p : Program) (cache : Cache) (ds : List Path) :
    (splitByLabel p cache ds).1.1.Sublist ds := by
  induction ds generalizing cache with
  | nil => exact List.Sublist.refl _
  | cons d ds ih =>
    rw [splitByLabel]
    simp only
    cases (p.label cache d.binding.id).1 with
    | static => exact (ih _).cons _
    | dynamic => exact (ih _).cons_cons _

/-- The required paths of a site are about different bindings. -/
theorem nodup_required (p : Program) (reportStatic : Bool) (cache : Cache) (site : Site) :
    ((needsOf p reportStatic cache site).required.map fun r => r.binding.id).Nodup := by
  have hall := nodup_keys_dependencies p.source p.tree site
  rw [keys_dependencies] at hall
  exact hall.sublist ((splitByLabel_sublist p cache _).map _)

/-- **One fix settles the diff.**  Compared again with the same needs, the elements that the fix of
a site writes have nothing missing, nothing unnecessary and no duplicates; all of them are kept in
their order, and the complex ones are the same as before.  These elements are what the text of the
fix lists, and the needs are those that a comparison of the site uses. -/
theorem fix_settles_diff (p : Program) (reportStatic : Bool) (cache : Cache) (site : Site)
    (declared : List Declared) (place : Path → Node) :
    let needs := needsOf p reportStatic cache site
    let before := diff needs declared
    let after := diff needs (before.fixed place)
    after.missing = [] ∧ after.unnecessary = [] ∧ after.duplicates = [] ∧
    after.kept = before.fixed place ∧ after.complex = before.complex ∧
    (∀ r : Reconciliation, r.diff = before → ∀ fix, buildFix? r = some fix →
      fix.replacement = arrayText ((before.fixed place).map Declared.source)) ∧
    (∀ array, Compared site array →
      (reconcile p reportStatic cache site).1.diff = diff needs (declaredIn p array)) := by
  intro needs before after
  have hn := nodup_required p reportStatic cache site
  have hkept : after.kept = before.fixed place := (kept_diff _ _).trans (withFate_fixed hn .kept)
  have hunnecessary : after.unnecessary = [] :=
    (unnecessary_diff _ _).trans (withFate_fixed hn .unnecessary)
  have hduplicates : after.duplicates = [] :=
    (duplicates_diff _ _).trans (withFate_fixed hn .duplicate)
  refine ⟨missing_fixed needs declared place, hunnecessary, hduplicates, hkept, ?_, ?_,
    fun array h => ?_⟩
  · exact (complex_diff _ _).trans complex_fixed
  · intro r hr fix hfix
    unfold buildFix? at hfix
    rw [hr] at hfix
    split at hfix
    · cases hfix
    · simp only at hfix
      split at hfix
      · obtain rfl := Option.some.inj hfix
        simp [Diff.fixed, Path.plain, Function.comp_def]
      · cases hfix
  · rw [reconcile_of_compared h]
    rfl

end Site

end HookLint.Dependency
