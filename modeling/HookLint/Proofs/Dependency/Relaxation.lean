import HookLint.Proofs.Dependency.Fates
import HookLint.Dependency.Reconciliation

/-!
# Proofs.Dependency.Relaxation — an array compared with less

Needs are relaxed by moving dependencies from the required to the tolerated.  Every element that was
admitted stays admitted: it covers what is still required, or it names a binding that is tolerated
now.  So no element becomes unnecessary and no path becomes missing.  Which elements are duplicates
or complex does not depend on the needs at all (`fate_eq_duplicate_iff`, `complex_diff`).
-/

namespace HookLint.Dependency

/-- Some of the required dependencies became tolerated, and nothing else changed. -/
structure Needs.Relaxes (relaxed needs : Needs) : Prop where
  required : relaxed.required.Sublist needs.required
  tolerated : ∀ id ∈ needs.tolerated, id ∈ relaxed.tolerated
  moved : ∀ r ∈ needs.required, r ∈ relaxed.required ∨ r.binding.id ∈ relaxed.tolerated

/-- A comparison that finds no more than another, and the same duplicate and complex elements. -/
structure Diff.Relaxes (relaxed strict : Diff) : Prop where
  missing : relaxed.missing.Sublist strict.missing
  unnecessary : relaxed.unnecessary.Sublist strict.unnecessary
  duplicates : relaxed.duplicates = strict.duplicates
  complex : relaxed.complex = strict.complex

/-- Outcomes that are the same, or comparisons of one array with the same unstable elements, the
first of which finds no more than the second. -/
inductive Outcome.Relaxes : Outcome → Outcome → Prop
  | same (o : Outcome) : Outcome.Relaxes o o
  | compared (array : Syntax.Node) {d d' : Diff} (unstable : List Unstable) (h : d.Relaxes d') :
      Outcome.Relaxes (.compared array d unstable) (.compared array d' unstable)

/-- What came of one site, twice, the first with no more findings than the second. -/
structure Reconciliation.Relaxes (relaxed strict : Reconciliation) : Prop where
  site : relaxed.site = strict.site
  outcome : relaxed.outcome.Relaxes strict.outcome

section Fates

variable {needs needs' relaxed : Needs} {seen : List Key} {d : Declared}

theorem duplicates_fates (seen : List Key) (ds : List Declared) :
    withFate .duplicate (fates needs seen ds) = withFate .duplicate (fates needs' seen ds) := by
  induction ds generalizing seen with
  | nil => rfl
  | cons d ds ih =>
    simp only [fates, withFate_cons, ih, fate_eq_duplicate_iff]

/-- What was admitted stays admitted. -/
theorem Needs.Relaxes.admits (h : relaxed.Relaxes needs) (ha : needs.admits d = true) :
    relaxed.admits d = true := by
  rcases admits_iff.mp ha with ⟨r, hr, hcov⟩ | ⟨id, path, hk, hid⟩
  · rcases h.moved r hr with hr' | hid
    · exact admits_iff.mpr (.inl ⟨r, hr', hcov⟩)
    · -- the element named what it covered
      obtain ⟨path, hk, -⟩ := covers_iff.mp hcov
      exact admits_iff.mpr (.inr ⟨r.binding.id, path, hk, hid⟩)
  · exact admits_iff.mpr (.inr ⟨id, path, hk, h.tolerated id hid⟩)

theorem Needs.Relaxes.fate_eq_unnecessary (h : relaxed.Relaxes needs)
    (hf : fate relaxed seen d = .unnecessary) : fate needs seen d = .unnecessary := by
  obtain ⟨hk, ha⟩ := fate_eq_unnecessary_iff.mp hf
  refine fate_eq_unnecessary_iff.mpr ⟨hk, ?_⟩
  by_contra hn
  have hyes := h.admits (by simpa using hn)
  rw [ha] at hyes
  cases hyes

theorem Needs.Relaxes.unnecessary_sublist (h : relaxed.Relaxes needs) (seen : List Key)
    (ds : List Declared) :
    (withFate .unnecessary (fates relaxed seen ds)).Sublist
      (withFate .unnecessary (fates needs seen ds)) := by
  induction ds generalizing seen with
  | nil => exact List.Sublist.refl _
  | cons d ds ih =>
    simp only [fates, withFate_cons]
    by_cases hf : fate relaxed seen d = .unnecessary
    · rw [if_pos hf, if_pos (h.fate_eq_unnecessary hf)]
      exact (ih _).cons_cons d
    · rw [if_neg hf]
      split
      · exact (ih _).cons d
      · exact ih _

/-- **Relaxed needs find no more.** -/
theorem Needs.Relaxes.diff (h : relaxed.Relaxes needs) (declared : List Declared) :
    (diff relaxed declared).Relaxes (diff needs declared) where
  missing := h.required.filter _
  unnecessary := by
    rw [unnecessary_diff, unnecessary_diff]
    exact h.unnecessary_sublist [] declared
  duplicates := by
    rw [duplicates_diff, duplicates_diff]
    exact duplicates_fates [] declared
  complex := by rw [complex_diff, complex_diff]

end Fates

end HookLint.Dependency
