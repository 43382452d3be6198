import HookLint.Dependency.Reconciliation

/-!
# Proofs.Dependency.Comparison — the sites whose arrays are compared

A site is compared if its callback is written in place and its dependency argument is an array
literal without spreads.  Its outcome is the diff of the elements of the array against `needsOf`.
-/

namespace HookLint.Dependency

open Syntax Scope Hook Stability

/-- A site with an inline callback and a plain dependency array. -/
structure Compared (site : Site) (array : Node) : Prop where
  inline : site.hasInlineCallback = true
  array_eq : site.dependencies.map Node.unwrap = some array
  is_array : array.kind = .array
  no_spread : ∀ e ∈ array.elements, e.kind ≠ .spreadElement

/-- What the elements of the array of a site are compared with: the references that are not static,
and the bindings of the static ones, unless these are to be reported. -/
def needsOf (p : Program) (reportStatic : Bool) (cache : Cache) (site : Site) : Needs :=
  let split := (splitByLabel p cache
    (Assoc.values (references p.source p.tree site).dependencies)).1
  ⟨split.1, if reportStatic then [] else split.2⟩

/-- The elements of a dependency array. -/
def declaredIn (p : Program) (array : Node) : List Declared :=
  array.elements.map (declaredOf p.source p.tree)

variable {p : Program} {reportStatic : Bool} {cache : Cache} {site : Site} {array : Node}

theorem compare_eq (p : Program) (reportStatic : Bool) (cache : Cache) (site : Site)
    (array : Node) : (compare p reportStatic cache site array).1 =
      .compared array (diff (needsOf p reportStatic cache site) (declaredIn p array))
        (unstableIn p site array [] (declaredIn p array)) := rfl

theorem reconcile_of_compared (h : Compared site array) :
    (reconcile p reportStatic cache site).1 =
      ⟨site, .compared array (diff (needsOf p reportStatic cache site) (declaredIn p array))
        (unstableIn p site array [] (declaredIn p array))⟩ := by
  obtain ⟨argument, hd, ha⟩ := Option.map_eq_some_iff.mp h.array_eq
  have hk := h.is_array
  have hs := h.no_spread
  rw [← ha] at hk hs ⊢
  have hany : (argument.unwrap.elements.any fun e => e.kind = .spreadElement) = false := by
    simpa [List.any_eq_false] using hs
  unfold reconcile
  simp only [hd, hk, hany, h.inline, ne_eq, not_true_eq_false, if_false, Bool.not_true]
  rw [← compare_eq]
  rfl

/-- No other site comes to a comparison. -/
theorem compared_of_outcome {d : Diff} {unstable : List Unstable}
    (h : (reconcile p reportStatic cache site).1.outcome = .compared array d unstable) :
    Compared site array := by
  unfold reconcile at h
  cases hd : site.dependencies with
  | none =>
    rw [hd] at h
    cases h
  | some argument =>
    simp only [hd] at h
    split at h
    · cases h
    next hkind =>
    split at h
    · cases h
    next hspread =>
    split at h
    · cases h
    next hinline =>
    have harray : argument.unwrap = array := by
      rw [compare_eq] at h
      exact (Outcome.compared.inj h).1
    rw [harray] at hkind hspread
    refine ⟨by simpa using hinline, by rw [hd, Option.map_some, harray], by simpa using hkind, ?_⟩
    intro e he hs
    exact hspread (List.any_eq_true.mpr ⟨e, he, decide_eq_true hs⟩)

theorem diff_of_outcome {d : Diff} {unstable : List Unstable}
    (h : (reconcile p reportStatic cache site).1.outcome = .compared array d unstable) :
    d = diff (needsOf p reportStatic cache site) (declaredIn p array) := by
  rw [reconcile_of_compared (compared_of_outcome h)] at h
  exact (Outcome.compared.inj h).2.1.symm

end HookLint.Dependency
