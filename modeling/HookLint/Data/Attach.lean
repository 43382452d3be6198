/-!
# Attach — forgetting membership proofs

Recursion over a list of parts pairs every part with the proof that it is one (`List.attach`), for
the sake of termination.  These lemmas drop the proofs again.
-/

namespace HookLint

/-- A map that ignores the membership proofs is a map of the list. -/
theorem flatMap_attach {α β : Type} {l : List α} {f : { x // x ∈ l } → List β} {g : α → List β}
    (h : ∀ x, f x = g x.1) : l.attach.flatMap f = l.flatMap g := by
  have hf : f = fun x => g x.1 := funext h
  subst hf
  conv => rhs; rw [← List.attach_map_subtype_val l, List.flatMap_map]

end HookLint
