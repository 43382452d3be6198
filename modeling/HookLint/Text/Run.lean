/-!
# Run — code point properties as tables

A property of characters is stored as a list of runs.  A run `first, first + step, …, last` covers
a block of neighbours (`step = 1`) or one case of a block in which the two cases alternate
(`step = 2`).
-/

namespace HookLint.Text

/-- The code points `first, first + step, …` up to `last`. -/
structure Run where
  first : Nat
  last : Nat
  step : Nat := 1
deriving DecidableEq, Repr

/-- Whether the run holds the code point `n`. -/
def Run.contains (r : Run) (n : Nat) : Bool :=
  decide (r.first ≤ n) && decide (n ≤ r.last) && (n - r.first) % r.step == 0

/-- Whether one of the blocks `(first, last)` holds the code point `n`. -/
def inBlocks (blocks : List (Nat × Nat)) (n : Nat) : Bool :=
  blocks.any fun b => decide (b.1 ≤ n) && decide (n ≤ b.2)

end HookLint.Text
