/-!
# Slot — which part of a value a name receives

A name bound by a pattern receives the whole initializer, one position of it, one property of it,
or what the pattern leaves over.  In nested patterns the outermost step counts.
-/

namespace HookLint.Scope

/-- Which part of an initializer a name receives. -/
inductive Slot where
  | whole
  | position (index : Nat)
  | key (name : String)
  | rest
deriving DecidableEq, Repr, Inhabited

end HookLint.Scope
