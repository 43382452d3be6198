import HookLint.Dependency.Declared

/-!
# Diff — required and declared dependencies compared

The declared elements are dealt out one by one.  A complex expression is kept.  A repetition of an
earlier element is a duplicate.  An element that covers a required dependency is kept, and so is one
that names a binding which is static and used, unless such elements are to be reported.  All others
are unnecessary.  A required dependency that no element covers is missing.
-/

namespace HookLint.Dependency

/-- What the declared elements are compared with: the dependencies that must be declared, and the
bindings that may be. -/
structure Needs where
  required : List Path
  tolerated : List Nat

/-- Whether an element is needed or tolerated. -/
def Needs.admits (needs : Needs) (d : Declared) : Bool :=
  needs.required.any d.covers || d.path?.any fun p => needs.tolerated.contains p.binding.id

/-- The elements dealt out so far, and the keys that were met. -/
structure Dealt where
  seen : List Key := []
  kept : List Declared := []
  unnecessary : List Declared := []
  duplicates : List Declared := []
  complex : List Declared := []

/-- Deals out one more element. -/
def Needs.deal (needs : Needs) (s : Dealt) (d : Declared) : Dealt :=
  match d.key? with
  | none => { s with complex := s.complex ++ [d], kept := s.kept ++ [d] }
  | some k =>
    if s.seen.contains k then { s with duplicates := s.duplicates ++ [d] }
    else if needs.admits d then { s with seen := k :: s.seen, kept := s.kept ++ [d] }
    else { s with seen := k :: s.seen, unnecessary := s.unnecessary ++ [d] }

/-- The outcome of the comparison. -/
structure Diff where
  required : List Path := []
  declared : List Declared := []
  kept : List Declared := []
  missing : List Path := []
  unnecessary : List Declared := []
  duplicates : List Declared := []
  complex : List Declared := []

/-- Whether the array differs from what it should be. -/
def Diff.needsFix (d : Diff) : Bool :=
  !(d.missing.isEmpty && d.unnecessary.isEmpty && d.duplicates.isEmpty)

/-- Compares the declared elements with what is needed. -/
def diff (needs : Needs) (declared : List Declared) : Diff :=
  let dealt := declared.foldl needs.deal {}
  { required := needs.required
    declared
    kept := dealt.kept
    missing := needs.required.filter fun r => !declared.any fun d => d.covers r
    unnecessary := dealt.unnecessary
    duplicates := dealt.duplicates
    complex := dealt.complex }

end HookLint.Dependency
