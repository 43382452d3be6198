/-!
# Pathname — the names of files

A name is split at its slashes.  Empty parts and single points mean nothing and are dropped; double
points are kept, since what they mean depends on the files.  A name that starts with slashes starts
at the root; exactly two of them are kept, any other number counts as one.
-/

namespace HookLint.Files

/-- A path as a list of names; `root` holds the slashes in front, and is empty if the path is
relative. -/
structure Pathname where
  root : String := ""
  parts : List String := []
deriving DecidableEq, Repr

namespace Pathname

/-- The root of a path with the given number of slashes in front. -/
def rootOf : Nat → String
  | 0 => ""
  | 2 => "//"
  | _ => "/"

/-- The path that a text writes. -/
def ofString (s : String) : Pathname :=
  ⟨rootOf (s.toList.takeWhile (· = '/')).length,
    (s.splitOn "/").filter fun p => p ≠ "" && p ≠ "."⟩

/-- Whether a path starts at the root. -/
def isAbsolute (p : Pathname) : Bool := p.root ≠ ""

/-- The text of a path; the empty one is written as a point. -/
def text (p : Pathname) : String :=
  if p.root = "" ∧ p.parts = [] then "." else p.root ++ "/".intercalate p.parts

/-- A path below another; an absolute one stands alone. -/
def join (p q : Pathname) : Pathname := if q.isAbsolute then q else ⟨p.root, p.parts ++ q.parts⟩

/-- The part of a file name from its last point on.  A point at the start or at the end of a name
starts no suffix. -/
def suffixOf (name : String) : String :=
  let reversed := name.toList.reverse
  let tail := reversed.takeWhile (· ≠ '.')
  if tail.isEmpty ∨ reversed.length ≤ tail.length + 1 then ""
  else String.ofList ('.' :: tail.reverse)

/-- The suffix of the last name. -/
def suffix (p : Pathname) : String := suffixOf (p.parts.getLastD "")

end Pathname
end HookLint.Files
