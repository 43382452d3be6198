/-!
# Fix — replacing spans of a text

A fix replaces a span of bytes by a text.  Fixes are applied from the right to the left, so the
offsets of the fixes that are left stay valid, and a fix that overlaps one to its right is passed
over.  Equal fixes count once; of different fixes for one span the first in the list is applied.
-/

namespace HookLint.Report

/-- Replaces the bytes from `start` up to `stop`. -/
structure Fix where
  start : Nat
  stop : Nat
  replacement : String
  description : String := ""
deriving DecidableEq, Repr

namespace Fix

/-- Whether two fixes do the same. -/
def same (a b : Fix) : Bool :=
  a.start = b.start && a.stop = b.stop && a.replacement = b.replacement

/-- The fixes without repetitions, each in the place of its first occurrence. -/
def distinct (fixes : List Fix) : List Fix :=
  fixes.foldl (fun acc f => if acc.any f.same then acc else acc ++ [f]) []

/-- Whether `a` is applied before `b`: it starts later, or starts there too and ends no earlier. -/
def precedes (a b : Fix) : Bool :=
  decide (b.start < a.start) || (a.start = b.start && decide (b.stop ≤ a.stop))

/-- The fixes in the order in which they are applied. -/
def ordered (fixes : List Fix) : List Fix := (distinct fixes).mergeSort precedes

/-- The bytes of a text. -/
def bytesOf (s : String) : List UInt8 := s.toUTF8.toList

/-- The bytes with one span replaced. -/
def splice (data : List UInt8) (f : Fix) : List UInt8 :=
  data.take f.start ++ bytesOf f.replacement ++ data.drop f.stop

/-- Applies fixes in turn.  Those that reach beyond `limit`, the start of the last one applied, are
passed over. -/
def applyInOrder (data : List UInt8) (limit : Nat) : List Fix → List UInt8
  | [] => data
  | f :: fs =>
    if limit < f.stop then applyInOrder data limit fs else applyInOrder (splice data f) f.start fs

/-- The bytes of the text after all fixes. -/
def applyBytes (source : String) (fixes : List Fix) : List UInt8 :=
  applyInOrder (bytesOf source) ((bytesOf source).length + 1) (ordered fixes)

/-- The text after all fixes; none if a fix cut a character in two, so that no text is left. -/
def patch? (source : String) (fixes : List Fix) : Option String :=
  String.fromUTF8? ⟨(applyBytes source fixes).toArray⟩

end Fix
end HookLint.Report
