import HookLint.Syntax.Node

/-!
# Source — the text that a tree describes

Offsets of a tree count the bytes of the UTF-8 form of the text.  Lines end at line feeds; a column
counts bytes from the start of its line; both are numbered from one.
-/

namespace HookLint.Syntax

/-- The text of one file. -/
structure Source where
  text : String
deriving DecidableEq, Inhabited

/-- A place in a text, line and column from one. -/
structure Position where
  line : Nat
  column : Nat
deriving DecidableEq, Repr

namespace Source

/-- The UTF-8 form of the text. -/
def bytes (src : Source) : ByteArray := src.text.toUTF8

/-- The text between two byte offsets, empty if they cut a character in two. -/
def slice (src : Source) (start stop : Nat) : String :=
  (String.fromUTF8? (src.bytes.extract start stop)).getD ""

/-- The text of a node. -/
def textOf (src : Source) (n : Node) : String := src.slice n.start n.stop

/-- Moves a position past one byte: a line feed starts the next line. -/
def advance (p : Position) (byte : UInt8) : Position :=
  if byte = 10 then ⟨p.line + 1, 1⟩ else ⟨p.line, p.column + 1⟩

/-- The position of a byte offset. -/
def position (src : Source) (offset : Nat) : Position :=
  (src.bytes.extract 0 offset).toList.foldl advance ⟨1, 1⟩

end Source
end HookLint.Syntax
