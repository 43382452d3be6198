import HookLint.Text.Run

/-!
# Blank — white space of any script

Blanks are the spaces, the line and paragraph ends and the separators of the information standards.
-/

namespace HookLint.Text

private def blankBlocks : List (Nat × Nat) :=
   [(0x9, 0xD), (0x1C, 0x20), (0x85, 0x85), (0xA0, 0xA0), (0x1680, 0x1680), (0x2000, 0x200A),
    (0x2028, 0x2029), (0x202F, 0x202F), (0x205F, 0x205F), (0x3000, 0x3000)]

/-- Whether `c` is white space. -/
def isBlank (c : Char) : Bool := inBlocks blankBlocks c.toNat

end HookLint.Text
