import HookLint.Data.Value

/-!
# Json.Printer — writing JSON text

Two decisions make a style.  `ascii` writes every character outside the printable ASCII range as
`\u` escapes, in surrogate pairs above U+FFFF; without it only control characters are escaped.
`indent` puts every item on a line of its own; without it items are divided by a comma and a blank.
Empty arrays and objects are `[]` and `{}` in every style.
-/

namespace HookLint.Json

/-- How a value is laid out. -/
structure Style where
  ascii : Bool
  indent : Option Nat

/-- One line, ASCII only: the lines of an event log. -/
def Style.line : Style := ⟨true, none⟩

/-- Two blanks a level, ASCII only: resolved options. -/
def Style.listing : Style := ⟨true, some 2⟩

/-- Two blanks a level, other scripts as they are: reports. -/
def Style.report : Style := ⟨false, some 2⟩

/-- The hexadecimal digit of a number below sixteen. -/
def hexDigit (n : Nat) : Char := "0123456789abcdef".toList.getD (n % 16) '0'

/-- A `\u` escape of one UTF-16 unit. -/
def unitEscape (n : Nat) : List Char :=
  ['\\', 'u', hexDigit (n / 4096), hexDigit (n / 256), hexDigit (n / 16), hexDigit n]

/-- A character inside quotes. -/
def escapeChar (ascii : Bool) (c : Char) : List Char :=
  match c with
  | '"' => ['\\', '"']
  | '\\' => ['\\', '\\']
  | '\n' => ['\\', 'n']
  | '\r' => ['\\', 'r']
  | '\t' => ['\\', 't']
  | '\x08' => ['\\', 'b']
  | '\x0c' => ['\\', 'f']
  | c =>
    let n := c.toNat
    if n < 0x20 then unitEscape n
    else if ascii ∧ 0x7F ≤ n then
      if n < 0x10000 then unitEscape n
      else
        unitEscape (0xD800 + (n - 0x10000) / 0x400) ++
          unitEscape (0xDC00 + (n - 0x10000) % 0x400)
    else [c]

/-- A string in quotes. -/
def quote (ascii : Bool) (s : String) : String :=
  String.ofList ('"' :: s.toList.flatMap (escapeChar ascii) ++ ['"'])

/-- A number with a fraction or an exponent. -/
def decimalText (digits exponent : Int) : String := toString digits ++ "e" ++ toString exponent

/-- What stands between the opening bracket, or a comma, and the next item. -/
def lineBreak (indent : Option Nat) (depth : Nat) : String :=
  match indent with
  | some n => "\n" ++ "".pushn ' ' (n * depth)
  | none => ""

/-- What divides two items. -/
def divider (indent : Option Nat) (depth : Nat) : String :=
  match indent with
  | some _ => "," ++ lineBreak indent depth
  | none => ", "

mutual

/-- The text of a value that stands `depth` levels deep. -/
def write (style : Style) (depth : Nat) : Value → String
  | .null => "null"
  | .bool b => if b then "true" else "false"
  | .int n => toString n
  | .decimal d e => decimalText d e
  | .mark text => text
  | .string s => quote style.ascii s
  | .array [] => "[]"
  | .array (v :: vs) =>
    "[" ++ lineBreak style.indent (depth + 1) ++ write style (depth + 1) v ++
      writeItems style (depth + 1) vs ++ lineBreak style.indent depth ++ "]"
  | .object [] => "\x7b\x7d"
  | .object ((k, v) :: ms) =>
    "\x7b" ++ lineBreak style.indent (depth + 1) ++ quote style.ascii k ++ ": " ++
      write style (depth + 1) v ++ writeMembers style (depth + 1) ms ++
      lineBreak style.indent depth ++ "\x7d"

/-- The items after the first, each with its divider. -/
def writeItems (style : Style) (depth : Nat) : List Value → String
  | [] => ""
  | v :: vs => divider style.indent depth ++ write style depth v ++ writeItems style depth vs

/-- The members after the first, each with its divider. -/
def writeMembers (style : Style) (depth : Nat) : List (String × Value) → String
  | [] => ""
  | (k, v) :: ms =>
    divider style.indent depth ++ quote style.ascii k ++ ": " ++ write style depth v ++
      writeMembers style depth ms

end

/-- The text of a value. -/
def render (style : Style) (v : Value) : String := write style 0 v

end HookLint.Json
