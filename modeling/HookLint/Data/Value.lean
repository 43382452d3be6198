import HookLint.Data.Assoc
import HookLint.Data.Binary64

/-!
# Value — the data of options files and event logs

Options come from JSON and TOML text, events leave as JSON text; both are values of this one type.
Members of an object keep the order in which they were written.
-/

namespace HookLint

/-- A value of a data format. -/
inductive Value where
  | null
  | bool (b : Bool)
  | int (n : Int)
  /-- The number `digits · 10 ^ exponent`, written with a fraction or an exponent; it counts as the
  nearest double. -/
  | decimal (digits : Int) (exponent : Int)
  /-- A date, a time, or a number without a finite value; no option takes one. -/
  | mark (text : String)
  | string (s : String)
  | array (items : List Value)
  | object (members : List (String × Value))
deriving Inhabited

namespace Value

/-- The member of an object with the given name. -/
def get? (v : Value) (name : String) : Option Value :=
  match v with
  | .object members => Assoc.get? members name
  | _ => none

/-- Whether a value counts as true: all but null, false, zero and the empty ones do. -/
def truthy : Value → Bool
  | .null => false
  | .bool b => b
  | .int n => n ≠ 0
  | .decimal digits exponent => !(Binary64.ofDecimal digits.natAbs exponent).isZero
  | .mark _ => true
  | .string s => s ≠ ""
  | .array items => !items.isEmpty
  | .object members => !members.isEmpty

end Value
end HookLint
