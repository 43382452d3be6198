import HookLint.Data.Value
import HookLint.Scope.Slot

/-!
# Spec — which parts of a hook's result are stable

A state setter or a reference container is the same in every render of a component.  A spec says so
of the whole result of a hook, of positions of an array, or of properties of an object.  Whatever it
does not mark is not stable.
-/

namespace HookLint.Stability

open Scope

/-- Which parts of a result are stable. -/
inductive Spec where
  | whole (stable : Bool)
  | positions (stable : List Bool)
  | keys (stable : Assoc String Bool)
deriving DecidableEq, Repr

namespace Spec

/-- Whether the part that a slot receives is stable. -/
def isStatic : Spec → Slot → Bool
  | .whole stable, _ => stable
  | .positions stable, .position i => stable.getD i false
  | .keys stable, .key name => (Assoc.get? stable name).getD false
  | _, _ => false

/-- The spec that a value writes, each element by whether it counts as true.  A text counts as the
sequence of its characters; a number, a date or nothing writes no spec. -/
def ofValue? : Value → Option Spec
  | .bool b => some (.whole b)
  | .object members => some (.keys (Assoc.ofList (members.map fun m => (m.1, m.2.truthy))))
  | .array items => some (.positions (items.map Value.truthy))
  | .string s => some (.positions (s.toList.map fun _ => true))
  | .null | .int _ | .decimal _ _ | .mark _ => none

/-- The spec as a value. -/
def toValue : Spec → Value
  | .whole stable => .bool stable
  | .positions stable => .array (stable.map .bool)
  | .keys stable => .object (stable.map fun m => (m.1, .bool m.2))

end Spec

/-- The hooks whose results are known to be stable, wholly or in their second position. -/
def builtinSpecs : Assoc String Spec :=
  [("useState", .positions [false, true]), ("useReducer", .positions [false, true]),
    ("useTransition", .positions [false, true]), ("useActionState", .positions [false, true]),
    ("useRef", .whole true)]

end HookLint.Stability
