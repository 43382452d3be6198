import HookLint.Regex.Basic
import HookLint.Stability.Spec

/-!
# Options — what a user can decide

Four settings decide what is reported.  Each has a name in camel case, in which options are shown,
and one in snake case; options files may use either.
-/

namespace HookLint

/-- The settings. -/
inductive Setting where
  | checkMemoized | staticHooks | additionalHooks | reportStatic
deriving DecidableEq, Repr

namespace Setting

/-- All settings, in the order in which they are shown. -/
def all : List Setting := [.checkMemoized, .staticHooks, .additionalHooks, .reportStatic]

/-- The name in camel case. -/
def camel : Setting → String
  | .checkMemoized => "checkMemoizedVariableIsStatic"
  | .staticHooks => "staticHooks"
  | .additionalHooks => "additionalHooks"
  | .reportStatic => "reportStaticDependencies"

/-- The name in snake case. -/
def snake : Setting → String
  | .checkMemoized => "check_memoized_variable_is_static"
  | .staticHooks => "static_hooks"
  | .additionalHooks => "additional_hooks"
  | .reportStatic => "report_static_dependencies"

end Setting

/-- The options of a run. -/
structure Options where
  /-- Whether results of memo hooks with static dependencies are static. -/
  checkMemoized : Bool := false
  /-- Which parts of the results of further hooks are stable. -/
  staticHooks : Assoc String Stability.Spec := []
  /-- Names of further hooks to check. -/
  additionalHooks : Option Pattern := none
  /-- Whether static dependencies in an array are unnecessary. -/
  reportStatic : Bool := false

namespace Options

/-- The value of a setting. -/
def get (o : Options) : Setting → Value
  | .checkMemoized => .bool o.checkMemoized
  | .staticHooks => .object (o.staticHooks.map fun h => (h.1, h.2.toValue))
  | .additionalHooks => o.additionalHooks.elim .null fun p => .string p.source
  | .reportStatic => .bool o.reportStatic

/-- The options as the members of an object, under the given names. -/
def members (o : Options) (name : Setting → String) : Assoc String Value :=
  Setting.all.map fun s => (name s, o.get s)

/-- The options as they are shown. -/
def toValue (o : Options) : Value := .object (o.members Setting.camel)

end Options
end HookLint
