import HookLint.Syntax.Source
import HookLint.Text.Upper
import HookLint.Text.Digit

/-!
# Call — what is called, with which arguments

A call names its callee either directly, `useEffect(…)`, or as the last property of a member chain,
`React.useEffect(…)`.  Hooks are told by their name alone.
-/

namespace HookLint.Syntax

/-- Whether `name` is `use`, or `use` followed by an upper-case letter or a digit. -/
def isHookName (name : String) : Bool :=
  match name.toList with
  | ['u', 's', 'e'] => true
  | 'u' :: 's' :: 'e' :: c :: _ => Text.isUpper c || Text.isDigit c
  | _ => false

/-- The name of the function that `call` calls, if it is written as a name or a property. -/
def Source.calleeName? (src : Source) (call : Node) : Option String := do
  let callee := (← call.child? .function).unwrap
  match callee.kind with
  | .identifier => some (src.textOf callee)
  | .memberExpression =>
    let property ← callee.child? .property
    if property.kind = .propertyIdentifier then some (src.textOf property) else none
  | _ => none

/-- The arguments of `call`; a template in their place counts as none. -/
def Node.arguments (call : Node) : List Node :=
  match call.child? .arguments with
  | some list => if list.kind = .arguments then list.elements else []
  | none => []

end HookLint.Syntax
