import HookLint.Scope.Store

/-!
# Construction — expressions by the identity of their values

A primitive literal has the same value in every evaluation.  A construction makes a fresh value
each time: a literal object, array, function or class, markup, a regular expression, a `new`, or an
expression that may pass one of these on.
-/

namespace HookLint.Stability

open Syntax Scope

/-- What makes a fresh value. -/
inductive Construction where
  | object | array | function | classValue | markup | newValue | regex
  | conditional | logical | assignment
deriving DecidableEq, Repr

namespace Construction

/-- The construction in words. -/
def noun : Construction → String
  | .object => "object"
  | .array => "array"
  | .function => "function"
  | .classValue => "class"
  | .markup => "JSX element"
  | .newValue => "object construction"
  | .regex => "regular expression"
  | .conditional => "conditional"
  | .logical => "logical expression"
  | .assignment => "assignment expression"

/-- Whether the value is fresh in some evaluations only. -/
def isMaybe : Construction → Bool
  | .conditional | .logical => true
  | _ => false

/-- The construction that an expression of this kind is by itself. -/
def ofKind? : Kind → Option Construction
  | .object => some .object
  | .array => some .array
  | .arrowFunction | .functionExpression | .functionWord | .generatorFunction => some .function
  | .classWord => some .classValue
  | .jsxElement | .jsxSelfClosing | .jsxFragment => some .markup
  | .newExpression => some .newValue
  | .regex => some .regex
  | _ => none

end Construction

section

variable (src : Source)

/-- The operators that make a primitive value of a primitive value. -/
def primitiveOperators : List String := ["-", "+", "!", "~", "void", "typeof"]

/-- The operators that pass one of their operands on. -/
def logicalOperators : List String := ["||", "&&", "??"]

/-- Whether the operator of an expression is one of the given. -/
def hasOperator (n : Node) (operators : List String) : Bool :=
  (n.child? .operator).any fun o => operators.contains (src.textOf o)

/-- Whether an expression writes a primitive value. -/
def isPrimitive (n : Node) : Bool :=
  match n.unwrap.kind with
  | .string | .number | .trueWord | .falseWord | .nullWord | .undefinedWord => true
  | .identifier => src.textOf n.unwrap = "undefined"
  | .templateString => !n.unwrap.children.any fun c => c.kind = .templateSubstitution
  | .unary =>
    hasOperator src n.unwrap primitiveOperators &&
      match _h : n.unwrap.child? .argument with
      | some argument => isPrimitive argument
      | none => false
  | _ => false
termination_by sizeOf n
decreasing_by
  exact Nat.lt_of_lt_of_le (Node.sizeOf_child? (by assumption)) (Node.sizeOf_unwrap_le n)

/-- The construction that an expression is, if it makes a fresh value.  A conditional or a logical
expression is one if one of its branches is. -/
def constructionOf? (n : Node) : Option Construction :=
  let passes (f : Field) : Bool :=
    match _h : n.unwrap.child? f with
    | some part => (constructionOf? part).isSome
    | none => false
  match n.unwrap.kind with
  | .ternary =>
    if passes .consequence || passes .alternative then some .conditional else none
  | .binary =>
    if hasOperator src n.unwrap logicalOperators && (passes .left || passes .right) then
      some .logical
    else none
  | .assignment => if passes .right then some .assignment else none
  | kind => Construction.ofKind? kind
termination_by sizeOf n
decreasing_by
  exact Nat.lt_of_lt_of_le (Node.sizeOf_child? (by assumption)) (Node.sizeOf_unwrap_le n)

/-- The construction that gives a binding a new value in every render.  Declared functions and
classes are constructions; a part of a value is none. -/
def bindingConstruction? (b : Binding) : Option Construction :=
  match b.kind, b.slot, b.init with
  | .function, _, _ => some .function
  | .classValue, _, _ => some .classValue
  | _, .whole, some init => constructionOf? src init
  | _, _, _ => none

end

end HookLint.Stability
