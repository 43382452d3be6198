import HookLint.Dependency.Path
import HookLint.Scope.Tree

/-!
# Declared — the elements of a dependency array

An element that is an identifier, or a chain of plain properties on one, names a local binding or a
global.  Anything else is a complex expression, which cannot be compared with what is used.
-/

namespace HookLint.Dependency

open Syntax Scope

/-- What an element of a dependency array names. -/
inductive Target where
  | binding (d : Path)
  | global (name : String) (path : List String)
  | complex

/-- An element of a dependency array with its text. -/
structure Declared where
  node : Node
  source : String
  target : Target

/-- What two elements have in common if one of them is a duplicate. -/
inductive Key where
  | binding (id : Nat) (path : List String)
  | global (name : String) (path : List String)
deriving DecidableEq

namespace Declared

/-- Whether the element is a complex expression. -/
def isComplex (d : Declared) : Bool :=
  match d.target with
  | .complex => true
  | _ => false

/-- What identifies the element; a complex expression has no key. -/
def key? (d : Declared) : Option Key :=
  match d.target with
  | .binding p => some (.binding p.binding.id p.path)
  | .global name path => some (.global name path)
  | .complex => none

/-- The path of a plain element on a local binding. -/
def path? (d : Declared) : Option Path :=
  match d.target with
  | .binding p => some p
  | _ => none

/-- Whether declaring the element is enough to track `required`. -/
def covers (d : Declared) (required : Path) : Bool := d.path?.any fun p => p.covers required

end Declared

section

variable (src : Source)

/-- The root of a chain of plain properties with the properties in the order of the text, none if
the expression is no such chain. -/
def memberChain? (n : Node) : Option (Node × List String) :=
  match n.unwrap.kind with
  | .identifier => some (n.unwrap, [])
  | .memberExpression =>
    match _h : n.unwrap.child? .object, n.unwrap.child? .property with
    | some object, some property =>
      if property.kind = .propertyIdentifier then
        (memberChain? object).map fun c => (c.1, c.2 ++ [src.textOf property])
      else none
    | _, _ => none
  | _ => none
termination_by sizeOf n
decreasing_by
  exact Nat.lt_of_lt_of_le (Node.sizeOf_child? (by assumption)) (Node.sizeOf_unwrap_le n)

/-- What an element names: the binding that its root resolved to on the walk, or a global. -/
def targetOf (t : Tree) (element : Node) : Target :=
  match memberChain? src element with
  | none => .complex
  | some (root, path) =>
    match (t.useAt? root).bind t.bindingOf? with
    | some b => .binding ⟨b, path, element.start⟩
    | none => .global (src.textOf root) path

/-- An element of a dependency array. -/
def declaredOf (t : Tree) (element : Node) : Declared :=
  ⟨element, src.textOf element, targetOf src t element⟩

end

end HookLint.Dependency
