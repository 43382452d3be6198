import HookLint.Scope.Store

/-!
# Path — a binding narrowed to a property

`props.user.id` depends on the binding of `props`, narrowed by the path `user`, `id`.  A declared
path covers a used one when it is a prefix of it: a change of the longer path is a change of the
shorter one.
-/

namespace HookLint.Dependency

open Scope

/-- A binding and the property path that narrows it; `offset` is where it is used first. -/
structure Path where
  binding : Binding
  path : List String
  offset : Nat

namespace Path

/-- The path as it is written: names divided by points. -/
def render (d : Path) : String := ".".intercalate (d.binding.name :: d.path)

/-- Whether declaring `d` is enough to track `e`. -/
def covers (d e : Path) : Bool := d.binding.id = e.binding.id && d.path.isPrefixOf e.path

end Path

/-- The longest common beginning of two paths. -/
def commonPrefix : List String → List String → List String
  | a :: as, b :: bs => if a = b then a :: commonPrefix as bs else []
  | _, _ => []

end HookLint.Dependency
