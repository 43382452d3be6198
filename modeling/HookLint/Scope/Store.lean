import HookLint.Data.Assoc
import HookLint.Scope.Declaration

/-!
# Store — scopes, bindings and the scope that is open

A store numbers scopes and bindings in the order in which they are made.  Each scope has a table
from names to bindings; a second declaration of a name in one scope takes over its entry.  Names
resolve outwards along the chain of enclosing scopes, which ends because a scope is entered inside
an older one.
-/

namespace HookLint.Scope

open Syntax

/-- What kind of region a scope covers. -/
inductive ScopeKind where
  | module | function | block
deriving DecidableEq, Repr

/-- A scope: a region of the program, with the names declared in it and the scope around it. -/
structure Frame where
  id : Nat
  kind : ScopeKind
  node : Node
  parent : Option Nat
  names : Assoc String Nat := []

/-- A declaration that took its place in a scope.  `uses` holds the numbers of the uses that
resolved to it; it is `reassigned` if one of them writes it, or if it is initialized where the scope
had the name already. -/
structure Binding extends Declaration where
  id : Nat
  scope : Nat
  reassigned : Bool
  uses : Array Nat := #[]

/-- All scopes and bindings made so far, and the scope that is open. -/
structure Store where
  scopes : Array Frame := #[]
  bindings : Array Binding := #[]
  current : Option Nat := none

/-- Why an operation on a store is refused. -/
inductive StoreError where
  | noScope
deriving DecidableEq, Repr

/-- The wording of a refusal. -/
def StoreError.message : StoreError → String
  | .noScope => "no scope has been entered"

namespace Store

/-- The number of the open scope. -/
def open? (s : Store) : Except StoreError Nat :=
  match s.current with
  | some id => .ok id
  | none => .error .noScope

/-- The scope around a scope. -/
def parent? (s : Store) (id : Nat) : Option Nat := s.scopes[id]?.bind (·.parent)

/-- Opens a scope inside the one that is open. -/
def enter (s : Store) (kind : ScopeKind) (node : Node) : Store :=
  { s with
    scopes := s.scopes.push ⟨s.scopes.size, kind, node, s.current, []⟩
    current := some s.scopes.size }

/-- Closes the scope `entered`, whatever was opened or closed since: the scope around it is open
again. -/
def close (s : Store) (entered : Nat) : Store := { s with current := s.parent? entered }

/-- Closes the open scope. -/
def exit (s : Store) : Except StoreError Store :=
  match s.current with
  | some id => .ok (s.close id)
  | none => .error .noScope

/-- The scope with its enclosing scopes, innermost first. -/
def ancestors (s : Store) (id : Nat) : List Nat :=
  match s.parent? id with
  | some p => if p < id then id :: s.ancestors p else [id]
  | none => [id]
termination_by id

/-- The binding of a name in the table of one scope. -/
def lookup (s : Store) (name : String) (scope : Nat) : Option Nat :=
  s.scopes[scope]?.bind fun sc => Assoc.get? sc.names name

/-- The binding of a name as seen from a scope: its entry in the table there, or else what it is as
seen from the scope around. -/
def resolveFrom (s : Store) (name : String) (scope : Nat) : Option Nat :=
  match s.lookup name scope with
  | some binding => some binding
  | none =>
    match s.parent? scope with
    | some p => if p < scope then s.resolveFrom name p else none
    | none => none
termination_by scope

/-- The binding of a name as seen from the given scope, or from the open one. -/
def resolve (s : Store) (name : String) (scope : Option Nat) : Except StoreError (Option Nat) :=
  match scope with
  | some id => .ok (s.resolveFrom name id)
  | none => s.open?.map (s.resolveFrom name)

/-- Declares a name in a scope, over an earlier binding of the name there. -/
def declareIn (s : Store) (d : Declaration) (scope : Nat) : Store :=
  { s with
    bindings := s.bindings.push
      { toDeclaration := d, id := s.bindings.size, scope,
        reassigned := (s.lookup d.name scope).isSome && d.init.isSome }
    scopes := s.scopes.modify scope fun sc =>
      { sc with names := Assoc.put sc.names d.name s.bindings.size } }

/-- Declares a name in the given scope, or in the open one. -/
def declare (s : Store) (d : Declaration) (scope : Option Nat) : Except StoreError Store :=
  match scope with
  | some id => .ok (s.declareIn d id)
  | none => s.open?.map (s.declareIn d)

/-- Notes that the use numbered `use` resolved to a binding, and whether it writes it. -/
def noteUse (s : Store) (binding use : Nat) (writes : Bool) : Store :=
  { s with
    bindings := s.bindings.modify binding fun b =>
      { b with uses := b.uses.push use, reassigned := b.reassigned || writes } }

/-! ### Components

A component is the nearest function around a scope, or the module.  What changes between two of its
renders are the values of the scopes from the scope in question up to the component. -/

/-- Whether a scope is that of a function or a module. -/
def isComponent (s : Store) (id : Nat) : Bool :=
  match s.scopes[id]? with
  | some sc => sc.kind = .function || sc.kind = .module
  | none => false

/-- The nearest enclosing function or module, the scope itself if there is none. -/
def component (s : Store) (id : Nat) : Nat := ((s.ancestors id).find? s.isComponent).getD id

/-- The scopes from `id` up to the component, both included. -/
def region (s : Store) (id : Nat) : List Nat :=
  (s.ancestors id).takeWhile (· ≠ s.component id) ++ [s.component id]

end Store
end HookLint.Scope
