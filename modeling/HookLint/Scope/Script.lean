import HookLint.Scope.Store

/-!
# Script — operations on a store, one after the other

A script drives a store by hand: it opens and closes scopes in any order, declares and resolves
names in the open scope or in any older one, and brackets parts of itself.  A bracket opens a scope
and runs its body; when it is left, by reaching its end or by a failure, the scope around it is open
again, whatever the body opened or closed.  An operation that is refused changes nothing, and the
script goes on.
-/

namespace HookLint.Scope

open Syntax

/-- One operation. -/
inductive Action where
  | enter (kind : ScopeKind) (node : Node)
  | exit
  | current
  | ancestors (scope : Nat)
  | region (scope : Nat)
  | declare (d : Declaration) (scope : Option Nat)
  | resolve (name : String) (scope : Option Nat)
  /-- Leaves the innermost bracket at once. -/
  | fail
  | bracket (kind : ScopeKind) (node : Node) (body : List Action)
deriving Inhabited

/-- What an operation answers. -/
inductive Answer where
  | entered (scope : Nat) (parent : Option Nat)
  | exited (current : Option Nat)
  | current (scope : Nat)
  | ancestors (chain : List Nat)
  | region (component : Nat) (scopes : List Nat)
  | declared (binding scope : Nat) (reassigned : Bool)
  | resolved (binding : Option Nat)
  | opened (scope : Nat)
  | closed (current : Option Nat)
  | refused (e : StoreError)

namespace Store

/-- The answer to a declaration: the binding that it made. -/
def newest (s : Store) : Answer :=
  match s.bindings.back? with
  | some b => .declared b.id b.scope b.reassigned
  | none => .refused .noScope

/-- An operation that is no bracket and no failure. -/
def perform (s : Store) : Action → Store × List Answer
  | .enter kind node => (s.enter kind node, [.entered s.scopes.size s.current])
  | .exit =>
    match s.exit with
    | .ok t => (t, [.exited t.current])
    | .error e => (s, [.refused e])
  | .current =>
    match s.open? with
    | .ok id => (s, [.current id])
    | .error e => (s, [.refused e])
  | .ancestors scope => (s, [.ancestors (s.ancestors scope)])
  | .region scope => (s, [.region (s.component scope) (s.region scope)])
  | .declare d scope =>
    match s.declare d scope with
    | .ok t => (t, [t.newest])
    | .error e => (s, [.refused e])
  | .resolve name scope =>
    match s.resolve name scope with
    | .ok b => (s, [.resolved b])
    | .error e => (s, [.refused e])
  | .fail | .bracket _ _ _ => (s, [])

/-- Runs a script up to its end or its first failure outside of brackets.  The answers of a bracket
stand between the opening and the closing of its scope. -/
def run (s : Store) : List Action → Store × List Answer
  | [] => (s, [])
  | .fail :: _ => (s, [])
  | .bracket kind node body :: rest =>
    let inner := run (s.enter kind node) body
    let closed := inner.1.close s.scopes.size
    let after := run closed rest
    (after.1, .opened s.scopes.size :: inner.2 ++ .closed closed.current :: after.2)
  | a :: rest =>
    let now := s.perform a
    let after := run now.1 rest
    (after.1, now.2 ++ after.2)

end Store
end HookLint.Scope
