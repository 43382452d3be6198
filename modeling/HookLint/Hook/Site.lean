import HookLint.Hook.Registry
import HookLint.Scope.Tree

/-!
# Site — the hook calls of a program

A call is a site if its callee is a known hook and the callback is there.  A spread in the place of
the callback hides what is passed, so such a call is none.
-/

namespace HookLint.Hook

open Syntax

/-- A call of a known hook.  `dependencies` is the argument after the callback, if there is one. -/
structure Site where
  name : String
  kind : HookKind
  node : Node
  callback : Node
  dependencies : Option Node
  scope : Nat

/-- Whether the callback is written in place, as a function. -/
def Site.hasInlineCallback (s : Site) : Bool := s.callback.kind.isFunctionValue

/-- The sites of a program by the keys of their calls, in the order of the walk. -/
abbrev Sites := Assoc Node.Key Site

/-- The site that a call is. -/
def Registry.classify? (r : Registry) (src : Source) (call : Scope.CallSite) : Option Site := do
  let name ← src.calleeName? call.node
  let shape ← r.lookup? name
  let callback ← call.node.arguments[shape.callbackIndex]?
  if callback.kind = .spreadElement then none
  else
    some {
      name, kind := shape.kind, node := call.node, callback, scope := call.scope
      dependencies := call.node.arguments[shape.callbackIndex + 1]? }

/-- The sites among the calls of a program.  Of two calls with one key the later one counts. -/
def Registry.sites (r : Registry) (src : Source) (t : Scope.Tree) : Sites :=
  t.calls.toList.foldl (fun m call =>
    match r.classify? src call with
    | some site => Assoc.put m call.node.key site
    | none => m) []

end HookLint.Hook
