import HookLint.Scope.Walk

/-!
# Tree — the scopes of a program, and what its names mean

Giving names their meaning is a fold of `Tree.step` over the events of the walk.  A use resolves
when it is met, against the tables as they are then; it is recorded with the scope it stands in, and
the binding it resolves to keeps note of it.
-/

namespace HookLint.Scope

open Syntax

/-- A name in the place of a value, and the binding it resolved to. -/
structure Use where
  cursor : Cursor
  name : String
  binding : Option Nat
  scope : Nat
  access : Access

/-- The identifier of the use. -/
abbrev Use.node (u : Use) : Node := u.cursor.node

/-- A call with the scope it stands in. -/
structure CallSite where
  node : Node
  scope : Nat

/-- The scopes and bindings of a program with the uses and calls met on the walk, oldest first. -/
structure Tree where
  store : Store := {}
  uses : Array Use := #[]
  calls : Array CallSite := #[]

namespace Tree

/-- The tree after one more event.  An event that needs an open scope changes nothing without
one. -/
def step (src : Source) (t : Tree) : Event → Tree
  | .enter kind node => { t with store := t.store.enter kind node }
  | .leave =>
    match t.store.exit with
    | .ok store => { t with store }
    | .error _ => t
  | .declare d =>
    match t.store.declare d none with
    | .ok store => { t with store }
    | .error _ => t
  | .use c access =>
    match t.store.open? with
    | .ok scope =>
      let name := src.textOf c.node
      let binding := t.store.resolveFrom name scope
      { t with
        uses := t.uses.push ⟨c, name, binding, scope, access⟩
        store := binding.elim t.store fun b => t.store.noteUse b t.uses.size access.writes }
    | .error _ => t
  | .call node =>
    match t.store.open? with
    | .ok scope => { t with calls := t.calls.push ⟨node, scope⟩ }
    | .error _ => t

/-- The tree of a program. -/
def ofProgram (src : Source) (root : Node) : Tree :=
  (moduleEvents src root).foldl (step src) {}

/-- The binding with the given number. -/
def binding? (t : Tree) (id : Nat) : Option Binding := t.store.bindings[id]?

/-- The binding that a use resolved to. -/
def bindingOf? (t : Tree) (u : Use) : Option Binding := u.binding.bind t.binding?

/-- The use recorded for a node; the last one, if several have its key. -/
def useAt? (t : Tree) (n : Node) : Option Use :=
  t.uses.toList.reverse.find? fun u => u.node.key = n.key

/-- The scope that a node opened; the last one, if several have its key. -/
def scopeOf? (t : Tree) (n : Node) : Option Frame :=
  t.store.scopes.toList.reverse.find? fun s => s.node.key = n.key

/-- The uses within the byte range of a node, in the order of the walk. -/
def usesWithin (t : Tree) (n : Node) : List Use := t.uses.toList.filter fun u => n.contains u.node

/-- The uses that resolved to a binding. -/
def usesOf (t : Tree) (b : Binding) : List Use := b.uses.toList.filterMap fun i => t.uses[i]?

/-- The node of the scope that a binding belongs to. -/
def scopeNode? (t : Tree) (b : Binding) : Option Node := t.store.scopes[b.scope]?.map (·.node)

end Tree
end HookLint.Scope
