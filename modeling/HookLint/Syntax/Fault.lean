import HookLint.Syntax.Source

/-!
# Fault — the first syntax error of a tree

A tree whose root is marked broken holds an error node or a token that the parser had to supply.
The first of them in document order is reported.  Only marked subtrees are searched: those that are
still to be looked at wait on a stack.
-/

namespace HookLint.Syntax

/-- What is wrong with a text that does not parse. -/
inductive Fault where
  /-- A token of the given kind is missing. -/
  | missing (kind : Kind) (place : Position)
  /-- The text at the position fits no rule. -/
  | unexpected (place : Position)
  /-- The tree is marked broken, but holds no fault. -/
  | unlocated
deriving DecidableEq

namespace Node

/-- Whether the node itself is a fault. -/
def isFault (n : Node) : Bool := n.kind = .error || n.missing

/-- Whether the node, or the tree below it, may hold a fault. -/
def isMarked (n : Node) : Bool := n.broken || n.missing

/-- The children that may hold a fault. -/
def markedChildren (n : Node) : List Node := n.children.filter isMarked

theorem sizeOf_filter_append_le (p : Node → Bool) (row stack : List Node) :
    sizeOf (row.filter p ++ stack) ≤ sizeOf row + sizeOf stack := by
  induction row with
  | nil => exact Nat.le_add_left _ _
  | cons n row ih =>
    rw [List.filter_cons, List.cons.sizeOf_spec]
    split
    · rw [List.cons_append, List.cons.sizeOf_spec]
      omega
    · omega

theorem sizeOf_markedChildren_append_lt (n : Node) (stack : List Node) :
    sizeOf (n.markedChildren ++ stack) < sizeOf (n :: stack) := by
  cases n with
  | mk kind field named missing broken start stop children =>
    have hle := sizeOf_filter_append_le isMarked children stack
    simp only [markedChildren, List.cons.sizeOf_spec, Node.mk.sizeOf_spec]
    omega

/-- The first fault on a stack of subtrees.  Unless the topmost one is itself a fault, its marked
children take its place, the first of them on top. -/
def firstFaultOn? : List Node → Option Node
  | [] => none
  | n :: stack => if n.isFault then some n else firstFaultOn? (n.markedChildren ++ stack)
termination_by stack => sizeOf stack
decreasing_by exact sizeOf_markedChildren_append_lt n stack

/-- The first fault of the tree in document order, looking into marked subtrees only. -/
def firstFault? (n : Node) : Option Node := firstFaultOn? [n]

end Node

namespace Fault

/-- The fault of a tree over its source: none unless the root is marked broken. -/
def ofTree? (src : Source) (root : Node) : Option Fault :=
  if root.broken then
    match root.firstFault? with
    | some n =>
      let p := src.position n.start
      some (if n.missing then .missing n.kind p else .unexpected p)
    | none => some .unlocated
  else none

/-- The wording of a fault. -/
def message : Fault → String
  | .missing kind p => "missing " ++ kind.name ++ located p
  | .unexpected p => "unexpected syntax" ++ located p
  | .unlocated => "syntax error"
where
  located (p : Position) : String :=
    " at line " ++ toString p.line ++ ", column " ++ toString p.column

end Fault
end HookLint.Syntax
