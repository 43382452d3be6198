import HookLint.Syntax.Kind

/-!
# Node — syntax trees

A tree is given, never parsed here: every node carries its kind, its byte range in the source, the
field under which its parent finds it, and its children, anonymous tokens included.  Recursion over
a tree ends because every part of a node is smaller than the node (`sizeOf_child?`,
`sizeOf_of_mem_elements`, `sizeOf_unwrap_le`).
-/

namespace HookLint.Syntax

/-- A node of a syntax tree.  `stop` is the offset after the last byte; `named` tells rules of the
grammar from tokens, `missing` marks a token that the parser supplied, and `broken` says that the
tree below holds an error. -/
structure Node where
  kind : Kind
  field : Option Field := none
  named : Bool := true
  missing : Bool := false
  broken : Bool := false
  start : Nat := 0
  stop : Nat := 0
  children : List Node := []
deriving Inhabited

namespace Node

/-- What tells nodes of one tree apart: the range and the kind. -/
structure Key where
  start : Nat
  stop : Nat
  kind : Kind
deriving DecidableEq

/-- The key of a node. -/
def key (n : Node) : Key := ⟨n.start, n.stop, n.kind⟩

/-- Whether `inner` lies within the byte range of `outer`. -/
def contains (outer inner : Node) : Bool :=
  decide (outer.start ≤ inner.start) && decide (inner.stop ≤ outer.stop)

/-- The first child with the given field. -/
def child? (n : Node) (f : Field) : Option Node := n.children.find? fun c => c.field = some f

/-- The children that are rules of the grammar. -/
def namedChildren (n : Node) : List Node := n.children.filter fun c => c.named

/-- The named children without comments: the elements of an array, an argument list, a pattern. -/
def elements (n : Node) : List Node := n.namedChildren.filter fun c => c.kind ≠ .comment

/-! ### Parts are smaller -/

theorem sizeOf_of_mem_children {n c : Node} (h : c ∈ n.children) : sizeOf c < sizeOf n := by
  cases n with
  | mk kind field named missing broken start stop children =>
    have : sizeOf c < sizeOf children := List.sizeOf_lt_of_mem h
    simp only [Node.mk.sizeOf_spec]
    omega

theorem mem_children_of_child? {n c : Node} {f : Field} (h : n.child? f = some c) :
    c ∈ n.children := List.mem_of_find?_eq_some h

theorem sizeOf_child? {n c : Node} {f : Field} (h : n.child? f = some c) : sizeOf c < sizeOf n :=
  sizeOf_of_mem_children (mem_children_of_child? h)

theorem mem_children_of_mem_namedChildren {n c : Node} (h : c ∈ n.namedChildren) :
    c ∈ n.children := (List.mem_filter.mp h).1

theorem mem_children_of_mem_elements {n c : Node} (h : c ∈ n.elements) : c ∈ n.children :=
  mem_children_of_mem_namedChildren (List.mem_filter.mp h).1

theorem sizeOf_of_mem_namedChildren {n c : Node} (h : c ∈ n.namedChildren) :
    sizeOf c < sizeOf n := sizeOf_of_mem_children (mem_children_of_mem_namedChildren h)

theorem sizeOf_of_mem_elements {n c : Node} (h : c ∈ n.elements) : sizeOf c < sizeOf n :=
  sizeOf_of_mem_children (mem_children_of_mem_elements h)

/-! ### Parentheses -/

/-- The expression inside any number of parentheses.  Parentheses around several expressions, or
around none, stay. -/
def unwrap (n : Node) : Node :=
  if n.kind = .parenthesized then
    match _h : n.elements with
    | [inner] => inner.unwrap
    | _ => n
  else n
termination_by sizeOf n
decreasing_by exact sizeOf_of_mem_elements (by simp [*])

theorem sizeOf_unwrap_le (n : Node) : sizeOf n.unwrap ≤ sizeOf n := by
  fun_induction unwrap n with
  | case1 n _ inner h ih =>
    have := sizeOf_of_mem_elements (n := n) (c := inner) (by simp [h])
    omega
  | case2 => exact Nat.le_refl _
  | case3 => exact Nat.le_refl _

end Node
end HookLint.Syntax
