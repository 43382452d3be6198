import HookLint.Syntax.Node

/-!
# Cursor — a node with the way up to the root

A cursor is a node together with the nodes around it, innermost first.  Looking upwards is needed
in one place only: how much of a member chain hangs off an identifier depends on what encloses it.
-/

namespace HookLint.Syntax

/-- A node and its ancestors, the parent first. -/
structure Cursor where
  node : Node
  ancestors : List Node := []
deriving Inhabited

namespace Cursor

/-- The kind of the node. -/
abbrev kind (c : Cursor) : Kind := c.node.kind

/-- The cursor of a part of the node. -/
def down (c : Cursor) (n : Node) : Cursor := ⟨n, c.node :: c.ancestors⟩

/-- The children, tokens included. -/
def children (c : Cursor) : List Cursor := c.node.children.map c.down

/-- The first child with the given field. -/
def child? (c : Cursor) (f : Field) : Option Cursor := (c.node.child? f).map c.down

/-- The children that are rules of the grammar. -/
def namedChildren (c : Cursor) : List Cursor := c.node.namedChildren.map c.down

/-- The named children without comments. -/
def elements (c : Cursor) : List Cursor := c.node.elements.map c.down

@[simp] theorem node_down (c : Cursor) (n : Node) : (c.down n).node = n := rfl

theorem sizeOf_of_mem_children {c d : Cursor} (h : d ∈ c.children) :
    sizeOf d.node < sizeOf c.node := by
  obtain ⟨n, hn, rfl⟩ := List.mem_map.mp h
  exact Node.sizeOf_of_mem_children hn

theorem sizeOf_child? {c d : Cursor} {f : Field} (h : c.child? f = some d) :
    sizeOf d.node < sizeOf c.node := by
  obtain ⟨n, hn, rfl⟩ := Option.map_eq_some_iff.mp h
  exact Node.sizeOf_child? hn

theorem sizeOf_of_mem_namedChildren {c d : Cursor} (h : d ∈ c.namedChildren) :
    sizeOf d.node < sizeOf c.node := by
  obtain ⟨n, hn, rfl⟩ := List.mem_map.mp h
  exact Node.sizeOf_of_mem_namedChildren hn

theorem sizeOf_of_mem_elements {c d : Cursor} (h : d ∈ c.elements) :
    sizeOf d.node < sizeOf c.node := by
  obtain ⟨n, hn, rfl⟩ := List.mem_map.mp h
  exact Node.sizeOf_of_mem_elements hn

/-- The expression inside any number of parentheses. -/
def unwrap (c : Cursor) : Cursor :=
  if c.kind = .parenthesized then
    match _h : c.elements with
    | [inner] => inner.unwrap
    | _ => c
  else c
termination_by sizeOf c.node
decreasing_by exact sizeOf_of_mem_elements (by simp [*])

theorem sizeOf_unwrap_le (c : Cursor) : sizeOf c.unwrap.node ≤ sizeOf c.node := by
  fun_induction unwrap c with
  | case1 c _ inner h ih =>
    have := sizeOf_of_mem_elements (c := c) (d := inner) (by simp [h])
    omega
  | case2 => exact Nat.le_refl _
  | case3 => exact Nat.le_refl _

end Cursor
end HookLint.Syntax
