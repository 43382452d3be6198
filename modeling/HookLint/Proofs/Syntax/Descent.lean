import HookLint.Syntax.Cursor

/-!
# Proofs.Syntax.Descent — the way from a node to a part of it

`c.Leads P d` says that the cursor `d` is `c` or is reached from it by going down to children, and
that the kinds of all nodes that are left behind satisfy `P`.  The way is part of the cursor: what
encloses `d` is what encloses `c`, with the nodes left behind on top.

`Node.All P n` says that a property holds at every node of a tree, so it holds wherever a way
through the tree leads.
-/

namespace HookLint.Syntax

/-- A property holds at every node of a tree. -/
inductive Node.All (P : Node → Prop) : Node → Prop where
  | intro {n : Node} (self : P n) (children : ∀ c ∈ n.children, Node.All P c) : Node.All P n

/-- What can be checked at each node can be checked at all of them. -/
def Node.decideAll {P : Node → Prop} [DecidablePred P] (n : Node) : Decidable (n.All P) :=
  haveI : ∀ c : { c // c ∈ n.children }, Decidable (c.1.All P) := fun c => decideAll c.1
  decidable_of_iff (P n ∧ ∀ c ∈ n.children.attach, c.1.All P)
    ⟨fun h => .intro h.1 fun c hc => h.2 ⟨c, hc⟩ (List.mem_attach _ _),
      fun h => by
        obtain ⟨hself, hchildren⟩ := h
        exact ⟨hself, fun c _ => hchildren c.1 c.2⟩⟩
termination_by sizeOf n
decreasing_by exact sizeOf_of_mem_children c.2

instance {P : Node → Prop} [DecidablePred P] (n : Node) : Decidable (n.All P) := n.decideAll

namespace Node.All

variable {P : Node → Prop} {n c : Node}

theorem self (h : n.All P) : P n := by
  obtain ⟨h, -⟩ := h
  exact h

theorem child (h : n.All P) (hc : c ∈ n.children) : c.All P := by
  obtain ⟨-, h⟩ := h
  exact h c hc

theorem child? (h : n.All P) {f : Field} (hc : n.child? f = some c) : c.All P :=
  h.child (mem_children_of_child? hc)

theorem unwrap (h : n.All P) : n.unwrap.All P := by
  fun_induction Node.unwrap n with
  | case1 n _ inner hin ih =>
    have hmem : inner ∈ n.elements := by simp [hin]
    exact ih (h.child (mem_children_of_mem_elements hmem))
  | case2 => exact h
  | case3 => exact h

end Node.All

namespace Cursor

/-- `d` is `c`, or is reached from it by way of nodes whose kinds satisfy `P`. -/
inductive Leads (P : Kind → Prop) (c : Cursor) : Cursor → Prop where
  | refl : Leads P c c
  | down {d : Cursor} {n : Node} : Leads P c d → P d.kind → n ∈ d.node.children →
      Leads P c (d.down n)

namespace Leads

variable {P Q : Kind → Prop} {c d e : Cursor}

theorem mono (h : c.Leads P d) (hPQ : ∀ k, P k → Q k) : c.Leads Q d := by
  induction h with
  | refl => exact refl
  | down _ hk hn ih => exact down ih (hPQ _ hk) hn

theorem trans (h₁ : c.Leads P d) (h₂ : d.Leads P e) : c.Leads P e := by
  induction h₂ with
  | refl => exact h₁
  | down _ hk hn ih => exact down ih hk hn

theorem mem_children (hk : P c.kind) (h : d ∈ c.children) : c.Leads P d := by
  obtain ⟨n, hn, rfl⟩ := List.mem_map.mp h
  exact down refl hk hn

theorem ancestors_ne_nil (h : c.Leads P d) (hc : c.ancestors ≠ []) : d.ancestors ≠ [] := by
  cases h with
  | refl => exact hc
  | down _ _ _ => exact List.cons_ne_nil _ _

/-- What holds at every node of a tree holds wherever a way through it leads. -/
theorem all (h : c.Leads P d) {R : Node → Prop} (hc : c.node.All R) : d.node.All R := by
  induction h with
  | refl => exact hc
  | down _ _ hn ih => exact ih.child hn

end Leads

variable {c d : Cursor} {f : Field}

theorem mem_children_of_child? (h : c.child? f = some d) : d ∈ c.children := by
  obtain ⟨n, hn, rfl⟩ := Option.map_eq_some_iff.mp h
  exact List.mem_map_of_mem (Node.mem_children_of_child? hn)

theorem mem_children_of_mem_namedChildren (h : d ∈ c.namedChildren) : d ∈ c.children := by
  obtain ⟨n, hn, rfl⟩ := List.mem_map.mp h
  exact List.mem_map_of_mem (Node.mem_children_of_mem_namedChildren hn)

theorem mem_children_of_mem_elements (h : d ∈ c.elements) : d ∈ c.children := by
  obtain ⟨n, hn, rfl⟩ := List.mem_map.mp h
  exact List.mem_map_of_mem (Node.mem_children_of_mem_elements hn)

/-- The way through parentheses. -/
theorem leads_unwrap {P : Kind → Prop} (hP : P .parenthesized) (c : Cursor) :
    c.Leads P c.unwrap := by
  fun_induction unwrap c with
  | case1 c hk inner hin ih =>
    have hmem : inner ∈ c.elements := by simp [hin]
    have hstep : c.Leads P inner :=
      Leads.mem_children (by rw [hk]; exact hP) (mem_children_of_mem_elements hmem)
    exact hstep.trans ih
  | case2 => exact Leads.refl
  | case3 => exact Leads.refl

end Cursor
end HookLint.Syntax
