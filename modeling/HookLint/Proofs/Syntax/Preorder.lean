import HookLint.Data.Attach
import HookLint.Proofs.Syntax.Descent
import HookLint.Proofs.Syntax.Layout
import Mathlib.Data.List.Basic
import Mathlib.Data.List.Flatten

/-!
# Proofs.Syntax.Preorder — the nodes of a tree in the order of the text

`n.preorder` lists a node and all nodes below it, each before its children and the children in
turn.  In a well-formed tree a node that is listed later lies inside of an earlier one or after it
(`pairwise_preorder`), so going through a tree in this order is going through its text.

Children that are asked for by their fields come in this order too if the fields stand in the order
in which they are asked for.  `n.fieldRow` are the fields of a node whose order matters, and
`n.FieldsInOrder` says that the children under these fields stand in that order
(`fieldRow_sublist`).
-/

namespace HookLint.Syntax.Node

/-! ### All nodes of a tree -/

/-- A node with all nodes below it, parents first. -/
def preorder (n : Node) : List Node := n :: n.children.attach.flatMap fun c => preorder c.1
termination_by sizeOf n
decreasing_by exact sizeOf_of_mem_children c.2

theorem preorder_eq (n : Node) : n.preorder = n :: n.children.flatMap preorder := by
  rw [preorder]
  exact congrArg (n :: ·) (flatMap_attach fun _ => rfl)

theorem preorder_of_children_nil {n : Node} (h : n.children = []) : n.preorder = [n] := by
  rw [preorder_eq, h, List.flatMap_nil]

theorem singleton_sublist_preorder (n : Node) : [n].Sublist n.preorder := by
  rw [preorder_eq]
  exact (List.nil_sublist _).cons_cons n

theorem self_mem_preorder (n : Node) : n ∈ n.preorder :=
  (singleton_sublist_preorder n).subset (List.mem_singleton_self n)

theorem mem_preorder_of_mem_children {root n c : Node} (hn : n ∈ root.preorder)
    (hc : c ∈ n.children) : c ∈ root.preorder := by
  rw [preorder_eq] at hn ⊢
  refine List.mem_cons_of_mem _ ?_
  rcases List.mem_cons.mp hn with rfl | hn
  · exact List.mem_flatMap.mpr ⟨c, hc, self_mem_preorder c⟩
  · obtain ⟨d, hd, hn⟩ := List.mem_flatMap.mp hn
    have hsize := sizeOf_of_mem_children hd
    exact List.mem_flatMap.mpr ⟨d, hd, mem_preorder_of_mem_children hn hc⟩
termination_by sizeOf root

/-- All nodes of a tree are listed. -/
theorem all_mem_preorder (root : Node) : root.All (· ∈ root.preorder) := by
  have hall : ∀ n ∈ root.preorder, n.All (· ∈ root.preorder) := by
    intro n hn
    induction hsize : sizeOf n using Nat.strongRecOn generalizing n with
    | ind size ih =>
      refine .intro hn fun c hc => ih _ ?_ c (mem_preorder_of_mem_children hn hc) rfl
      have := sizeOf_of_mem_children hc
      omega
  exact hall root (self_mem_preorder root)

/-- A way through a tree leads along nodes that are listed. -/
theorem mem_preorder_of_leads {root : Node} {c : Cursor}
    (h : Cursor.Leads (fun _ => True) ⟨root, []⟩ c) :
    c.node ∈ root.preorder ∧ ∀ a ∈ c.ancestors, a ∈ root.preorder := by
  induction h with
  | refl => exact ⟨self_mem_preorder root, fun a ha => nomatch ha⟩
  | down _ _ hn ih =>
    refine ⟨mem_preorder_of_mem_children ih.1 hn, fun a ha => ?_⟩
    rcases List.mem_cons.mp ha with rfl | ha
    · exact ih.1
    · exact ih.2 a ha

theorem children_sublist_preorder (n : Node) : (n.children.flatMap preorder).Sublist n.preorder := by
  rw [preorder_eq]
  exact List.sublist_cons_self _ _

theorem WellFormed.contains_preorder {n m : Node} (h : n.WellFormed) (hm : m ∈ n.preorder) :
    n.contains m = true := by
  rw [preorder_eq] at hm
  rcases List.mem_cons.mp hm with rfl | hm
  · exact contains_self m
  · obtain ⟨c, hc, hm⟩ := List.mem_flatMap.mp hm
    have hsize := sizeOf_of_mem_children hc
    exact contains_trans (h.contains_child hc) ((h.child hc).contains_preorder hm)
termination_by sizeOf n

/-- **The order of the nodes is the order of the text**: what comes later lies inside or behind. -/
theorem WellFormed.pairwise_preorder {n : Node} (h : n.WellFormed) :
    n.preorder.Pairwise fun a b => a.contains b = true ∨ a.stop ≤ b.start := by
  rw [preorder_eq]
  refine List.pairwise_cons.mpr ⟨fun m hm => ?_, List.pairwise_flatMap.mpr ⟨fun c hc => ?_, ?_⟩⟩
  · -- all nodes below lie inside
    refine Or.inl (h.contains_preorder ?_)
    rw [preorder_eq]
    exact List.mem_cons_of_mem _ hm
  · have hsize := sizeOf_of_mem_children hc
    exact (h.child hc).pairwise_preorder
  · -- the nodes below one child lie behind those below an earlier one
    refine h.ordered.imp_of_mem fun {a b} ha hb hab x hx y hy => Or.inr ?_
    have hxa := contains_iff.mp ((h.child ha).contains_preorder hx)
    have hyb := contains_iff.mp ((h.child hb).contains_preorder hy)
    omega
termination_by sizeOf n

/-! ### Fields in order -/

/-- The field under which the parameters of a function stand. -/
def parametersField (n : Node) : Field :=
  if (n.child? .parameters).isSome then .parameters else .parameter

/-- Whether a node is a method with a computed name. -/
def hasComputedName (n : Node) : Bool :=
  n.kind = .methodDefinition && (n.child? .name).any fun name => name.kind = .computedName

/-- The fields of a node whose order matters, in that order: the left side before the right side, the
key before the value, the name before the value, the computed name before the parameters and these
before the body, the parameter of a catch clause before its body. -/
def fieldRow (n : Node) : List Field :=
  match n.kind with
  | .assignment | .augmentedAssignment | .assignmentPattern | .objectAssignmentPattern =>
    [.left, .right]
  | .pairPattern => [.key, .value]
  | .variableDeclarator => [.name, .value]
  | .catchClause => [.parameter, .body]
  | kind =>
    if kind.isFunction then
      (if n.hasComputedName then [.name] else []) ++ [n.parametersField, .body]
    else []

/-- The place of the child with the given field among the children. -/
def position? (n : Node) (f : Field) : Option Nat :=
  n.children.findIdx? fun c => c.field = some f

/-- The children under the fields whose order matters stand in that order. -/
def FieldsInOrder (n : Node) : Prop := (n.fieldRow.filterMap n.position?).Pairwise (· < ·)

instance : DecidablePred FieldsInOrder := fun n =>
  inferInstanceAs (Decidable ((n.fieldRow.filterMap n.position?).Pairwise (· < ·)))

theorem fieldRow_nodup (n : Node) : n.fieldRow.Nodup := by
  have hparameters : n.parametersField = .parameters ∨ n.parametersField = .parameter := by
    unfold parametersField
    split
    · exact Or.inl rfl
    · exact Or.inr rfl
  unfold fieldRow
  split
  · decide
  · decide
  · decide
  · decide
  · decide
  · decide
  · decide
  · split
    · rcases hparameters with hp | hp <;> rw [hp] <;> split <;> decide
    · exact List.nodup_nil

/-- Entries of a list at rising positions are a sublist of it. -/
theorem filterMap_getElem?_sublist {α : Type} (l : List α) {is : List Nat}
    (h : is.Pairwise (· < ·)) : (is.filterMap fun i => l[i]?).Sublist l := by
  let index? (i : Nat) : Option (Fin l.length) := if hi : i < l.length then some ⟨i, hi⟩ else none
  have hrising : (is.filterMap index?).Pairwise (· < ·) := by
    refine List.pairwise_filterMap.mpr (h.imp fun {i j} hij a ha b hb => ?_)
    obtain ⟨hi, ha⟩ := Option.dite_none_right_eq_some.mp ha
    obtain ⟨hj, hb⟩ := Option.dite_none_right_eq_some.mp hb
    rw [← Option.some.inj ha, ← Option.some.inj hb]
    exact hij
  have heq : (is.filterMap fun i => l[i]?) = (is.filterMap index?).map fun i => l[i] := by
    rw [List.map_filterMap]
    refine List.filterMap_congr fun i _ => ?_
    by_cases hi : i < l.length <;> simp [index?, hi]
  rw [heq]
  exact List.map_getElem_sublist hrising

/-- Children under fields in order stand in order. -/
theorem fieldRow_sublist {n : Node} (h : n.FieldsInOrder) :
    (n.fieldRow.filterMap n.child?).Sublist n.children := by
  have heq : n.fieldRow.filterMap n.child? =
      (n.fieldRow.filterMap n.position?).filterMap fun i => n.children[i]? := by
    rw [List.filterMap_filterMap]
    exact List.filterMap_congr fun f _ => List.find?_eq_bind_findIdx?_getElem?
  rw [heq]
  exact filterMap_getElem?_sublist _ h

end HookLint.Syntax.Node
