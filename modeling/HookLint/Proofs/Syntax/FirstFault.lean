import HookLint.Proofs.Syntax.Preorder
import HookLint.Syntax.Fault

/-!
# Proofs.Syntax.FirstFault — the search for a fault follows the text

The search keeps a stack of subtrees.  Its invariant: what is still unread of the document is the
nodes of the subtrees on the stack, from the top downwards (`firstFaultOn?_eq_find?`).  One step
takes a node off and puts its marked children on; the unmarked ones are left out, and nothing is
missed if the marks are right, since a subtree without a mark then holds no fault
(`find?_markedChildren`).
-/

namespace HookLint.Syntax

namespace Node

variable {n : Node} {stack : List Node}

/-- The node is marked broken exactly if it, or a node below it, is a fault. -/
def RightlyMarked (n : Node) : Prop := n.broken = true ↔ ∃ m ∈ n.preorder, m.isFault = true

instance : DecidablePred RightlyMarked := fun n =>
  inferInstanceAs (Decidable (n.broken = true ↔ ∃ m ∈ n.preorder, m.isFault = true))

/-- A subtree without a mark holds no fault. -/
theorem RightlyMarked.find?_preorder (h : n.RightlyMarked) (hn : n.isMarked = false) :
    n.preorder.find? isFault = none := by
  have hbroken : n.broken = false := (Bool.or_eq_false_iff.mp hn).1
  refine List.find?_eq_none.mpr fun m hm hfault => ?_
  have := h.mpr ⟨m, hm, hfault⟩
  rw [hbroken] at this
  cases this

/-- What the unmarked subtrees of a row hold does not matter to the search. -/
theorem find?_filter_isMarked {row : List Node} (h : ∀ c ∈ row, c.RightlyMarked) :
    ((row.filter isMarked).flatMap preorder).find? isFault =
      (row.flatMap preorder).find? isFault := by
  induction row with
  | nil => rfl
  | cons c row ih =>
    have hrow := ih fun d hd => h d (List.mem_cons_of_mem _ hd)
    rw [List.filter_cons, List.flatMap_cons, List.find?_append]
    split
    · rw [List.flatMap_cons, List.find?_append, hrow]
    · next hc =>
      rw [(h c List.mem_cons_self).find?_preorder (Bool.eq_false_iff.mpr hc), Option.none_or, hrow]

/-- One step of the search: a node that is no fault may give way to its marked children. -/
theorem find?_markedChildren (hn : n.isFault = false) (h : ∀ c ∈ n.children, c.RightlyMarked) :
    ((n.markedChildren ++ stack).flatMap preorder).find? isFault =
      ((n :: stack).flatMap preorder).find? isFault := by
  have hskip : n.preorder.find? isFault = (n.children.flatMap preorder).find? isFault := by
    rw [preorder_eq, List.find?_cons_of_neg (by rw [hn]; exact Bool.false_ne_true)]
  rw [List.flatMap_append, List.find?_append, List.flatMap_cons, List.find?_append, hskip]
  unfold markedChildren
  rw [find?_filter_isMarked h]

/-- **The stack holds what is unread**: searching it is searching the nodes of its subtrees in the
order of the document. -/
theorem firstFaultOn?_eq_find? (h : ∀ n ∈ stack, n.All RightlyMarked) :
    firstFaultOn? stack = (stack.flatMap preorder).find? isFault := by
  fun_induction firstFaultOn? stack with
  | case1 => rfl
  | case2 n stack hn =>
    rw [List.flatMap_cons, preorder_eq, List.cons_append, List.find?_cons_of_pos hn]
  | case3 n stack hn ih =>
    have hall : n.All RightlyMarked := h n List.mem_cons_self
    have hstack : ∀ m ∈ n.markedChildren ++ stack, m.All RightlyMarked := by
      intro m hm
      rcases List.mem_append.mp hm with hm | hm
      · exact hall.child (List.mem_filter.mp hm).1
      · exact h m (List.mem_cons_of_mem _ hm)
    rw [ih hstack]
    exact find?_markedChildren (Bool.eq_false_iff.mpr hn) fun c hc => (hall.child hc).self

/-- A broken tree with right marks has a first fault, and the search finds it. -/
theorem exists_firstFault (h : n.All RightlyMarked) (hn : n.broken = true) :
    ∃ before m after, n.preorder = before ++ m :: after ∧ (∀ b ∈ before, b.isFault = false) ∧
      m.isFault = true ∧ n.firstFault? = some m := by
  have hsearch : n.firstFault? = n.preorder.find? isFault := by
    unfold firstFault?
    rw [firstFaultOn?_eq_find? (fun m hm => List.mem_singleton.mp hm ▸ h), List.flatMap_singleton]
  obtain ⟨m, hm⟩ : ∃ m, n.preorder.find? isFault = some m :=
    Option.isSome_iff_exists.mp (List.find?_isSome.mpr (h.self.mp hn))
  obtain ⟨hfault, before, after, hsplit, hbefore⟩ := List.find?_eq_some_iff_append.mp hm
  refine ⟨before, m, after, hsplit, fun b hb => ?_, hfault, hsearch.trans hm⟩
  exact Bool.not_eq_true' _ ▸ hbefore b hb

end Node

namespace Fault

/-- What is said of a node that is a fault. -/
def describe (src : Source) (n : Node) : String :=
  (if n.missing then "missing " ++ n.kind.name else "unexpected syntax") ++
    " at line " ++ toString (src.position n.start).line ++
    ", column " ++ toString (src.position n.start).column

/-- The descriptions start with letters of their own. -/
theorem head?_describe (src : Source) (n : Node) :
    (describe src n).toList.head? = some (if n.missing then 'm' else 'u') := by
  unfold describe
  cases n.missing with
  | true =>
    simp only [if_true, String.append_assoc]
    rw [String.toList_append]
    rfl
  | false =>
    simp only [Bool.false_eq_true, if_false, String.append_assoc]
    rw [String.toList_append]
    rfl

theorem describe_ne_unlocated (src : Source) (n : Node) : describe src n ≠ message .unlocated := by
  intro h
  have hhead := head?_describe src n
  rw [h, show (message .unlocated).toList.head? = some 's' from rfl] at hhead
  split at hhead <;> simp at hhead

theorem ofTree?_of_firstFault (src : Source) {root n : Node} (hroot : root.broken = true)
    (hn : root.firstFault? = some n) :
    (ofTree? src root).map message = some (describe src n) := by
  have hfound : ofTree? src root = some (if n.missing then .missing n.kind (src.position n.start)
      else .unexpected (src.position n.start)) := by
    unfold ofTree?
    rw [if_pos hroot, hn]
  have htext : describe src n =
      (if n.missing then "missing " ++ n.kind.name else "unexpected syntax") ++
        message.located (src.position n.start) := by
    unfold describe message.located
    simp only [String.append_assoc]
  rw [hfound, htext, Option.map_some]
  cases n.missing <;> rfl

theorem ofTree?_eq_none_iff {src : Source} {root : Node} :
    ofTree? src root = none ↔ root.broken = false := by
  unfold ofTree?
  cases root.broken with
  | false => exact iff_of_true (if_neg Bool.false_ne_true) rfl
  | true =>
    rw [if_pos rfl]
    cases root.firstFault? <;> exact iff_of_false (Option.some_ne_none _) Bool.noConfusion

/-- **The fault that is reported is the first of the document.**  A fault is reported exactly if the
root is marked broken.  If the marks are right, it is the first error node or missing token among
all nodes of the tree, parents before their children and children in turn, and the text of the
report describes it; so it is never the text for a fault without a place. -/
theorem reported_fault_first (src : Source) (root : Node) :
    (ofTree? src root = none ↔ root.broken = false) ∧
    (root.All Node.RightlyMarked → root.broken = true →
      ∃ before n after, root.preorder = before ++ n :: after ∧
        (∀ m ∈ before, m.isFault = false) ∧ n.isFault = true ∧
        (ofTree? src root).map message = some (describe src n) ∧
        (ofTree? src root).map message ≠ some (message .unlocated)) := by
  refine ⟨ofTree?_eq_none_iff, fun h hroot => ?_⟩
  obtain ⟨before, n, after, hsplit, hbefore, hfault, hfound⟩ := Node.exists_firstFault h hroot
  have htext := ofTree?_of_firstFault src hroot hfound
  refine ⟨before, n, after, hsplit, hbefore, hfault, htext, ?_⟩
  rw [htext]
  exact fun h => describe_ne_unlocated src n (Option.some.inj h)

/-- A statement, a block with an error that lacks its closing brace, and one more error:
`a;{? ?`. -/
def brokenProgram : Node :=
  { kind := .other "program", broken := true, start := 0, stop := 6
    children := [
      { kind := .other "expression_statement", start := 0, stop := 2
        children := [{ kind := .identifier, start := 0, stop := 1 }] },
      { kind := .statementBlock, broken := true, start := 2, stop := 4
        children := [
          tokenAt "\x7b" 2,
          { kind := .error, broken := true, start := 3, stop := 4 },
          { kind := .ofName "\x7d", named := false, missing := true, broken := true,
            start := 4, stop := 4 }] },
      { kind := .error, broken := true, start := 5, stop := 6 }] }

/-- Of the three faults the error inside of the block is reported. -/
theorem reported_fault_first_block :
    brokenProgram.All Node.RightlyMarked ∧ brokenProgram.broken = true ∧
    (ofTree? ⟨"a;\x7b? ?"⟩ brokenProgram).map message =
      some "unexpected syntax at line 1, column 4" ∧
    ∃ before n after, brokenProgram.preorder = before ++ n :: after ∧
      (∀ m ∈ before, m.isFault = false) ∧ n.isFault = true ∧
      (ofTree? ⟨"a;\x7b? ?"⟩ brokenProgram).map message = some (describe ⟨"a;\x7b? ?"⟩ n) ∧
      (ofTree? ⟨"a;\x7b? ?"⟩ brokenProgram).map message ≠ some (message .unlocated) := by
  have hmarks : brokenProgram.All Node.RightlyMarked := by decide +kernel
  exact ⟨hmarks, rfl, by decide +kernel, (reported_fault_first _ brokenProgram).2 hmarks rfl⟩

end Fault
end HookLint.Syntax
