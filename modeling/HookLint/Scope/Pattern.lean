import HookLint.Data.Attach
import HookLint.Scope.Slot
import HookLint.Syntax.Cursor
import HookLint.Syntax.Source

/-!
# Pattern — the names and expressions of a binding pattern

A pattern binds names and evaluates expressions: default values, computed keys, and the member
targets of assignments.  `parts` lists both in the order of the text.  The walk into a pattern is
one step at a time: `pieces` says what the pattern itself contributes and which smaller patterns
are left, and `parts` unfolds it.
-/

namespace HookLint.Scope

open Syntax

/-- What a pattern contributes. -/
inductive Part where
  /-- A bound name and the part of the value that it receives. -/
  | target (name : Cursor) (slot : Slot)
  /-- An expression that the pattern evaluates. -/
  | expression (c : Cursor)

/-- One step into a pattern: a part of it, or a smaller pattern with the slot it stands in. -/
inductive Piece where
  | part (p : Part)
  | inner (c : Cursor) (slot : Option Slot)

/-- The elements of an array pattern, each with the number of commas before it. -/
def placed : Nat → List Cursor → List (Nat × Cursor)
  | _, [] => []
  | k, c :: cs =>
    if c.kind = .comma then placed (k + 1) cs
    else if c.node.named ∧ c.kind ≠ .comment then (k, c) :: placed k cs
    else placed k cs

theorem mem_of_mem_placed {k j : Nat} {c : Cursor} {cs : List Cursor} (h : (j, c) ∈ placed k cs) :
    c ∈ cs := by
  induction cs generalizing k with
  | nil => simp [placed] at h
  | cons d cs ih =>
    rw [placed] at h
    split at h
    · exact List.mem_cons_of_mem _ (ih h)
    · split at h
      · rcases List.mem_cons.mp h with h | h
        · obtain ⟨-, rfl⟩ := Prod.mk.inj h
          simp
        · exact List.mem_cons_of_mem _ (ih h)
      · exact List.mem_cons_of_mem _ (ih h)

section

variable (src : Source)

/-- The name of a property: its text, without the quotes of a string. -/
def propertyName (key : Node) : String :=
  if key.kind = .string then String.ofList ((src.textOf key).toList.drop 1).dropLast
  else src.textOf key

/-- An optional expression, as a piece. -/
def expression? (c : Option Cursor) : List Piece :=
  match c with
  | some c => [.part (.expression c)]
  | none => []

/-- An optional inner pattern, as a piece. -/
def inner? (c : Option Cursor) (slot : Option Slot) : List Piece :=
  match c with
  | some c => [.inner c slot]
  | none => []

/-- One step into `key: value` of an object pattern.  A computed key is evaluated, and what it
selects is not known. -/
def pairPieces (entry : Cursor) (slot : Option Slot) : List Piece :=
  match entry.child? .key with
  | some key =>
    if key.kind = .computedName then
      .part (.expression key) :: inner? (entry.child? .value) (some (slot.getD .rest))
    else inner? (entry.child? .value) (some (slot.getD (.key (propertyName src key.node))))
  | none => inner? (entry.child? .value) slot

/-- One step into the left side of `name = default` in an object pattern. -/
def defaultedPieces (left : Cursor) (slot : Option Slot) : List Piece :=
  if left.kind = .shorthandPattern then
    [.part (.target left (slot.getD (.key (src.textOf left.node))))]
  else [.inner left slot]

/-- One step into an entry of an object pattern. -/
def entryPieces (entry : Cursor) (slot : Option Slot) : List Piece :=
  match entry.kind with
  | .shorthandPattern => [.part (.target entry (slot.getD (.key (src.textOf entry.node))))]
  | .pairPattern => pairPieces src entry slot
  | .objectAssignmentPattern =>
    (match entry.child? .left with
      | some left => defaultedPieces src left slot
      | none => []) ++ expression? (entry.child? .right)
  | .restPattern => [.inner entry (some (slot.getD .rest))]
  | _ => []

/-- One step into a pattern.  `slot` is the slot of the pattern itself, none at the outermost level;
whatever is neither a name nor a pattern is an expression. -/
def pieces (p : Cursor) (slot : Option Slot) : List Piece :=
  match p.kind with
  | .identifier | .shorthandPattern => [.part (.target p (slot.getD .whole))]
  | .assignmentPattern => inner? (p.child? .left) slot ++ expression? (p.child? .right)
  | .restPattern => p.elements.map fun c => .inner c (some (slot.getD .rest))
  | .arrayPattern =>
    (placed 0 p.children).map fun e =>
      .inner e.2 (some (slot.getD (if e.2.kind = .restPattern then .rest else .position e.1)))
  | .objectPattern => p.elements.flatMap fun e => entryPieces src e slot
  | _ => [.part (.expression p)]

/-! ### Inner patterns are smaller -/

variable {src}

theorem mem_inner? {d : Cursor} {s slot : Option Slot} {c : Option Cursor}
    (h : Piece.inner d s ∈ inner? c slot) : c = some d := by
  cases c with
  | none => simp [inner?] at h
  | some c => simp [inner?] at h; rw [h.1]

theorem not_mem_expression? {d : Cursor} {s : Option Slot} {c : Option Cursor} :
    Piece.inner d s ∉ expression? c := by cases c <;> simp [expression?]

theorem sizeOf_of_mem_entryPieces {entry d : Cursor} {slot s : Option Slot}
    (h : Piece.inner d s ∈ entryPieces src entry slot) : sizeOf d.node ≤ sizeOf entry.node := by
  rw [entryPieces] at h
  split at h
  · simp at h
  · rw [pairPieces] at h
    split at h
    · split at h
      · rcases List.mem_cons.mp h with h | h
        · cases h
        · exact Nat.le_of_lt (Cursor.sizeOf_child? (mem_inner? h))
      · exact Nat.le_of_lt (Cursor.sizeOf_child? (mem_inner? h))
    · exact Nat.le_of_lt (Cursor.sizeOf_child? (mem_inner? h))
  · rcases List.mem_append.mp h with h | h
    · split at h
      · next left hl =>
        rw [defaultedPieces] at h
        split at h
        · simp at h
        · simp only [List.mem_singleton, Piece.inner.injEq] at h
          rw [h.1]
          exact Nat.le_of_lt (Cursor.sizeOf_child? hl)
      · simp at h
    · exact absurd h not_mem_expression?
  · simp only [List.mem_singleton, Piece.inner.injEq] at h
    obtain ⟨rfl, rfl⟩ := h
    exact Nat.le_refl _
  · simp at h

theorem sizeOf_of_mem_pieces {p d : Cursor} {slot s : Option Slot}
    (h : Piece.inner d s ∈ pieces src p slot) : sizeOf d.node < sizeOf p.node := by
  rw [pieces] at h
  split at h
  · simp at h
  · simp at h
  · rcases List.mem_append.mp h with h | h
    · exact Cursor.sizeOf_child? (mem_inner? h)
    · exact absurd h not_mem_expression?
  · obtain ⟨c, hc, he⟩ := List.mem_map.mp h
    cases he
    exact Cursor.sizeOf_of_mem_elements hc
  · obtain ⟨⟨k, c⟩, hc, he⟩ := List.mem_map.mp h
    cases he
    exact Cursor.sizeOf_of_mem_children (mem_of_mem_placed hc)
  · obtain ⟨e, he, h⟩ := List.mem_flatMap.mp h
    exact Nat.lt_of_le_of_lt (sizeOf_of_mem_entryPieces h) (Cursor.sizeOf_of_mem_elements he)
  · simp at h

variable (src)

/-- The names that a pattern binds and the expressions that it evaluates, in the order of the
text.  Names inside a pattern with a slot have that slot. -/
def parts (p : Cursor) (slot : Option Slot) : List Part :=
  (pieces src p slot).attach.flatMap fun
    | ⟨.part q, _⟩ => [q]
    | ⟨.inner c s, _⟩ => parts c s
termination_by sizeOf p.node
decreasing_by exact sizeOf_of_mem_pieces (by assumption)

/-- The parts of a pattern are those of its pieces. -/
theorem parts_eq (p : Cursor) (slot : Option Slot) :
    parts src p slot = (pieces src p slot).flatMap fun
      | .part q => [q]
      | .inner c s => parts src c s := by
  rw [parts]
  refine flatMap_attach fun x => ?_
  obtain ⟨q | ⟨c, s⟩, h⟩ := x <;> rfl

/-! ### Expressions lie within their pattern -/

variable {src}

theorem expression_mem_expression? {d : Cursor} {c : Option Cursor}
    (h : Piece.part (.expression d) ∈ expression? c) : c = some d := by
  cases c with
  | none => simp [expression?] at h
  | some c => simp [expression?] at h; rw [h]

theorem expression_not_mem_inner? {d : Cursor} {s : Option Slot} {c : Option Cursor} :
    Piece.part (.expression d) ∉ inner? c s := by cases c <;> simp [inner?]

theorem sizeOf_expression_entryPieces {entry d : Cursor} {slot : Option Slot}
    (h : Piece.part (.expression d) ∈ entryPieces src entry slot) :
    sizeOf d.node ≤ sizeOf entry.node := by
  rw [entryPieces] at h
  split at h
  · simp at h
  · rw [pairPieces] at h
    split at h
    · next key hk =>
      split at h
      · rcases List.mem_cons.mp h with h | h
        · cases h
          exact Nat.le_of_lt (Cursor.sizeOf_child? hk)
        · exact absurd h expression_not_mem_inner?
      · exact absurd h expression_not_mem_inner?
    · exact absurd h expression_not_mem_inner?
  · rcases List.mem_append.mp h with h | h
    · split at h
      · rw [defaultedPieces] at h
        split at h <;> simp at h
      · simp at h
    · exact Nat.le_of_lt (Cursor.sizeOf_child? (expression_mem_expression? h))
  · simp at h
  · simp at h

theorem sizeOf_expression_pieces {p d : Cursor} {slot : Option Slot}
    (h : Piece.part (.expression d) ∈ pieces src p slot) : sizeOf d.node ≤ sizeOf p.node := by
  rw [pieces] at h
  split at h
  · simp at h
  · simp at h
  · rcases List.mem_append.mp h with h | h
    · exact absurd h expression_not_mem_inner?
    · exact Nat.le_of_lt (Cursor.sizeOf_child? (expression_mem_expression? h))
  · simp at h
  · simp at h
  · obtain ⟨e, he, h⟩ := List.mem_flatMap.mp h
    have h1 := sizeOf_expression_entryPieces h
    have h2 := Cursor.sizeOf_of_mem_elements he
    omega
  · simp only [List.mem_singleton, Piece.part.injEq, Part.expression.injEq] at h
    obtain rfl := h
    exact Nat.le_refl _

theorem sizeOf_expression_parts {p d : Cursor} {slot : Option Slot}
    (h : Part.expression d ∈ parts src p slot) : sizeOf d.node ≤ sizeOf p.node := by
  rw [parts_eq] at h
  obtain ⟨q, hq, h⟩ := List.mem_flatMap.mp h
  match q, hq, h with
  | .part q, hq, h =>
    obtain rfl := List.mem_singleton.mp h
    exact sizeOf_expression_pieces hq
  | .inner c s, hq, h =>
    have h1 := sizeOf_of_mem_pieces hq
    have h2 := sizeOf_expression_parts h
    omega
termination_by sizeOf p.node
decreasing_by exact h1

end

end HookLint.Scope
