import HookLint.Proofs.Syntax.Descent
import HookLint.Proofs.Syntax.Layout
import HookLint.Scope.Pattern
import Mathlib.Data.List.Basic

/-!
# Proofs.Scope.OutermostStep — the slot of a name is that of the outermost step

A pattern hands its slot on to the patterns inside of it, and makes one itself if it has none.  So
the slot decides nothing but the slots (`parts_some`): with a slot given, the same names and
expressions come in the same order, and all names have that slot.

Without one, each child of an array pattern and each entry of an object pattern makes a slot of its
own, and by the law above all names inside of it have that slot, however deep they lie
(`parts_arrayPattern`, `parts_objectPattern`).
-/

namespace HookLint.Scope

open Syntax

/-- The part as it stands in the slot `s`: a name has that slot, an expression has none. -/
def Part.place (s : Slot) : Part → Part
  | .target name _ => .target name s
  | .expression c => .expression c

/-- The piece as it stands in the slot `s`. -/
def Piece.place (s : Slot) : Piece → Piece
  | .part q => .part (q.place s)
  | .inner c _ => .inner c (some s)

section Pieces

variable (src : Source) (s : Slot) (slot : Option Slot)

/-! ### With a slot given -/

theorem inner?_some (c : Option Cursor) :
    inner? c (some s) = (inner? c slot).map (Piece.place s) := by
  cases c <;> rfl

theorem map_place_expression? (c : Option Cursor) :
    (expression? c).map (Piece.place s) = expression? c := by
  cases c <;> rfl

theorem pairPieces_some (entry : Cursor) :
    pairPieces src entry (some s) = (pairPieces src entry slot).map (Piece.place s) := by
  unfold pairPieces
  cases entry.child? .key with
  | none => exact inner?_some s slot _
  | some key =>
    by_cases hk : key.kind = .computedName
    · simp only [if_pos hk, List.map_cons]
      exact congrArg _ (inner?_some s _ _)
    · simp only [if_neg hk]
      exact inner?_some s _ _

theorem entryPieces_some (entry : Cursor) :
    entryPieces src entry (some s) = (entryPieces src entry slot).map (Piece.place s) := by
  unfold entryPieces
  split
  · rfl
  · exact pairPieces_some src s slot entry
  · rw [List.map_append, map_place_expression?]
    refine congrArg (· ++ _) ?_
    cases entry.child? .left with
    | none => rfl
    | some left =>
      simp only [defaultedPieces]
      split <;> rfl
  · rfl
  · rfl

/-- One step into a pattern makes the same pieces, whatever slot it stands in. -/
theorem pieces_some (p : Cursor) :
    pieces src p (some s) = (pieces src p slot).map (Piece.place s) := by
  unfold pieces
  split
  · rfl
  · rfl
  · rw [List.map_append, map_place_expression?, inner?_some s slot]
  · rw [List.map_map]
    rfl
  · rw [List.map_map]
    rfl
  · rw [List.map_flatMap]
    exact List.flatMap_congr fun e _ => entryPieces_some src s slot e
  · rfl

/-- What a piece contributes to the parts of its pattern. -/
def Piece.parts : Piece → List Part
  | .part q => [q]
  | .inner c t => Scope.parts src c t

theorem parts_eq_flatMap (p : Cursor) :
    parts src p slot = (pieces src p slot).flatMap (Piece.parts src) := by
  rw [parts_eq]
  refine List.flatMap_congr fun q _ => ?_
  cases q <;> rfl

end Pieces

/-- **A slot decides nothing but the slots.**  The parts of a pattern in a slot are its parts, with
that slot on all names. -/
theorem parts_some (src : Source) (s : Slot) (slot : Option Slot) (p : Cursor) :
    parts src p (some s) = (parts src p slot).map (Part.place s) := by
  rw [parts_eq_flatMap, parts_eq_flatMap, pieces_some src s slot, List.flatMap_map,
    List.map_flatMap]
  refine List.flatMap_congr fun q hq => ?_
  match q, hq with
  | .part q, _ => rfl
  | .inner c t, hq =>
    have hsize := sizeOf_of_mem_pieces hq
    exact parts_some src s t c
termination_by sizeOf p.node

theorem parts_place (src : Source) (s : Slot) (q : Piece) :
    (q.place s).parts src = (q.parts src).map (Part.place s) := by
  cases q with
  | part q => rfl
  | inner c t => exact parts_some src s t c

/-! ### Elements of array patterns -/

/-- Whether a child of an array pattern is one of its elements. -/
def isElement (c : Cursor) : Bool := c.node.named && c.kind ≠ .comment && c.kind ≠ .comma

/-- The slot of an element, given the children before it: its position is the number of commas
among them. -/
def elementSlot (before : List Cursor) (c : Cursor) : Slot :=
  if c.kind = .restPattern then .rest
  else .position (before.countP fun d => d.kind = .comma)

/-- The place of an element is the number of commas before it, counted from `k`. -/
theorem placed_eq (k : Nat) (cs : List Cursor) :
    placed k cs = cs.zipIdx.flatMap fun e =>
      if isElement e.1 then [(k + (cs.take e.2).countP fun d => d.kind = .comma, e.1)] else [] := by
  induction cs generalizing k with
  | nil => rfl
  | cons c cs ih =>
    rw [List.zipIdx_cons, List.flatMap_cons, List.zipIdx_succ, List.flatMap_map, placed]
    simp only [List.take_succ_cons, List.take_zero, List.countP_cons, List.countP_nil]
    by_cases hcomma : c.kind = .comma
    · have hno : isElement c = false := by simp [isElement, hcomma]
      simp only [hcomma, hno, if_true, ih, decide_true, List.nil_append, Bool.false_eq_true,
        if_false, Nat.add_right_comm k 1, Nat.add_assoc]
    · have hyes : isElement c = true ↔ c.node.named ∧ c.kind ≠ .comment := by
        simp [isElement, hcomma]
      by_cases helem : c.node.named ∧ c.kind ≠ .comment
      · simp [hcomma, helem, hyes.mpr helem, ih]
      · have hno : isElement c = false := by simpa using mt hyes.mp helem
        simp only [hcomma, helem, hno, if_false, ih, decide_false, List.nil_append,
          Bool.false_eq_true, Nat.add_zero]

variable {src : Source} {p : Cursor}

/-- **The elements of an array pattern.**  All names inside of an element have the position of that
element. -/
theorem parts_arrayPattern (hp : p.kind = .arrayPattern) :
    parts src p none = p.children.zipIdx.flatMap fun e =>
      if isElement e.1 then
        (parts src e.1 none).map (Part.place (elementSlot (p.children.take e.2) e.1))
      else [] := by
  have hpieces : pieces src p none = (placed 0 p.children).map fun e =>
      .inner e.2 (some (if e.2.kind = .restPattern then .rest else .position e.1)) := by
    unfold pieces
    rw [hp]
    rfl
  rw [parts_eq_flatMap, hpieces, List.flatMap_map, placed_eq, List.flatMap_assoc]
  refine List.flatMap_congr fun e _ => ?_
  by_cases he : isElement e.1 = true
  · rw [if_pos he, if_pos he, List.flatMap_singleton, Nat.zero_add]
    exact parts_some src (elementSlot (p.children.take e.2) e.1) none e.1
  · rw [if_neg he, if_neg he, List.flatMap_nil]

/-! ### Entries of object patterns -/

/-- The property that an entry of an object pattern names; a computed key and a rest name none. -/
def entryName? (src : Source) (entry : Cursor) : Option String :=
  match entry.kind with
  | .shorthandPattern => some (src.textOf entry.node)
  | .pairPattern =>
    (entry.child? .key).bind fun key =>
      if key.kind = .computedName then none else some (propertyName src key.node)
  | .objectAssignmentPattern => (entry.child? .left).map fun left => src.textOf left.node
  | _ => none

/-- The slot of an entry: the property that it names, or the rest. -/
def entrySlot (src : Source) (entry : Cursor) : Slot := (entryName? src entry).elim .rest .key

/-- The names and expressions of an entry. -/
def entryParts (src : Source) (entry : Cursor) : List Part :=
  (entryPieces src entry none).flatMap (Piece.parts src)

/-- Whether a node is no entry without a name: a pair has a key, and the left side of a default is
a name. -/
def HasName (n : Node) : Prop :=
  (n.kind = .pairPattern → (n.child? .key).isSome = true) ∧
    (n.kind = .objectAssignmentPattern →
      (n.child? .left).any (fun left => left.kind = .shorthandPattern) = true)

instance (n : Node) : Decidable (HasName n) := inferInstanceAs (Decidable (_ ∧ _))

/-- An entry with a name makes its slot, if it is given none. -/
theorem entryPieces_none {entry : Cursor} (h : HasName entry.node) :
    entryPieces src entry none = entryPieces src entry (some (entrySlot src entry)) := by
  obtain ⟨hkey, hleft⟩ := h
  unfold entryPieces entrySlot entryName?
  split
  · next hk => simp [hk]
  · next hk =>
    obtain ⟨key, hkey⟩ := Option.isSome_iff_exists.mp (hkey hk)
    have hchild : entry.child? .key = some (entry.down key) := by simp [Cursor.child?, hkey]
    simp only [pairPieces, hchild, hk, Option.bind_some]
    split <;> rfl
  · next hk =>
    obtain ⟨left, hl, hshort⟩ : ∃ left, entry.node.child? .left = some left ∧
        left.kind = .shorthandPattern := by simpa [Option.any_eq_true] using hleft hk
    have hchild : entry.child? .left = some (entry.down left) := by simp [Cursor.child?, hl]
    have hkind : (entry.down left).kind = .shorthandPattern := hshort
    simp [hchild, hk, defaultedPieces, hkind]
  · next hk => simp [hk]
  · rfl

/-- All names inside of an entry have the slot of the entry. -/
theorem entryParts_eq {entry : Cursor} (h : HasName entry.node) :
    entryParts src entry = (entryParts src entry).map (Part.place (entrySlot src entry)) := by
  calc entryParts src entry
      = (entryPieces src entry (some (entrySlot src entry))).flatMap (Piece.parts src) := by
        rw [← entryPieces_none h, entryParts]
    _ = (entryPieces src entry none).flatMap fun q =>
          (q.place (entrySlot src entry)).parts src := by
        rw [entryPieces_some src _ none, List.flatMap_map]
    _ = (entryParts src entry).map (Part.place (entrySlot src entry)) := by
        simp only [parts_place, entryParts, List.map_flatMap]

/-- **The entries of an object pattern.**  All names inside of an entry have the slot of that
entry. -/
theorem parts_objectPattern (hp : p.kind = .objectPattern) (hname : p.node.All HasName) :
    parts src p none = p.elements.flatMap fun e =>
      (entryParts src e).map (Part.place (entrySlot src e)) := by
  have hpieces : pieces src p none = p.elements.flatMap fun e => entryPieces src e none := by
    unfold pieces
    rw [hp]
  rw [parts_eq_flatMap, hpieces, List.flatMap_assoc]
  refine List.flatMap_congr fun e he => ?_
  obtain ⟨n, hn, rfl⟩ := List.mem_map.mp he
  exact entryParts_eq (hname.child (Node.mem_children_of_mem_elements hn)).self

/-! ### Patterns around a step -/

/-- A default around a pattern is no step: the names have the slots that they have without it. -/
theorem parts_assignmentPattern (hp : p.kind = .assignmentPattern) :
    parts src p none = ((p.child? .left).elim [] fun left => parts src left none) ++
      (p.child? .right).toList.map .expression := by
  rw [parts_eq_flatMap]
  unfold pieces
  rw [hp]
  simp only [List.flatMap_append]
  cases p.child? .left <;> cases p.child? .right <;> simp [inner?, expression?, Piece.parts]

/-- All names inside of a rest have its slot. -/
theorem parts_restPattern (hp : p.kind = .restPattern) :
    parts src p none = p.elements.flatMap fun c =>
      (parts src c none).map (Part.place .rest) := by
  rw [parts_eq_flatMap]
  unfold pieces
  rw [hp]
  simp only [List.flatMap_map]
  exact List.flatMap_congr fun c _ => parts_some src .rest none c

/-- **The slot of a name is that of the outermost step.**  With a slot given, a pattern has the same
parts in the same order, and all its names have that slot.  With none given, the parts of an array
pattern are those of its elements, and whatever an element holds stands in the position that the
commas before it count, or in the rest; the parts of an object pattern are those of its entries, and
whatever an entry holds stands in the property that the entry names, or in the rest.  A default
around a pattern changes nothing, a rest is a step of its own, and a bare name has the whole. -/
theorem slots_of_outermost_step (src : Source) (p : Cursor) (hname : p.node.All HasName) :
    (∀ s, parts src p (some s) = (parts src p none).map (Part.place s)) ∧
    (p.kind = .arrayPattern → parts src p none = p.children.zipIdx.flatMap fun e =>
      if isElement e.1 then
        (parts src e.1 none).map (Part.place (elementSlot (p.children.take e.2) e.1))
      else []) ∧
    (p.kind = .objectPattern → parts src p none = p.elements.flatMap fun e =>
      (entryParts src e).map (Part.place (entrySlot src e))) ∧
    (p.kind = .assignmentPattern → parts src p none =
      ((p.child? .left).elim [] fun left => parts src left none) ++
        (p.child? .right).toList.map .expression) ∧
    (p.kind = .restPattern → parts src p none = p.elements.flatMap fun c =>
      (parts src c none).map (Part.place .rest)) ∧
    (p.kind = .identifier → parts src p none = [.target p .whole]) := by
  refine ⟨fun s => parts_some src s none p, parts_arrayPattern,
    fun hp => parts_objectPattern hp hname, parts_assignmentPattern, parts_restPattern,
    fun hp => ?_⟩
  rw [parts_eq_flatMap, pieces, hp]
  rfl

/-- A pattern with a hole, a nested pattern and a rest: `[,{a:[b]},...c]`. -/
def holeyText : Source := ⟨"[,\x7ba:[b]\x7d,...c]"⟩

def holeyEntry : Node :=
  { kind := .pairPattern, start := 3, stop := 8
    children := [
      { kind := .propertyIdentifier, field := some .key, start := 3, stop := 4 },
      tokenAt ":" 4,
      { kind := .arrayPattern, field := some .value, start := 5, stop := 8
        children := [tokenAt "[" 5, { kind := .identifier, start := 6, stop := 7 },
          tokenAt "]" 7] }] }

def holeyPattern : Node :=
  { kind := .arrayPattern, start := 0, stop := 15
    children := [
      tokenAt "[" 0, tokenAt "," 1,
      { kind := .objectPattern, start := 2, stop := 9
        children := [tokenAt "\x7b" 2, holeyEntry, tokenAt "\x7d" 8] },
      tokenAt "," 9,
      { kind := .restPattern, start := 10, stop := 14
        children := [tokenAt "..." 10, { kind := .identifier, start := 13, stop := 14 }] },
      tokenAt "]" 14] }

/-- The slot of a name. -/
def Part.slot? : Part → Option Slot
  | .target _ s => some s
  | .expression _ => none

/-- The name `b` stands at no position and under no property of the inner patterns. -/
theorem slots_of_outermost_step_holey : holeyPattern.All HasName ∧
    (parts holeyText ⟨holeyPattern, []⟩ none).map Part.slot? =
      [some (.position 1), some .rest] := by
  have hname : holeyPattern.All HasName := by decide +kernel
  obtain ⟨-, harray, -⟩ := slots_of_outermost_step holeyText ⟨holeyPattern, []⟩ hname
  refine ⟨hname, ?_⟩
  rw [harray rfl]
  decide +kernel

end HookLint.Scope
