import HookLint.Proofs.Syntax.Preorder
import HookLint.Scope.Walk

/-!
# Proofs.Scope.Places — the walk takes every part of a tree at most once

The places of steps are the nodes that they use or visit.  A *division* is a relation between a node
and some of its parts that holds of the children, of the children under the fields in their order,
and of nothing, and that composes: parts of parts are parts.  Whatever the role of a node, the places
of one step of the walk are such parts of it (`Division.plan`).  All that one wants to know about the
choices of the single handlers is said by that one theorem; a fact about the walk is a division.

The first of them: in a well-formed tree, the places of one step tile its node (`tiles_plan`), so
parts that are visited are never visited again, and names that are used are not visited as well.
Hence the names that the events of a part use tile that part (`tiles_events`).
-/

namespace HookLint.Scope

open Syntax Syntax.Node

/-! ### Divisions -/

/-- A relation between nodes and lists of their parts that the children satisfy, and that is closed
under leaving parts out and under taking parts apart. -/
structure Division (T : Node → List Node → Prop) : Prop where
  self (n : Node) : T n [n]
  children (n : Node) : T n n.children
  row (n : Node) : T n (n.fieldRow.filterMap n.child?)
  sublist {n : Node} {ms ns : List Node} : T n ns → ms.Sublist ns → T n ms
  flatMap {α : Type} {outer : Node} {l : List α} {g : α → Option Node} {f : α → List Node} :
    T outer (l.filterMap g) → (∀ a ∈ l, f a = [] ∨ ∃ n, g a = some n ∧ T n (f a)) →
      T outer (l.flatMap f)

/-- Parts of the child with the given field; none if there is no such child. -/
def FieldPart (T : Node → List Node → Prop) (n : Node) (f : Field) (ns : List Node) : Prop :=
  ns = [] ∨ ∃ c, n.child? f = some c ∧ T c ns

theorem fieldPart_child? {T : Node → List Node → Prop} {c d : Cursor} {f : Field} {ns : List Node}
    (h : c.child? f = some d) (ht : T d.node ns) : FieldPart T c.node f ns :=
  Or.inr ⟨d.node, Cursor.node_child? h, ht⟩

namespace Division

variable {T : Node → List Node → Prop} (hT : Division T) {n m : Node} {ms ns : List Node}
include hT

theorem nil (n : Node) : T n [] := hT.sublist (hT.self n) (List.nil_sublist _)

theorem child (hm : m ∈ n.children) : T n [m] :=
  hT.sublist (hT.children n) (List.singleton_sublist.mpr hm)

theorem namedChildren (n : Node) : T n n.namedChildren :=
  hT.sublist (hT.children n) List.filter_sublist

theorem elements (n : Node) : T n n.elements :=
  hT.sublist (hT.namedChildren n) List.filter_sublist

/-- Parts of a part are parts. -/
theorem trans (h : T n [m]) (hm : T m ns) : T n ns := by
  have hparts : T n ([m].flatMap fun _ => ns) :=
    hT.flatMap (g := some) (by simpa using h) fun a ha => by
      obtain rfl := List.mem_singleton.mp ha
      exact Or.inr ⟨a, rfl, hm⟩
  simpa using hparts

/-- Parts for each of some cursors, the nodes of which are parts. -/
theorem flatMap_cursors {cs : List Cursor} {f : Cursor → List Node} (h : T n (cs.map Cursor.node))
    (hf : ∀ c ∈ cs, T c.node (f c)) : T n (cs.flatMap f) := by
  rw [← List.filterMap_eq_map] at h
  exact hT.flatMap h fun c hc => Or.inr ⟨c.node, rfl, hf c hc⟩

theorem unwrap (c : Cursor) : T c.node [c.unwrap.node] := by
  fun_induction Cursor.unwrap c with
  | case1 c _ inner hin ih =>
    have hinner := hT.elements c.node
    rw [← Cursor.map_node_elements, hin] at hinner
    exact hT.trans hinner ih
  | case2 c => exact hT.self c.node
  | case3 c => exact hT.self c.node

/-! ### Parts under fields -/

theorem field {f : Field} (hf : FieldPart T n f ns) : T n ns := by
  rcases hf with rfl | ⟨c, hc, ht⟩
  · exact hT.nil n
  · exact hT.trans (hT.child (mem_children_of_child? hc)) ht

/-- Parts under the fields whose order matters, in that order. -/
theorem fields (ps : List (Field × List Node)) (hrow : n.fieldRow = ps.map Prod.fst)
    (hps : ∀ p ∈ ps, FieldPart T n p.1 p.2) : T n (ps.flatMap Prod.snd) := by
  have hplaces := hT.row n
  rw [hrow, List.filterMap_map] at hplaces
  exact hT.flatMap hplaces hps

theorem two_fields {f g : Field} (hrow : n.fieldRow = [f, g]) (hf : FieldPart T n f ms)
    (hg : FieldPart T n g ns) : T n (ms ++ ns) := by
  have ht := hT.fields [(f, ms), (g, ns)] hrow (by simpa using ⟨hf, hg⟩)
  simpa using ht

end Division

/-! ### The fields of a role -/

section Roles

variable {n : Node}

theorem fieldRow_of_role_function (h : Role.ofKind n.kind = .function) : n.fieldRow =
    (if n.hasComputedName then [.name] else []) ++ [n.parametersField, .body] := by
  unfold Node.fieldRow
  cases hk : n.kind <;> simp [hk, Role.ofKind] at h
  all_goals rfl

theorem fieldRow_of_role_catch (h : Role.ofKind n.kind = .catchClause) :
    n.fieldRow = [.parameter, .body] := by
  unfold Node.fieldRow
  cases hk : n.kind <;> simp [hk, Role.ofKind] at h
  all_goals rfl

theorem fieldRow_of_role_assignment (h : Role.ofKind n.kind = .assignment) :
    n.fieldRow = [.left, .right] := by
  unfold Node.fieldRow
  cases hk : n.kind <;> simp [hk, Role.ofKind] at h
  all_goals rfl

end Roles

/-! ### Patterns -/

/-- The node of a part of a pattern. -/
def Part.node : Part → Node
  | .target name _ => name.node
  | .expression c => c.node

/-- The node of a piece of a pattern. -/
def Piece.node : Piece → Node
  | .part q => q.node
  | .inner c _ => c.node

theorem placed_sublist (k : Nat) (cs : List Cursor) : ((placed k cs).map Prod.snd).Sublist cs := by
  induction cs generalizing k with
  | nil => exact List.Sublist.refl _
  | cons c cs ih =>
    rw [placed]
    split
    · exact (ih _).cons _
    · split
      · exact (ih _).cons_cons _
      · exact (ih _).cons _

namespace Division

variable {T : Node → List Node → Prop} (hT : Division T) {src : Source} {c : Cursor}
include hT

theorem inner? (c : Cursor) (f : Field) (slot : Option Slot) :
    FieldPart T c.node f ((inner? (c.child? f) slot).map Piece.node) := by
  cases h : c.child? f with
  | none => exact Or.inl rfl
  | some d => exact fieldPart_child? h (hT.self d.node)

theorem expression? (c : Cursor) (f : Field) :
    FieldPart T c.node f ((expression? (c.child? f)).map Piece.node) := by
  cases h : c.child? f with
  | none => exact Or.inl rfl
  | some d => exact fieldPart_child? h (hT.self d.node)

theorem pairPieces (hk : c.kind = .pairPattern) (slot : Option Slot) :
    T c.node ((pairPieces src c slot).map Piece.node) := by
  have hrow : c.node.fieldRow = [.key, .value] := by
    unfold Node.fieldRow
    rw [show c.node.kind = .pairPattern from hk]
  unfold Scope.pairPieces
  split
  · next key hkey =>
    split
    · rw [List.map_cons, ← List.singleton_append]
      exact hT.two_fields hrow (fieldPart_child? hkey (hT.self key.node)) (hT.inner? c .value _)
    · exact hT.field (hT.inner? c .value _)
  · exact hT.field (hT.inner? c .value _)

theorem entryPieces (c : Cursor) (slot : Option Slot) :
    T c.node ((entryPieces src c slot).map Piece.node) := by
  unfold Scope.entryPieces
  split
  · exact hT.self c.node
  · next hk => exact hT.pairPieces hk slot
  · next hk =>
    have hrow : c.node.fieldRow = [.left, .right] := by
      unfold Node.fieldRow
      rw [show c.node.kind = .objectAssignmentPattern from hk]
    rw [List.map_append]
    refine hT.two_fields hrow ?_ (hT.expression? c .right)
    split
    · next left hl =>
      unfold defaultedPieces
      split
      · exact fieldPart_child? hl (hT.self left.node)
      · exact fieldPart_child? hl (hT.self left.node)
    · exact Or.inl rfl
  · exact hT.self c.node
  · exact hT.nil c.node

/-- The pieces of a pattern are parts of it. -/
theorem pieces (src : Source) (p : Cursor) (slot : Option Slot) :
    T p.node ((pieces src p slot).map Piece.node) := by
  unfold Scope.pieces
  split
  · exact hT.self p.node
  · exact hT.self p.node
  · next hk =>
    have hrow : p.node.fieldRow = [.left, .right] := by
      unfold Node.fieldRow
      rw [show p.node.kind = .assignmentPattern from hk]
    rw [List.map_append]
    exact hT.two_fields hrow (hT.inner? p .left slot) (hT.expression? p .right)
  · have ht := hT.elements p.node
    rw [← Cursor.map_node_elements] at ht
    rw [List.map_map]
    exact ht
  · have ht := hT.children p.node
    rw [← Cursor.map_node_children] at ht
    have hs := hT.sublist ht ((placed_sublist 0 p.children).map Cursor.node)
    rw [List.map_map] at hs ⊢
    exact hs
  · have ht := hT.elements p.node
    rw [← Cursor.map_node_elements] at ht
    rw [List.map_flatMap]
    exact hT.flatMap_cursors ht fun e _ => hT.entryPieces e slot
  · exact hT.self p.node

/-- The parts that a pattern contributes are parts of its node. -/
theorem parts (src : Source) (p : Cursor) (slot : Option Slot) :
    T p.node ((parts src p slot).map Part.node) := by
  have ht := hT.pieces src p slot
  rw [← List.filterMap_eq_map] at ht
  rw [parts_eq, List.map_flatMap]
  refine hT.flatMap ht fun q hq => Or.inr ⟨q.node, rfl, ?_⟩
  match q, hq with
  | .part q, _ => exact hT.self q.node
  | .inner c s, hq =>
    have hsize := sizeOf_of_mem_pieces hq
    exact Division.parts src c s
termination_by sizeOf p.node

end Division

/-! ### Places of steps -/

/-- The node that a step uses or visits. -/
def Step.place? : Step → Option Node
  | .emit (.use c _) => some c.node
  | .emit _ => none
  | .visit c => some c.node

/-- The nodes that steps use or visit. -/
def places (steps : List Step) : List Node := steps.filterMap Step.place?

section Places

variable {s t : List Step} {cs : List Cursor}

@[simp] theorem places_append : places (s ++ t) = places s ++ places t := List.filterMap_append

@[simp] theorem places_visit (c : Cursor) (s : List Step) :
    places (.visit c :: s) = c.node :: places s := rfl

@[simp] theorem places_call (n : Node) (s : List Step) :
    places (.emit (.call n) :: s) = places s := rfl

@[simp] theorem places_visits (cs : List Cursor) : places (visits cs) = cs.map Cursor.node := by
  unfold places visits
  rw [List.filterMap_map, ← List.filterMap_eq_map]
  rfl

@[simp] theorem places_declares (ds : List Declaration) : places (declares ds) = [] := by
  unfold places declares
  rw [List.filterMap_map]
  exact List.filterMap_eq_nil_iff.mpr fun _ _ => rfl

theorem places_ite_declares (b : Prop) [Decidable b] (ds : List Declaration) :
    places (if b then declares ds else []) = [] := by
  by_cases h : b
  · rw [if_pos h, places_declares]
  · rw [if_neg h]
    rfl

@[simp] theorem places_bracket (kind : ScopeKind) (n : Node) (s : List Step) :
    places (bracket kind n s) = places s := by
  unfold bracket
  rw [places_append]
  exact List.append_nil _

theorem places_flatMap {α : Type} (l : List α) (f : α → List Step) :
    places (l.flatMap f) = l.flatMap fun a => places (f a) := List.filterMap_flatMap

theorem places_ownNameSteps (src : Source) (c : Cursor) : places (ownNameSteps src c) = [] := by
  unfold ownNameSteps
  split
  · rfl
  · rfl
  · rfl
  · split
    · exact places_declares _
    · rfl

theorem places_methodNameSteps {c : Cursor} (h : c.node.hasComputedName = false) :
    places (methodNameSteps c) = [] := by
  unfold methodNameSteps
  split
  · next hk =>
    split
    · next name hn =>
      split
      · next hname =>
        -- such a method would have a computed name
        simp [Node.hasComputedName, hk, Cursor.node_child? hn, hname] at h
      · rfl
    · rfl
  · rfl

end Places

namespace Division

variable {T : Node → List Node → Prop} (hT : Division T)
include hT

/-- Steps for each of some cursors, the nodes of which are parts. -/
theorem places_flatMap {outer : Node} {cs : List Cursor} {f : Cursor → List Step}
    (h : T outer (cs.map Cursor.node)) (hf : ∀ c ∈ cs, T c.node (places (f c))) :
    T outer (places (cs.flatMap f)) := by
  rw [Scope.places_flatMap]
  exact hT.flatMap_cursors h hf

omit hT in
theorem elim {c : Cursor} {f : Field} {g : Cursor → List Step}
    (hg : ∀ d, T d.node (places (g d))) : FieldPart T c.node f (places ((c.child? f).elim [] g)) := by
  cases h : c.child? f with
  | none => exact Or.inl rfl
  | some d => exact fieldPart_child? h (hg d)

/-! ### Places of patterns -/

/-- Steps that take the parts of a pattern at most once each. -/
theorem partSteps (src : Source) (p : Cursor) {f : Part → List Step}
    (hf : ∀ q, places (f q) = [] ∨ places (f q) = [q.node]) :
    T p.node (places ((Scope.parts src p none).flatMap f)) := by
  have ht := hT.parts src p none
  rw [← List.filterMap_eq_map] at ht
  rw [Scope.places_flatMap]
  refine hT.flatMap ht fun q _ => ?_
  rcases hf q with hnil | hone
  · exact Or.inl hnil
  · refine Or.inr ⟨q.node, rfl, ?_⟩
    rw [hone]
    exact hT.self q.node

theorem parameterSteps (src : Source) (p : Cursor) :
    T p.node (places (parameterSteps src p)) := by
  unfold Scope.parameterSteps
  rw [List.map_eq_flatMap]
  refine hT.partSteps src p fun q => ?_
  cases q with
  | target name slot => exact Or.inl rfl
  | expression c => exact Or.inr rfl

theorem writeSteps (src : Source) (p : Cursor) : T p.node (places (writeSteps src p)) := by
  unfold Scope.writeSteps
  rw [List.map_eq_flatMap]
  refine hT.partSteps src p fun q => ?_
  cases q with
  | target name slot => exact Or.inr rfl
  | expression c => exact Or.inr rfl

theorem expressionSteps (src : Source) (p : Cursor) :
    T p.node (places (expressionSteps src p)) := by
  refine hT.partSteps src p fun q => ?_
  cases q with
  | target name slot => exact Or.inl rfl
  | expression c => exact Or.inr rfl

theorem targetSteps (src : Source) (p : Cursor) : T p.node (places (targetSteps src p)) := by
  have hinner := hT.unwrap p
  have hwrite := hT.trans hinner (hT.writeSteps src p.unwrap)
  unfold Scope.targetSteps
  dsimp only
  split
  · exact hinner
  · exact hwrite
  · exact hwrite
  · exact hinner

/-! ### One step of the walk -/

theorem visits_children (c : Cursor) : T c.node (places (visits c.children)) := by
  rw [places_visits, Cursor.map_node_children]
  exact hT.children c.node

theorem methodNameSteps (c : Cursor) : FieldPart T c.node .name (places (methodNameSteps c)) := by
  unfold Scope.methodNameSteps
  split
  · split
    · next name hn =>
      split
      · exact fieldPart_child? hn (hT.self name.node)
      · exact Or.inl rfl
    · exact Or.inl rfl
  · exact Or.inl rfl

/-- The parameters of a function, under whichever of the two fields they stand. -/
theorem parameterListSteps (src : Source) (c : Cursor) :
    FieldPart T c.node c.node.parametersField (places (parameterListSteps src c)) := by
  have hlist : ∀ params : Cursor, T params.node
      (places (if params.kind = .identifier then Scope.parameterSteps src params
        else params.elements.flatMap (Scope.parameterSteps src))) := by
    intro params
    split
    · exact hT.parameterSteps src params
    · refine hT.places_flatMap ?_ fun d _ => hT.parameterSteps src d
      rw [Cursor.map_node_elements]
      exact hT.elements params.node
  unfold Scope.parameterListSteps Node.parametersField
  cases h : c.child? .parameters with
  | some params =>
    rw [if_pos (by rw [Cursor.node_child? h]; rfl)]
    exact fieldPart_child? h (hlist params)
  | none =>
    have hnone : c.node.child? .parameters = none := Option.map_eq_none_iff.mp h
    rw [if_neg (by rw [hnone]; simp)]
    cases h' : c.child? .parameter with
    | some params => exact fieldPart_child? h' (hlist params)
    | none => exact Or.inl rfl

theorem bodySteps (src : Source) (c : Cursor) :
    FieldPart T c.node .body (places (bodySteps src c)) := by
  unfold Scope.bodySteps
  split
  · next body hb =>
    split
    · rw [places_append, places_declares, List.nil_append]
      exact fieldPart_child? hb (hT.visits_children body)
    · exact fieldPart_child? hb (hT.self body.node)
  · exact Or.inl rfl

theorem functionPlan {c : Cursor} (hrow : c.node.fieldRow =
    (if c.node.hasComputedName then [.name] else []) ++ [c.node.parametersField, .body]) :
    T c.node (places (functionPlan src c)) := by
  have hparameters := hT.parameterListSteps src c
  have hbody := hT.bodySteps src c
  unfold Scope.functionPlan
  simp only [places_append, places_bracket, places_ownNameSteps, List.nil_append]
  cases hname : c.node.hasComputedName with
  | false =>
    rw [hname] at hrow
    rw [places_methodNameSteps hname, List.nil_append]
    exact hT.two_fields hrow hparameters hbody
  | true =>
    rw [hname] at hrow
    have ht := hT.fields [(.name, places (Scope.methodNameSteps c)),
      (c.node.parametersField, places (Scope.parameterListSteps src c)),
      (.body, places (Scope.bodySteps src c))] hrow
      (by simpa using ⟨hT.methodNameSteps c, hparameters, hbody⟩)
    simpa using ht

theorem forInPlan (src : Source) (c : Cursor) : T c.node (places (forInPlan src c)) := by
  unfold Scope.forInPlan
  rw [places_bracket, places_append, places_declares, List.nil_append]
  refine hT.places_flatMap ?_ fun d _ => ?_
  · rw [Cursor.map_node_children]
    exact hT.children c.node
  · unfold forInChild
    split
    · split
      · split
        · exact hT.targetSteps src d
        · exact hT.expressionSteps src d
      · exact hT.self d.node
    · exact hT.self d.node

theorem catchPlan (src : Source) {c : Cursor} (hrow : c.node.fieldRow = [.parameter, .body]) :
    T c.node (places (catchPlan src c)) := by
  unfold Scope.catchPlan
  rw [places_bracket, places_append]
  exact hT.two_fields hrow (elim fun d => hT.parameterSteps src d) (elim fun d => hT.self d.node)

theorem classPlan (src : Source) (c : Cursor) : T c.node (places (classPlan src c)) := by
  unfold Scope.classPlan
  split
  · rw [places_bracket, places_append, places_ite_declares, List.nil_append, places_visits]
    have ht := hT.children c.node
    rw [← Cursor.map_node_children] at ht
    exact hT.sublist ht (List.filter_sublist.map _)
  · rw [places_bracket]
    exact hT.visits_children c

theorem declaratorSteps (src : Source) (c : Cursor) :
    T c.node (places (declaratorSteps src c)) := by
  unfold Scope.declaratorSteps
  split
  · next hk =>
    have hrow : c.node.fieldRow = [.name, .value] := by
      unfold Node.fieldRow
      rw [show c.node.kind = .variableDeclarator from hk]
    rw [places_append]
    exact hT.two_fields hrow (elim fun d => hT.expressionSteps src d) (elim fun d => hT.self d.node)
  · exact hT.nil c.node

theorem assignmentPlan (src : Source) {c : Cursor} (hrow : c.node.fieldRow = [.left, .right]) :
    T c.node (places (assignmentPlan src c)) := by
  unfold Scope.assignmentPlan
  rw [places_append]
  refine hT.two_fields hrow (elim fun d => ?_) (elim fun d => hT.self d.node)
  split
  · exact hT.unwrap d
  · exact hT.targetSteps src d

theorem updatePlan (c : Cursor) : T c.node (places (updatePlan c)) := by
  unfold Scope.updatePlan
  split
  · next argument ha =>
    -- the operand is a child, by its field or as the first element
    have hmem : argument.node ∈ c.node.children := by
      cases hf : c.child? .argument with
      | some q =>
        rw [hf] at ha
        cases ha
        exact mem_children_of_child? (Cursor.node_child? hf)
      | none =>
        rw [hf] at ha
        have he := List.mem_map_of_mem (f := Cursor.node) (List.mem_of_mem_head? ha)
        rw [Cursor.map_node_elements] at he
        exact mem_children_of_mem_elements he
    split
    · exact hT.trans (hT.child hmem) (hT.unwrap argument)
    · exact hT.child hmem
  · exact hT.nil c.node

theorem tagNameSteps (src : Source) (c : Cursor) : T c.node (places (tagNameSteps src c)) := by
  unfold Scope.tagNameSteps
  split
  · split
    · exact hT.self c.node
    · exact hT.nil c.node
  · exact hT.self c.node
  · split
    · next root hr =>
      have hmem := List.mem_map_of_mem (f := Cursor.node) (List.mem_of_find?_eq_some hr)
      rw [Cursor.map_node_namedChildren] at hmem
      exact hT.child (mem_children_of_mem_namedChildren hmem)
    · exact hT.nil c.node
  · exact hT.nil c.node

theorem tagPlan (src : Source) (c : Cursor) : T c.node (places (tagPlan src c)) := by
  unfold Scope.tagPlan
  split
  · refine hT.places_flatMap ?_ fun d _ => ?_
    · rw [Cursor.map_node_children]
      exact hT.children c.node
    · split
      · exact hT.tagNameSteps src d
      · exact hT.self d.node
  · exact hT.visits_children c

/-- **One step of the walk takes parts of its node**, for every division into parts. -/
theorem plan (src : Source) (c : Cursor) : T c.node (places (plan src c)) := by
  have hscope : ∀ ds : List Declaration,
      T c.node (places (bracket .block c.node (declares ds ++ visits c.children))) := by
    intro ds
    rw [places_bracket, places_append, places_declares, List.nil_append]
    exact hT.visits_children c
  unfold Scope.plan
  split
  · exact hT.self c.node
  · next hrole => exact hT.functionPlan (fieldRow_of_role_function hrole)
  · exact hscope _
  · exact hscope _
  · exact hT.forInPlan src c
  · next hrole => exact hT.catchPlan src (fieldRow_of_role_catch hrole)
  · exact hT.classPlan src c
  · refine hT.places_flatMap ?_ fun d _ => hT.declaratorSteps src d
    rw [Cursor.map_node_namedChildren]
    exact hT.namedChildren c.node
  · next hrole => exact hT.assignmentPlan src (fieldRow_of_role_assignment hrole)
  · exact hT.updatePlan c
  · rw [places_call]
    exact hT.visits_children c
  · exact hT.tagPlan src c
  · exact hT.nil c.node
  · exact hT.visits_children c

theorem modulePlan (src : Source) (root : Node) : T root (places (modulePlan src root)) := by
  unfold Scope.modulePlan
  dsimp only
  rw [places_bracket, places_append, places_declares, List.nil_append]
  exact hT.visits_children ⟨root, []⟩

end Division

/-! ### Tilings -/

/-- Tiling is a division. -/
theorem division_tiles : Division fun n ns => n.WellFormed → Tiles n ns where
  self _ := Tiles.self
  children _ := tiles_children
  row n h := tiles_fields h n.fieldRow_nodup
  sublist h hs hn := (h hn).sublist hs
  flatMap h hf hn := (h hn).flatMap hf

section Tilings

variable {c : Cursor}

/-- One step of the walk takes no part of its node twice. -/
theorem tiles_plan (src : Source) (h : c.node.WellFormed) : Tiles c.node (places (plan src c)) :=
  division_tiles.plan src c h

theorem tiles_modulePlan (src : Source) {root : Node} (h : root.WellFormed) :
    Tiles root (places (modulePlan src root)) := division_tiles.modulePlan src root h

end Tilings

/-! ### The whole walk -/

/-- The names that events use. -/
def useNodes (es : List Event) : List Node :=
  es.filterMap fun
    | .use c _ => some c.node
    | _ => none

section Events

variable {src : Source} {es fs : List Event} {steps : List Step} {outer : Node}

@[simp] theorem useNodes_append : useNodes (es ++ fs) = useNodes es ++ useNodes fs :=
  List.filterMap_append

theorem useNodes_singleton (e : Event) : useNodes [e] = (Step.place? (.emit e)).toList := by
  cases e with
  | enter kind n => rfl
  | leave => rfl
  | declare d => rfl
  | use c a => rfl
  | call n => rfl

theorem useNodes_unfoldSteps (src : Source) (steps : List Step) :
    useNodes (unfoldSteps src steps) = steps.flatMap fun
      | .emit e => useNodes [e]
      | .visit d => useNodes (events src d) := by
  unfold useNodes unfoldSteps
  rw [List.filterMap_flatMap]
  congr 1
  funext s
  cases s with
  | emit e => rfl
  | visit d => rfl

/-- If the places of steps tile a node, so do the names used in them. -/
theorem tiles_unfoldSteps (h : Tiles outer (places steps))
    (hv : ∀ d, .visit d ∈ steps → d.node.WellFormed → Tiles d.node (useNodes (events src d))) :
    Tiles outer (useNodes (unfoldSteps src steps)) := by
  rw [useNodes_unfoldSteps]
  refine h.flatMap fun s hs => ?_
  cases s with
  | visit d => exact Or.inr ⟨d.node, rfl, hv d hs⟩
  | emit e =>
    -- an event uses the place that it has, if any
    simp only [useNodes_singleton]
    cases hplace : Step.place? (.emit e) with
    | none => exact Or.inl rfl
    | some n => exact Or.inr ⟨n, rfl, Tiles.self⟩

/-- **The walk uses every name once**: the names used in a part of the tree tile it. -/
theorem tiles_events (src : Source) {c : Cursor} (h : c.node.WellFormed) :
    Tiles c.node (useNodes (events src c)) := by
  rw [events_eq]
  refine tiles_unfoldSteps (tiles_plan src h) fun d hd hn => ?_
  have hsize := plan_below d hd
  exact tiles_events src hn
termination_by sizeOf c.node

theorem tiles_moduleEvents (src : Source) {root : Node} (h : root.WellFormed) :
    Tiles root (useNodes (moduleEvents src root)) :=
  tiles_unfoldSteps (tiles_modulePlan src h) fun _ _ hd => tiles_events src hd

end Events

end HookLint.Scope
