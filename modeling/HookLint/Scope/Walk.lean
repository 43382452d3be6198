import HookLint.Scope.Store

/-!
# Walk — a program as the list of its scope events

The walk goes through a tree once, from the outside in, and lists what happens to scopes and names:
a scope opens or closes, a name is declared or used, a call is met.  No decision of the walk depends
on what the names mean, so the list is computed from the tree alone, and giving names their meaning
is a fold over the list (`Scope.Tree`).

`plan` is one step of the walk: the events of a node itself, with the parts that are still to be
visited in their places.  `events` unfolds it; that ends because every such part is smaller than
the node (`plan_below`).
-/

namespace HookLint.Scope

open Syntax

/-- What a use does with the value of a name. -/
inductive Access where
  | read | write
  /-- Reads and writes, as in `x += 1`. -/
  | update
deriving DecidableEq, Repr

/-- Whether the old value is read. -/
def Access.reads : Access → Bool
  | .read | .update => true
  | .write => false

/-- Whether a new value is written. -/
def Access.writes : Access → Bool
  | .write | .update => true
  | .read => false

/-- What happens to scopes and names on the walk. -/
inductive Event where
  | enter (kind : ScopeKind) (node : Node)
  | leave
  | declare (d : Declaration)
  | use (name : Cursor) (access : Access)
  | call (node : Node)

/-- A step of the walk: an event, or a part of the tree that is visited in its place. -/
inductive Step where
  | emit (e : Event)
  | visit (c : Cursor)

/-- How the walk treats a node. -/
inductive Role where
  /-- An identifier that stands for its value. -/
  | name
  | function
  /-- A region with a scope and declarations of its own. -/
  | block
  | forLoop
  | forIn
  | catchClause
  | classBody
  /-- A variable declaration: its names are declared already, its expressions are visited. -/
  | declaration
  | assignment
  | update
  | call
  /-- A markup tag. -/
  | tag
  /-- Nothing inside is a use. -/
  | skipped
  /-- The children are visited in turn. -/
  | plain
deriving DecidableEq

/-- The role of a kind of nodes. -/
def Role.ofKind : Kind → Role
  | .identifier | .shorthandProperty => .name
  | .arrowFunction | .functionExpression | .functionWord | .generatorFunction
  | .functionDeclaration | .generatorDeclaration | .methodDefinition => .function
  | .statementBlock | .switchBody => .block
  | .forStatement => .forLoop
  | .forIn => .forIn
  | .catchClause => .catchClause
  | .classDeclaration | .classWord => .classBody
  | .lexicalDeclaration | .variableDeclaration => .declaration
  | .assignment | .augmentedAssignment => .assignment
  | .update => .update
  | .callExpression => .call
  | .jsxOpening | .jsxSelfClosing => .tag
  | .jsxClosing | .importStatement | .exportClause => .skipped
  | _ => .plain

/-- Visits in turn. -/
def visits (cs : List Cursor) : List Step := cs.map .visit

/-- Declarations in turn. -/
def declares (ds : List Declaration) : List Step := ds.map fun d => .emit (.declare d)

/-- A scope around steps. -/
def bracket (kind : ScopeKind) (node : Node) (body : List Step) : List Step :=
  .emit (.enter kind node) :: body ++ [.emit .leave]

/-- Whether two parts of a node stand in one place. -/
def sameSpot (a b : Node) : Bool := a.start = b.start && a.kind = b.kind

section

variable (src : Source)

/-! ### Patterns on the walk -/

/-- The names of a pattern are declared as parameters, its expressions are visited. -/
def parameterSteps (pattern : Cursor) : List Step :=
  (parts src pattern none).map fun
    | .target name _ =>
      .emit (.declare
        { name := src.textOf name.node, kind := .parameter, node := pattern.node })
    | .expression c => .visit c

/-- The names of a pattern are written, its expressions are visited. -/
def writeSteps (pattern : Cursor) : List Step :=
  (parts src pattern none).map fun
    | .target name _ => .emit (.use name .write)
    | .expression c => .visit c

/-- Only the expressions of a pattern are visited. -/
def expressionSteps (pattern : Cursor) : List Step :=
  (parts src pattern none).flatMap fun
    | .target _ _ => []
    | .expression c => [.visit c]

/-- The left side of an assignment: a name or a pattern is written, all else is visited. -/
def targetSteps (target : Cursor) : List Step :=
  let inner := target.unwrap
  match inner.kind with
  | .identifier => [.emit (.use inner .write)]
  | .objectPattern | .arrayPattern => writeSteps src inner
  | _ => [.visit inner]

/-! ### One step for each role -/

/-- The computed name of a method, which belongs to the region around the method. -/
def methodNameSteps (c : Cursor) : List Step :=
  if c.kind = .methodDefinition then
    match c.child? .name with
    | some name => if name.kind = .computedName then [.visit name] else []
    | none => []
  else []

/-- The name of a function expression, which is visible inside the function only. -/
def ownNameSteps (c : Cursor) : List Step :=
  match c.kind with
  | .methodDefinition | .functionDeclaration | .generatorDeclaration => []
  | _ =>
    match c.child? .name with
    | some name =>
      declares [{ name := src.textOf name.node, kind := .function, node := c.node,
                  init := some c.node }]
    | none => []

/-- The parameters of a function: a list of patterns, or one name. -/
def parameterListSteps (c : Cursor) : List Step :=
  match c.child? .parameters <|> c.child? .parameter with
  | some params =>
    if params.kind = .identifier then parameterSteps src params
    else params.elements.flatMap (parameterSteps src)
  | none => []

/-- The body of a function: statements with their declarations, or one expression. -/
def bodySteps (c : Cursor) : List Step :=
  match c.child? .body with
  | some body =>
    if body.kind = .statementBlock then
      declares (hoistBlock src body.children ++ hoistVars src body) ++ visits body.children
    else [.visit body]
  | none => []

/-- A function: its name and parameters are declared in the scope of its body. -/
def functionPlan (c : Cursor) : List Step :=
  methodNameSteps c ++
    bracket .function c.node (ownNameSteps src c ++ parameterListSteps src c ++ bodySteps src c)

/-- A block declares what its statements declare. -/
def blockPlan (c : Cursor) : List Step :=
  bracket .block c.node (declares (hoistBlock src c.children) ++ visits c.children)

/-- The head of a loop, if it declares block-scoped variables. -/
def loopHead? (c : Cursor) : Option Cursor :=
  (c.child? .initializer <|> c.namedChildren.find? fun h => h.kind = .lexicalDeclaration).filter
    fun h => h.kind = .lexicalDeclaration

/-- A loop with a head declares the variables of its head. -/
def forPlan (c : Cursor) : List Step :=
  bracket .block c.node
    (declares ((loopHead? c).elim [] (hoistStatement src)) ++ visits c.children)

/-- The names that the head of a `for … in` or `for … of` loop declares in the loop. -/
def forInNames (c : Cursor) : List Declaration :=
  match keyword? c.node, c.child? .left with
  | some .varWord, _ | none, _ | _, none => []
  | some keyword, some left => declarePattern src left .value (some keyword) none left.node

/-- A child of a `for … in` loop: the left side is written, unless it is a declaration. -/
def forInChild (c child : Cursor) : List Step :=
  match c.child? .left with
  | some left =>
    if sameSpot child.node left.node then
      if (keyword? c.node).isNone then targetSteps src child else expressionSteps src child
    else [.visit child]
  | none => [.visit child]

/-- A loop over the keys or items of a value. -/
def forInPlan (c : Cursor) : List Step :=
  bracket .block c.node (declares (forInNames src c) ++ c.children.flatMap (forInChild src c))

/-- A catch clause declares its parameter. -/
def catchPlan (c : Cursor) : List Step :=
  bracket .block c.node
    ((c.child? .parameter).elim [] (parameterSteps src) ++
      (c.child? .body).elim [] fun body => [.visit body])

/-- A class; the name of a class expression is visible inside the class only. -/
def classPlan (c : Cursor) : List Step :=
  match c.child? .name with
  | some name =>
    bracket .block c.node
      ((if c.kind = .classWord then
          declares [{ name := src.textOf name.node, kind := .classValue, node := c.node,
                      init := some c.node }]
        else []) ++
        visits (c.children.filter fun child => !sameSpot child.node name.node))
  | none => bracket .block c.node (visits c.children)

/-- A declarator: the expressions of its pattern, then its initializer. -/
def declaratorSteps (d : Cursor) : List Step :=
  if d.kind = .variableDeclarator then
    (d.child? .name).elim [] (expressionSteps src) ++
      (d.child? .value).elim [] fun value => [.visit value]
  else []

/-- The left side of an assignment, then its right side. -/
def assignmentPlan (c : Cursor) : List Step :=
  ((c.child? .left).elim [] fun left =>
    if c.kind = .augmentedAssignment ∧ left.unwrap.kind = .identifier then
      [.emit (.use left.unwrap .update)]
    else targetSteps src left) ++
  (c.child? .right).elim [] fun right => [.visit right]

/-- The operand of `++` or `--`. -/
def updatePlan (c : Cursor) : List Step :=
  match c.child? .argument <|> c.elements.head? with
  | some argument =>
    if argument.unwrap.kind = .identifier then [.emit (.use argument.unwrap .update)]
    else [.visit argument]
  | none => []

/-- The name of a tag: a capital tells a component from an element of the page. -/
def tagNameSteps (name : Cursor) : List Step :=
  match name.kind with
  | .identifier =>
    if (src.textOf name.node).toList.head?.any Text.isUpper then [.emit (.use name .read)] else []
  | .memberExpression => [.visit name]
  | .nestedIdentifier =>
    match name.namedChildren.find? fun n => n.kind = .identifier with
    | some root => [.emit (.use root .read)]
    | none => []
  | _ => []

/-- A tag with its attributes. -/
def tagPlan (c : Cursor) : List Step :=
  match c.child? .name with
  | some name =>
    c.children.flatMap fun child =>
      if sameSpot child.node name.node then tagNameSteps src child else [.visit child]
  | none => visits c.children

/-- One step of the walk. -/
def plan (c : Cursor) : List Step :=
  match Role.ofKind c.kind with
  | .name => [.emit (.use c .read)]
  | .function => functionPlan src c
  | .block => blockPlan src c
  | .forLoop => forPlan src c
  | .forIn => forInPlan src c
  | .catchClause => catchPlan src c
  | .classBody => classPlan src c
  | .declaration => c.namedChildren.flatMap (declaratorSteps src)
  | .assignment => assignmentPlan src c
  | .update => updatePlan c
  | .call => .emit (.call c.node) :: visits c.children
  | .tag => tagPlan src c
  | .skipped => []
  | .plain => visits c.children

/-! ### Every visit goes down -/

/-- All visits among the steps are to nodes below the size `n`. -/
def Below (n : Nat) (steps : List Step) : Prop := ∀ d, Step.visit d ∈ steps → sizeOf d.node < n

namespace Below

variable {n : Nat} {s t : List Step}

theorem nil : Below n [] := fun _ h => nomatch h

theorem append (hs : Below n s) (ht : Below n t) : Below n (s ++ t) := fun d h =>
  (List.mem_append.mp h).elim (hs d) (ht d)

theorem emit {e : Event} (hs : Below n s) : Below n (.emit e :: s) := fun d h =>
  (List.mem_cons.mp h).elim (fun h => nomatch h) (hs d)

theorem visit {c : Cursor} (h : sizeOf c.node < n) : Below n [.visit c] := fun d hd => by
  obtain rfl := Step.visit.inj (List.mem_singleton.mp hd)
  exact h

theorem visits {cs : List Cursor} (h : ∀ c ∈ cs, sizeOf c.node < n) : Below n (visits cs) :=
  fun d hd => by
    obtain ⟨c, hc, he⟩ := List.mem_map.mp hd
    obtain rfl := Step.visit.inj he
    exact h c hc

theorem declares {ds : List Declaration} : Below n (declares ds) := fun d h => by
  obtain ⟨x, _, he⟩ := List.mem_map.mp h
  cases he

theorem bracket {kind : ScopeKind} {node : Node} (h : Below n s) :
    Below n (bracket kind node s) := (h.append (emit nil)).emit

theorem flatMap {cs : List Cursor} {f : Cursor → List Step} (h : ∀ c ∈ cs, Below n (f c)) :
    Below n (cs.flatMap f) := fun d hd => by
  obtain ⟨c, hc, hd⟩ := List.mem_flatMap.mp hd
  exact h c hc d hd

theorem elim {o : Option Cursor} {f : Cursor → List Step} (h : ∀ c, o = some c → Below n (f c)) :
    Below n (o.elim [] f) := by
  cases o with
  | none => exact nil
  | some c => exact h c rfl

theorem mono {m : Nat} (h : Below n s) (hnm : n ≤ m) : Below m s := fun d hd =>
  Nat.lt_of_lt_of_le (h d hd) hnm

end Below

variable {src} {c p : Cursor} {n : Nat}

theorem Below.of_parts {s : List Step} (hp : sizeOf p.node < n)
    (h : ∀ d, Step.visit d ∈ s → Part.expression d ∈ parts src p none) : Below n s := fun d hd =>
  Nat.lt_of_le_of_lt (sizeOf_expression_parts (h d hd)) hp

theorem parameterSteps_below (hp : sizeOf p.node < n) : Below n (parameterSteps src p) :=
  Below.of_parts hp fun d hd => by
    obtain ⟨q, hq, he⟩ := List.mem_map.mp hd
    cases q with
    | target name slot => cases he
    | expression c => cases he; exact hq

theorem writeSteps_below (hp : sizeOf p.node < n) : Below n (writeSteps src p) :=
  Below.of_parts hp fun d hd => by
    obtain ⟨q, hq, he⟩ := List.mem_map.mp hd
    cases q with
    | target name slot => cases he
    | expression c => cases he; exact hq

theorem expressionSteps_below (hp : sizeOf p.node < n) : Below n (expressionSteps src p) :=
  Below.of_parts hp fun d hd => by
    obtain ⟨q, hq, he⟩ := List.mem_flatMap.mp hd
    cases q with
    | target name slot => simp at he
    | expression c => simp at he; cases he; exact hq

theorem targetSteps_below (hp : sizeOf p.node < n) : Below n (targetSteps src p) := by
  have hu : sizeOf p.unwrap.node < n := Nat.lt_of_le_of_lt (Cursor.sizeOf_unwrap_le p) hp
  unfold targetSteps
  dsimp only
  split
  · exact .emit .nil
  · exact writeSteps_below hu
  · exact writeSteps_below hu
  · exact .visit hu

theorem functionPlan_below : Below (sizeOf c.node) (functionPlan src c) := by
  refine .append ?_ (.bracket (.append (.append ?_ ?_) ?_))
  · unfold methodNameSteps
    split
    · split
      · split
        · exact .visit (Cursor.sizeOf_child? (by assumption))
        · exact .nil
      · exact .nil
    · exact .nil
  · unfold ownNameSteps
    split
    · exact .nil
    · exact .nil
    · exact .nil
    · split
      · exact .declares
      · exact .nil
  · unfold parameterListSteps
    split
    · next params hp =>
      have hs : sizeOf params.node < sizeOf c.node := by
        cases h : c.child? .parameters with
        | some q =>
          rw [h] at hp
          cases hp
          exact Cursor.sizeOf_child? h
        | none =>
          rw [h] at hp
          exact Cursor.sizeOf_child? hp
      split
      · exact parameterSteps_below hs
      · exact .flatMap fun d hd =>
          parameterSteps_below (Nat.lt_trans (Cursor.sizeOf_of_mem_elements hd) hs)
    · exact .nil
  · unfold bodySteps
    split
    · next body hb =>
      have hs := Cursor.sizeOf_child? hb
      split
      · exact .append .declares
          (.visits fun d hd => Nat.lt_trans (Cursor.sizeOf_of_mem_children hd) hs)
      · exact .visit hs
    · exact .nil

theorem children_below : Below (sizeOf c.node) (visits c.children) :=
  .visits fun _ hd => Cursor.sizeOf_of_mem_children hd

theorem forInPlan_below : Below (sizeOf c.node) (forInPlan src c) := by
  refine .bracket (.append .declares (.flatMap fun d hd => ?_))
  have hs := Cursor.sizeOf_of_mem_children hd
  unfold forInChild
  split
  · split
    · split
      · exact targetSteps_below hs
      · exact expressionSteps_below hs
    · exact .visit hs
  · exact .visit hs

theorem classPlan_below : Below (sizeOf c.node) (classPlan src c) := by
  unfold classPlan
  split
  · refine .bracket (.append ?_ (.visits fun d hd => ?_))
    · split
      · exact .declares
      · exact .nil
    · exact Cursor.sizeOf_of_mem_children (List.mem_filter.mp hd).1
  · exact .bracket children_below

theorem declaratorSteps_below (hp : sizeOf p.node < n) : Below n (declaratorSteps src p) := by
  unfold declaratorSteps
  split
  · exact .append
      (.elim fun d hd => expressionSteps_below (Nat.lt_trans (Cursor.sizeOf_child? hd) hp))
      (.elim fun d hd => .visit (Nat.lt_trans (Cursor.sizeOf_child? hd) hp))
  · exact .nil

theorem updatePlan_below : Below (sizeOf c.node) (updatePlan c) := by
  unfold updatePlan
  split
  · next argument ha =>
    split
    · exact .emit .nil
    · refine .visit ?_
      cases h : c.child? .argument with
      | some q =>
        rw [h] at ha
        cases ha
        exact Cursor.sizeOf_child? h
      | none =>
        rw [h] at ha
        exact Cursor.sizeOf_of_mem_elements (List.mem_of_mem_head? ha)
  · exact .nil

theorem tagPlan_below : Below (sizeOf c.node) (tagPlan src c) := by
  unfold tagPlan
  split
  · refine .flatMap fun d hd => ?_
    have hs := Cursor.sizeOf_of_mem_children hd
    split
    · unfold tagNameSteps
      split
      · split
        · exact .emit .nil
        · exact .nil
      · exact .visit hs
      · split
        · exact .emit .nil
        · exact .nil
      · exact .nil
    · exact .visit hs
  · exact children_below

/-- Every part that a step of the walk visits is smaller than the node. -/
theorem plan_below : Below (sizeOf c.node) (plan src c) := by
  unfold plan
  split
  · exact .emit .nil
  · exact functionPlan_below
  · exact .bracket (.append .declares children_below)
  · exact .bracket (.append .declares children_below)
  · exact forInPlan_below
  · exact .bracket (.append
      (.elim fun d hd => parameterSteps_below (Cursor.sizeOf_child? hd))
      (.elim fun d hd => .visit (Cursor.sizeOf_child? hd)))
  · exact classPlan_below
  · exact .flatMap fun d hd => declaratorSteps_below (Cursor.sizeOf_of_mem_namedChildren hd)
  · refine .append (.elim fun d hd => ?_) (.elim fun d hd => .visit (Cursor.sizeOf_child? hd))
    split
    · exact .emit .nil
    · exact targetSteps_below (Cursor.sizeOf_child? hd)
  · exact updatePlan_below
  · exact .emit children_below
  · exact tagPlan_below
  · exact .nil
  · exact children_below

/-! ### The whole walk -/

variable (src)

/-- The events of a part of the tree, in the order of the walk. -/
def events (c : Cursor) : List Event :=
  (plan src c).attach.flatMap fun
    | ⟨.emit e, _⟩ => [e]
    | ⟨.visit d, _⟩ => events d
termination_by sizeOf c.node
decreasing_by exact plan_below _ (by assumption)

/-- The events of steps: those emitted, with the events of each visited part in its place. -/
def unfoldSteps (steps : List Step) : List Event :=
  steps.flatMap fun
    | .emit e => [e]
    | .visit d => events src d

theorem events_eq (c : Cursor) : events src c = unfoldSteps src (plan src c) := by
  rw [events]
  refine flatMap_attach fun x => ?_
  obtain ⟨e | d, h⟩ := x <;> rfl

/-- The first step into a program: its module scope, all its declarations, then its statements. -/
def modulePlan (root : Node) : List Step :=
  let c : Cursor := ⟨root, []⟩
  bracket .module root
    (declares (hoistBlock src c.children ++ hoistVars src c) ++ visits c.children)

/-- The events of a program. -/
def moduleEvents (root : Node) : List Event := unfoldSteps src (modulePlan src root)

end

end HookLint.Scope
