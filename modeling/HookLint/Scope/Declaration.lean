import HookLint.Scope.Pattern
import HookLint.Syntax.Call

/-!
# Declaration — what a region of a program declares

A function body, a block or a module declares its names before anything in it is evaluated.  Two
lists are put together: `hoistStatement` gives the names of the region's own statements, and
`hoistVars` the `var` names of the whole region, nested blocks included, nested functions and
classes not.
-/

namespace HookLint.Scope

open Syntax

/-- What a name stands for. -/
inductive BindingKind where
  | parameter
  /-- A variable, other than the results of hooks. -/
  | value
  | imported
  /-- A variable whose initializer calls a hook. -/
  | hookResult
  | function
  | classValue
deriving DecidableEq, Repr

/-- The words that declare variables. -/
inductive Keyword where
  | varWord | letWord | constWord
deriving DecidableEq, Repr

/-- A name with what it stands for, where it is declared, and the initializer it takes a slot of. -/
structure Declaration where
  name : String
  kind : BindingKind
  node : Node
  keyword : Option Keyword := none
  init : Option Node := none
  slot : Slot := .whole

/-- The keyword that a token is. -/
def Keyword.ofKind? : Kind → Option Keyword
  | .varWord => some .varWord
  | .letWord => some .letWord
  | .constWord => some .constWord
  | _ => none

/-- The keyword of a declaration or of the head of a loop. -/
def keyword? (n : Node) : Option Keyword :=
  ((n.child? .kind).bind fun k => Keyword.ofKind? k.kind) <|>
    n.children.findSome? fun c => Keyword.ofKind? c.kind

section

variable (src : Source)

/-- One declaration for each name that a pattern binds. -/
def declarePattern (pattern : Cursor) (kind : BindingKind) (keyword : Option Keyword)
    (init : Option Node) (node : Node) : List Declaration :=
  (parts src pattern none).filterMap fun
    | .target name slot => some ⟨src.textOf name.node, kind, node, keyword, init, slot⟩
    | .expression _ => none

/-- Whether a variable with this initializer holds the result of a hook. -/
def initialKind (value : Option Cursor) : BindingKind :=
  match value with
  | some v =>
    let inner := v.node.unwrap
    if inner.kind = .callExpression ∧ (src.calleeName? inner).any isHookName then .hookResult
    else .value
  | none => .value

/-- The names of the declarators of a variable declaration. -/
def hoistDeclarators (declaration : Cursor) (keyword : Keyword) : List Declaration :=
  declaration.namedChildren.flatMap fun d =>
    if d.kind = .variableDeclarator then
      match d.child? .name with
      | some pattern =>
        let value := d.child? .value
        declarePattern src pattern (initialKind src value) (some keyword) (value.map (·.node))
          d.node
      | none => []
    else []

/-- A name that an import statement brings in. -/
def importName (statement name : Cursor) : Declaration :=
  { name := src.textOf name.node, kind := .imported, node := statement.node }

/-- The local names of an import statement. -/
def hoistImport (statement : Cursor) : List Declaration :=
  (statement.namedChildren.filter fun c => c.kind = .importClause).flatMap fun clause =>
    clause.namedChildren.flatMap fun part =>
      match part.kind with
      | .identifier => [importName src statement part]
      | .namespaceImport =>
        (part.namedChildren.filter fun c => c.kind = .identifier).map (importName src statement)
      | .namedImports =>
        (part.namedChildren.filter fun c => c.kind = .importSpecifier).filterMap fun specifier =>
          (specifier.child? .alias <|> specifier.child? .name).map (importName src statement)
      | _ => []

/-- The name of a function or class declaration, which is its own initializer. -/
def hoistNamed (statement : Cursor) (kind : BindingKind) : List Declaration :=
  match statement.child? .name with
  | some name =>
    [{ name := src.textOf name.node, kind, node := statement.node, init := some statement.node }]
  | none => []

/-- The names that a statement declares in the region it stands in.  An exported declaration is
declared as if it stood alone. -/
def hoistStatement (statement : Cursor) : List Declaration :=
  match statement.kind with
  | .exportStatement =>
    match _h : statement.child? .declaration with
    | some declaration => hoistStatement declaration
    | none =>
      statement.namedChildren.flatMap fun c =>
        match c.kind with
        | .functionDeclaration => hoistNamed src c .function
        | .classDeclaration => hoistNamed src c .classValue
        | _ => []
  | .lexicalDeclaration =>
    hoistDeclarators src statement ((keyword? statement.node).getD .letWord)
  | .functionDeclaration | .generatorDeclaration => hoistNamed src statement .function
  | .classDeclaration => hoistNamed src statement .classValue
  | .importStatement => hoistImport src statement
  | _ => []
termination_by sizeOf statement.node
decreasing_by exact Cursor.sizeOf_child? (by assumption)

/-- The names that the statements of a region declare. -/
def hoistBlock (statements : List Cursor) : List Declaration :=
  statements.flatMap (hoistStatement src)

/-- The `var` names that a node itself declares. -/
def ownVars (c : Cursor) : List Declaration :=
  match c.kind with
  | .variableDeclaration => hoistDeclarators src c .varWord
  | .forIn =>
    if keyword? c.node = some .varWord then
      match c.child? .left with
      | some left => declarePattern src left .value (some .varWord) none left.node
      | none => []
    else []
  | _ => []

/-- Whether `var` names below a node of this kind belong to a region of their own. -/
def closesVars (k : Kind) : Bool := k.isFunction || k = .classDeclaration || k = .classWord

/-- The `var` names of a region, outer ones first. -/
def hoistVars (region : Cursor) : List Declaration :=
  (region.children.filter fun c => !closesVars c.kind).attach.flatMap fun c =>
    ownVars src c.1 ++ hoistVars c.1
termination_by sizeOf region.node
decreasing_by exact Cursor.sizeOf_of_mem_children (List.mem_filter.mp c.2).1

theorem hoistVars_eq (region : Cursor) :
    hoistVars src region = (region.children.filter fun c => !closesVars c.kind).flatMap fun c =>
      ownVars src c ++ hoistVars src c := by
  rw [hoistVars]
  exact flatMap_attach fun x => rfl

end

end HookLint.Scope
