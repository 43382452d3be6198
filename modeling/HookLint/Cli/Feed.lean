import HookLint.Json.Reader
import HookLint.Lint.Linter
import HookLint.Syntax.Encoding

/-!
# Feed — what the parser of a run tells it

Parsing is the work of another program, which writes one JSON object a line.  An object with a
`path` names a file; one with a `source` and a `tree` gives the syntax tree
of a text.  An object may do both, and lines of any other form say nothing.
-/

namespace HookLint.Cli

open Syntax Files Lint

/-- The files that there are, and the syntax trees of texts. -/
structure Feed where
  paths : List String := []
  trees : Assoc String Node := []

namespace Feed

/-- The path that an object names. -/
def path? (v : Value) : Option String :=
  match v.get? "path" with
  | some (.string path) => some path
  | _ => none

/-- The text that an object gives the tree of, with the tree. -/
def tree? (v : Value) : Option (String × Node) :=
  match v.get? "source", (v.get? "tree").bind Node.ofValue? with
  | some (.string source), some tree => some (source, tree)
  | _, _ => none

/-- What lines say. -/
def ofLines (lines : List String) : Feed :=
  let values := lines.filterMap Json.read?
  ⟨values.filterMap path?, values.filterMap tree?⟩

/-- A text without a tree is one that does not parse. -/
def parser (feed : Feed) : Lint.Parser := fun text =>
  (Assoc.get? feed.trees text).getD { kind := .error, broken := true }

end Feed

/-- The files with one more of them, unless its path goes up. -/
def addFile (t : FileTree) (path : String) (contents : Bytes) : FileTree :=
  let p := Pathname.ofString path
  if p.parts.contains ".." then t
  else { t with files := Assoc.put t.files (t.start p ++ p.parts) contents }

/-- The path of a plain name, from the working directory if it lies there. -/
def pathOf (t : FileTree) (name : List String) : Pathname :=
  match FileTree.below? t.here name with
  | some rest => ⟨"", rest⟩
  | none => ⟨"/", name⟩

/-- The files that differ between two states of a system, as they are afterwards. -/
def changes (before after : FileTree) : List (Pathname × Bytes) :=
  after.files.filterMap fun f =>
    if Assoc.get? before.files f.1 = some f.2 then none else some (pathOf before f.1, f.2)

end HookLint.Cli
