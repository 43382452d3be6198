import HookLint.Files.FileTree

/-!
# Discovery — which files are linted

A file that is named is linted whatever it is called.  A folder stands for the files below it that
have one of the known suffixes and no excluded name on the way, ordered by the names on their
paths.  No path is listed twice.

Whatever is below a folder is looked at, files and folders alike, before anything is left out.  If
the system does not say what is at a path that is looked at, discovery fails.
-/

namespace HookLint.Files

/-- What is looked for, and where. -/
structure Config where
  extensions : List String := [".js", ".jsx", ".mjs", ".cjs"]
  excluded : List String := ["node_modules", ".git", "dist", "build", "coverage", ".next"]
  optionsFile : String := ".exhaustive-deps.json"

/-- Why a source cannot be read. -/
inductive SourceError where
  | noSuchFile (path : Pathname)
  | unreadable (path : Pathname)
  /-- The system does not say what is at the path, or at one below it. -/
  | inaccessible (path : Pathname)
deriving DecidableEq, Repr

namespace SourceError

/-- Whether the error is reported as one of a source.  The last one is not: it ends the program. -/
def isReported : SourceError → Bool
  | .inaccessible _ => false
  | _ => true

/-- The wording of an error. -/
def message : SourceError → String
  | .noSuchFile path => "No such file or directory: " ++ path.text
  | .unreadable path => "Cannot read " ++ path.text
  | .inaccessible path => "Cannot look at " ++ path.text

end SourceError

/-- Whether a file below a folder is linted, by its name from there. -/
def Config.accepts (c : Config) (name : List String) : Bool :=
  c.extensions.contains (Pathname.suffixOf (name.getLastD "")) &&
    !name.any fun part => c.excluded.contains part

/-- The files that a folder stands for. -/
def filesBelow (c : Config) (t : FileTree) (folder : Pathname) : List Pathname :=
  let names := ((t.below folder).filter c.accepts).mergeSort fun a b => !decide (b < a)
  names.map fun name => ⟨folder.root, folder.parts ++ name⟩

/-- Whether the system says what is at each path below a folder. -/
def answersBelow (t : FileTree) (folder : Pathname) : Bool :=
  (t.entries folder).all fun name => t.answers (folder.join ⟨"", name⟩)

/-- The files that a path stands for. -/
def candidates (c : Config) (t : FileTree) (p : Pathname) : Except SourceError (List Pathname) :=
  if !t.answers p then .error (.inaccessible p)
  else if t.isFile p then .ok [p]
  else if t.isDirectory p then
    if answersBelow t p then .ok (filesBelow c t p) else .error (.inaccessible p)
  else .error (.noSuchFile p)

/-- A list with the new members of another after it. -/
def addNew (found new : List Pathname) : List Pathname :=
  new.foldl (fun acc p => if acc.contains p then acc else acc ++ [p]) found

/-- The files that paths stand for, each once; the first path that stands for nothing, or
that the system says nothing of, is an error. -/
def sourceFiles (c : Config) (t : FileTree) (paths : List Pathname) :
    Except SourceError (List Pathname) :=
  paths.foldlM (fun found p => (candidates c t p).map (addNew found)) []

end HookLint.Files
