import HookLint.Data.Assoc
import HookLint.Files.Pathname

/-!
# FileTree — the files of a system

Files are known by their plain names: the names on the way from the root, without points.  Every
beginning of the name of a file or of a folder is a folder.  A path starts at the root or at the
working directory and leads to a plain name: each step needs a folder to stand in, and double points
lead to the folder around.

The system may refuse requests.  Which steps it refuses to look up decides where a path leads at
all; names and paths that are too long are always refused.
-/

namespace HookLint.Files

/-- The contents of a file. -/
abbrev Bytes := List UInt8

/-- What a system may refuse: to look a name up in a folder, to list a folder, to read a file, and
to write to it. -/
inductive Request where
  | search | list | read | write
deriving DecidableEq, Repr

/-- The files by their plain names, and the folders that may be empty. -/
structure FileTree where
  files : Assoc (List String) Bytes := []
  folders : List (List String) := []
  /-- The working directory. -/
  here : List String := []
  /-- What is refused, by the plain name of the folder or the file. -/
  denies : Request → List String → Bool := fun _ _ => false

/-- Where a path leads: to a plain name, whether there is something or not, or nowhere, since a
folder on the way is missing.  A step that is refused leaves the question open. -/
inductive Lookup where
  | found (name : List String)
  | missing
  | refused
deriving DecidableEq, Repr

/-- The most bytes of a name. -/
def nameLimit : Nat := 255

/-- The most bytes of a path. -/
def pathLimit : Nat := 4095

namespace FileTree

/-- Whether a plain name is that of a folder. -/
def isFolder (t : FileTree) (name : List String) : Bool :=
  name.isEmpty || name.isPrefixOf t.here || t.folders.any (fun f => name.isPrefixOf f) ||
    t.files.any fun f => name.isPrefixOf f.1 && decide (name.length < f.1.length)

/-- Whether a step from a folder is refused. -/
def refuses (t : FileTree) (folder : List String) (step : String) : Bool :=
  t.denies .search folder || decide (nameLimit < step.utf8ByteSize)

/-- The plain name one step on; above the root is the root. -/
def next (folder : List String) (step : String) : List String :=
  if step = ".." then folder.dropLast else folder ++ [step]

/-- Where steps lead from a plain name. -/
def walk (t : FileTree) (name : List String) : List String → Lookup
  | [] => .found name
  | step :: steps =>
    if !t.isFolder name then .missing
    else if t.refuses name step then .refused
    else walk t (next name step) steps

/-- Where a path starts. -/
def start (t : FileTree) (p : Pathname) : List String := if p.isAbsolute then [] else t.here

/-- Where a path leads. -/
def lookup (t : FileTree) (p : Pathname) : Lookup :=
  if pathLimit < p.text.utf8ByteSize then .refused else t.walk (t.start p) p.parts

/-- Whether the system says what is at a path. -/
def answers (t : FileTree) (p : Pathname) : Bool := t.lookup p ≠ .refused

/-- The plain name that a path leads to. -/
def locate? (t : FileTree) (p : Pathname) : Option (List String) :=
  match t.lookup p with
  | .found name => some name
  | .missing | .refused => none

/-- The contents of the file at a path, whether they may be read or not. -/
def contents? (t : FileTree) (p : Pathname) : Option Bytes :=
  (t.locate? p).bind (Assoc.get? t.files)

/-- Whether there is a file at a path. -/
def isFile (t : FileTree) (p : Pathname) : Bool := (t.contents? p).isSome

/-- Whether there is a folder at a path. -/
def isDirectory (t : FileTree) (p : Pathname) : Bool := (t.locate? p).any t.isFolder

/-- Whether a request about what is at a path is granted. -/
def grants (t : FileTree) (r : Request) (p : Pathname) : Bool :=
  (t.locate? p).any fun name => !t.denies r name

/-- What is read from the file at a path. -/
def read? (t : FileTree) (p : Pathname) : Option Bytes :=
  if t.grants .read p then t.contents? p else none

/-! ### What is below a folder -/

/-- The name from a folder on, if it lies below. -/
def below? (folder name : List String) : Option (List String) :=
  if folder.isPrefixOf name && decide (folder.length < name.length) then
    some (name.drop folder.length)
  else none

/-- Whether listing folders, from the given one on, comes upon a name below it. -/
def reaches (t : FileTree) (folder : List String) : List String → Bool
  | [] => true
  | step :: steps => !t.denies .list folder && reaches t (folder ++ [step]) steps

/-- The names from a folder on that listing comes upon, of those given. -/
def reached (t : FileTree) (folder : List String) (names : List (List String)) :
    List (List String) :=
  (names.filterMap (below? folder)).filter (t.reaches folder)

/-- The beginnings of a plain name, the whole of it among them. -/
def beginnings (name : List String) : List (List String) :=
  (List.range (name.length + 1)).map name.take

/-- The plain names of all files and folders. -/
def names (t : FileTree) : List (List String) :=
  (Assoc.keys t.files ++ t.here :: t.folders).flatMap beginnings

/-- The files below the folder at a path that listing comes upon, by their names from there. -/
def below (t : FileTree) (p : Pathname) : List (List String) :=
  match t.locate? p with
  | none => []
  | some folder => t.reached folder (Assoc.keys t.files)

/-- The files and folders below the folder at a path that listing comes upon, by their names from
there. -/
def entries (t : FileTree) (p : Pathname) : List (List String) :=
  match t.locate? p with
  | none => []
  | some folder => t.reached folder t.names

/-- The files after writing to the file at a path. -/
def write (t : FileTree) (p : Pathname) (contents : Bytes) : FileTree :=
  match t.locate? p with
  | some name => { t with files := Assoc.put t.files name contents }
  | none => t

/-- The path of the working directory. -/
def workingDirectory (t : FileTree) : Pathname := ⟨"/", t.here⟩

end FileTree

/-- The text that bytes encode in UTF-8. -/
def decode? (contents : Bytes) : Option String := String.fromUTF8? ⟨contents.toArray⟩

/-- The bytes of a text. -/
def encode (text : String) : Bytes := text.toUTF8.toList

end HookLint.Files
