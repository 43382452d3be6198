import HookLint.Files.Discovery
import HookLint.Options.Validation

/-!
# Loading — options from files

Options are read from a given file, or else from the options file of a folder, or else from a table
of the project file there.  A project file without the table is as good as none, unless it was given
by name.  The folder is the working directory, unless another one is given.
-/

namespace HookLint.Options

open Files

/-- The table of the project file that holds options. -/
def tableName : String := "exhaustive-deps"

/-- The project file. -/
def projectFile : String := "pyproject.toml"

/-- Why options cannot be loaded. -/
inductive LoadError where
  | notFound (path : Pathname)
  /-- The file may not be read. -/
  | unreadable (path : Pathname)
  /-- The text is not of the expected format. -/
  | malformed (path : Pathname)
  | notObject (path : Pathname)
  /-- The table of options is some other value. -/
  | notTable (path : Pathname)
  | noTable (path : Pathname)
  | invalid (name : String) (problems : List Problem)
  /-- The system does not say what is at the path. -/
  | inaccessible (path : Pathname)
  /-- The file is no UTF-8 text. -/
  | undecodable (path : Pathname)
  /-- The text asks for more than its reader can do, as a number of too many digits does. -/
  | excessiveText (path : Pathname)
  /-- What should hold the table of options is no table. -/
  | noToolTable (path : Pathname)
  /-- The pattern for further hooks asks for too many repetitions. -/
  | excessivePattern (name : String)
deriving DecidableEq, Repr

namespace LoadError

/-- Whether the error is reported as one of the configuration.  The last five are not: they end the
program. -/
def isReported : LoadError → Bool
  | .inaccessible _ | .undecodable _ | .excessiveText _ | .noToolTable _
  | .excessivePattern _ => false
  | _ => true

/-- The number of faults in words. -/
def countText (n : Nat) : String :=
  if n = 1 then "1 validation error" else toString n ++ " validation errors"

/-- The wording of an error. -/
def message : LoadError → String
  | .notFound path => "Options file not found: " ++ path.text
  | .unreadable path | .malformed path => "Cannot read options file " ++ path.text
  | .notObject path => "Options file " ++ path.text ++ " must contain a JSON object"
  | .notTable path => "[tool." ++ tableName ++ "] in " ++ path.text ++ " must be a table"
  | .noTable path => "No [tool." ++ tableName ++ "] table in " ++ path.text
  | .invalid name problems =>
    "Invalid options in " ++ name ++ ": " ++ countText problems.length ++ " for RuleOptions"
  | .inaccessible path => "Cannot look at " ++ path.text
  | .undecodable path => "Options file " ++ path.text ++ " is not UTF-8 text"
  | .excessiveText path => "Options file " ++ path.text ++ " asks for more than can be read"
  | .noToolTable path => "[tool] in " ++ path.text ++ " must be a table"
  | .excessivePattern name => "Too many repetitions in a pattern of " ++ name

end LoadError

/-- Options, or why there are none. -/
abbrev Loaded (α : Type) := Except LoadError α

/-- The options after a check; faults are reported under the given name.  A pattern with too many
repetitions cuts the check short, whatever the other faults are. -/
def ofChecked (name : String) : Checked Options → Loaded Options
  | .ok o => .ok o
  | .error problems =>
    if problems.any fun p => p.kind = .excessivePattern then .error (.excessivePattern name)
    else .error (.invalid name problems)

/-- What a reader makes of the text of a file. -/
def ofParsed {α : Type} (path : Pathname) : Text.Parsed α → Loaded α
  | .ok a => .ok a
  | .error .malformed => .error (.malformed path)
  | .error .excessive => .error (.excessiveText path)

/-- The table of options in a document. -/
def findTable (path : Pathname) (document : Toml.Table) : Loaded (Option Value) :=
  match Assoc.get? document "tool" with
  | none => .ok none
  | some (.object tools) =>
    match Assoc.get? tools tableName with
    | none => .ok none
    | some (.object members) => .ok (some (.object members))
    | some _ => .error (.notTable path)
  | some _ => .error (.noToolTable path)

/-- The text of a file. -/
def readText (t : FileTree) (path : Pathname) : Loaded String :=
  match t.read? path with
  | none => .error (.unreadable path)
  | some contents =>
    match decode? contents with
    | some text => .ok text
    | none => .error (.undecodable path)

/-- Whether there is a file at a path, if the system says so. -/
def hasFile (t : FileTree) (path : Pathname) : Loaded Bool :=
  if t.answers path then .ok (t.isFile path) else .error (.inaccessible path)

/-- The options that a value writes. -/
def parse (v : Value) (name : String) (readers : Readers := {}) : Loaded Options :=
  ofChecked name (ofValue readers v)

/-- The object of a JSON file. -/
def readObject (t : FileTree) (path : Pathname) (readers : Readers := {}) : Loaded Value := do
  match ← ofParsed path (readers.json (← readText t path)) with
  | .object members => .ok (.object members)
  | _ => .error (.notObject path)

/-- The table of options in a TOML file, if it has one. -/
def readTable (t : FileTree) (path : Pathname) (readers : Readers := {}) :
    Loaded (Option Value) := do
  findTable path (← ofParsed path (readers.toml (← readText t path)))

/-- The options of the given file. -/
def loadFrom (t : FileTree) (path : Pathname) (readers : Readers := {}) : Loaded Options := do
  if !(← hasFile t path) then .error (.notFound path)
  else if path.suffix = ".toml" then
    match ← readTable t path readers with
    | some table => parse table path.text readers
    | none => .error (.noTable path)
  else parse (← readObject t path readers) path.text readers

/-- The options found in a folder, the default ones if there are none. -/
def search (t : FileTree) (config : Config) (folder : Pathname) (readers : Readers := {}) :
    Loaded Options := do
  let optionsFile := folder.join (.ofString config.optionsFile)
  let project := folder.join (.ofString projectFile)
  if ← hasFile t optionsFile then
    parse (← readObject t optionsFile readers) optionsFile.text readers
  else if ← hasFile t project then
    match ← readTable t project readers with
    | some table => parse table project.text readers
    | none => .ok {}
  else .ok {}

/-- The options of the given file, or else those found in a folder. -/
def load (t : FileTree) (config : Config) (path folder : Option Pathname)
    (readers : Readers := {}) : Loaded Options :=
  match path with
  | some path => loadFrom t path readers
  | none => search t config (folder.getD t.workingDirectory) readers

/-- The options with settings from the command line over them. -/
def override (o : Options) (overrides : List (Setting × Value)) (readers : Readers := {}) :
    Loaded Options :=
  if overrides.isEmpty then .ok o
  else ofChecked "command line" (o.withOverrides readers overrides)

end HookLint.Options
