import HookLint.Cli.Arguments
import HookLint.Cli.Console
import HookLint.Log.Event
import HookLint.Options.Loading

/-!
# Run — what a command does

A run takes the words of the command line and the files, and answers with an exit code, what it
prints, the files after it, and the events it logs.  The code is 0 if nothing is left to report, 1
if something is, and 2 if the input is bad.  With `--fix` the files are fixed one after the other; a
file that cannot be read ends the run, and the files before it stay fixed.  What no handler expects
ends the run without a code of its own.
-/

namespace HookLint.Cli

open Files Lint

/-- What a run takes from elsewhere: the readers of options, the console, and what the words of a
command line mean. -/
structure Setup where
  readers : Options.Readers := {}
  console : Console := .standard
  command : List String → Option Command := Command.ofWords?

/-- What a run comes to.  `events` is there if a log was opened. -/
structure Outcome where
  exitCode : Nat
  output : String := ""
  error : Option String := none
  files : FileTree
  events : Option (List Log.Event) := none

/-- Why a run ends without an outcome. -/
inductive CrashCause where
  | options (e : Options.LoadError)
  | source (e : SourceError)
  | lint (e : LintError)
deriving DecidableEq, Repr

/-- The end of a run that no handler expects, with the files and the events it leaves. -/
structure Crash where
  cause : CrashCause
  files : FileTree
  events : Option (List Log.Event) := none

/-- The options of the check command: those of its files with the flags over them. -/
def resolveOptions (t : FileTree) (config : Config) (a : CheckArguments)
    (readers : Options.Readers := {}) : Options.Loaded Options := do
  let o ← Options.load t config (a.config.map .ofString) none readers
  o.override ((a.checkMemoized.map fun b => (.checkMemoized, .bool b)).toList ++
    (a.additionalHooks.map fun s => (.additionalHooks, .string s)).toList) readers

/-- Lints a file, or fixes it: its record, and the files after. -/
def checkFile (rule : Rule) (parse : Parser) (fix : Bool) (t : FileTree) (path : Pathname) :
    Except LintError (FileRecord × FileTree) :=
  if fix then (fixFile rule parse t path).map fun f => (⟨f.report, f.changed⟩, f.files)
  else
    match lintFile rule parse t path with
    | .ok report => .ok (⟨report, false⟩, t)
    | .error e => .error (.source e)

/-- The files checked so far: their records, the files after, and why it ended, if it did early. -/
structure Progress where
  records : List FileRecord := []
  files : FileTree
  failure : Option (Pathname × LintError) := none

/-- Checks files in turn, up to the first that fails. -/
def checkFiles (rule : Rule) (parse : Parser) (fix : Bool) (t : FileTree) :
    List Pathname → Progress
  | [] => { files := t }
  | path :: paths =>
    match checkFile rule parse fix t path with
    | .error e => { files := t, failure := some (path, e) }
    | .ok (record, t) =>
      let p := checkFiles rule parse fix t paths
      { p with records := record :: p.records }

/-! ### The log -/

/-- The block of a file that was checked. -/
def fileStep (record : FileRecord) : Log.Step :=
  .timed "lint.file" (some record.report.path) 0
    [.put "problems" (natValue record.report.diagnostics.length), .put "fixed" (.bool record.fixed)]

/-- The wording of the failure of a file. -/
def failureText : LintError → String
  | .source e => e.message
  | .garbledFix => "a fix left no text"
  | .unwritable path => "Cannot write " ++ path.text

/-- The event at the end of a run. -/
def runEvent (s : Summary) (fix : Bool) : Log.Event where
  type := "lint.run"
  data := [("files", natValue s.fileCount), ("problems", natValue s.problemCount),
    ("parse_errors", natValue s.faultCount), ("fix", .bool fix)]

/-- What the log hears of a run. -/
def logSteps (p : Progress) (fix : Bool) : List Log.Step :=
  p.records.map fileStep ++
    match p.failure with
    | some (path, e) => [.timed "lint.file" (some path.text) 0 [.fail (.exception (failureText e))]]
    | none => [.log (runEvent ⟨p.records⟩ fix)]

/-! ### Commands -/

/-- The report of a run in the given format. -/
def renderSummary (console : Console) (format : Format) (s : Summary) : String :=
  match format with
  | .json => Json.render .report s.toValue ++ "\n"
  | .text => console.renderText s

/-- The outcome of bad input. -/
def badInput (console : Console) (heading message : String) (files : FileTree)
    (events : Option (List Log.Event) := none) : Outcome :=
  { exitCode := 2, error := some (console.errorText heading message), files, events }

/-- The outcome of checking files.  Only an error of a source is expected. -/
def checkOutcome (console : Console) (a : CheckArguments) (p : Progress) : Except Crash Outcome :=
  let events := if a.log then some (Log.run [] (logSteps p a.fix)).events else none
  match p.failure with
  | some (_, .source e) =>
    if e.isReported then .ok (badInput console "Error:" e.message p.files events)
    else .error ⟨.source e, p.files, events⟩
  | some (_, e) => .error ⟨.lint e, p.files, events⟩
  | none =>
    let s : Summary := ⟨p.records⟩
    .ok { exitCode := if s.clean then 0 else 1, output := renderSummary console a.format s,
          files := p.files, events }

/-- The outcome of bad options, unless they end the program. -/
def optionsOutcome (console : Console) (heading : String) (t : FileTree) (e : Options.LoadError) :
    Except Crash Outcome :=
  if e.isReported then .ok (badInput console heading e.message t)
  else .error { cause := .options e, files := t }

/-- The check command. -/
def runCheck (parse : Parser) (config : Config) (t : FileTree) (a : CheckArguments)
    (setup : Setup := {}) : Except Crash Outcome :=
  match resolveOptions t config a setup.readers with
  | .error e => optionsOutcome setup.console "Error:" t e
  | .ok o =>
    match sourceFiles config t (a.paths.map .ofString) with
    | .error e =>
      if e.isReported then .ok (badInput setup.console "Error:" e.message t)
      else .error { cause := .source e, files := t }
    | .ok paths => checkOutcome setup.console a (checkFiles (.ofOptions o) parse a.fix t paths)

/-- The config command: prints the options that the check command would use. -/
def runConfig (config : Config) (t : FileTree) (file : Option String) (setup : Setup := {}) :
    Except Crash Outcome :=
  match Options.load t config (file.map .ofString) none setup.readers with
  | .error e => optionsOutcome setup.console "Config error:" t e
  | .ok o => .ok { exitCode := 0, output := Json.render .listing o.toValue ++ "\n", files := t }

/-- Runs the command that words write.  Words that write none are bad input. -/
def run (parse : Parser) (t : FileTree) (words : List String) (setup : Setup := {}) :
    Except Crash Outcome :=
  match setup.command words with
  | none => .ok { exitCode := 2, files := t }
  | some (.check a) => runCheck parse {} t a setup
  | some (.config file) => runConfig {} t file setup

end HookLint.Cli
