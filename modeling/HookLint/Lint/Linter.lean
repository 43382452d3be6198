import HookLint.Files.Discovery
import HookLint.Lint.Rule
import HookLint.Syntax.Fault

/-!
# Linter — reports on texts and files

A text that does not parse gets a report with the fault alone.  Fixing applies the fixes of a report
and reports again, until nothing changes, or for at most ten passes.
-/

namespace HookLint.Lint

open Syntax Report Files

/-- The syntax tree of each text. -/
abbrev Parser := String → Node

/-- The report on one text. -/
structure FileReport where
  path : String
  diagnostics : List Diagnostic
  fault : Option Fault := none
deriving DecidableEq

/-- The order of findings in a report: by start, then by end. -/
def earlier (a b : Diagnostic) : Bool :=
  decide (a.start < b.start) || (a.start = b.start && decide (a.stop ≤ b.stop))

section

variable (rule : Rule) (parse : Parser)

/-- The report on a text. -/
def lintText (path text : String) : FileReport :=
  let root := parse text
  match Fault.ofTree? ⟨text⟩ root with
  | some fault => { path, diagnostics := [], fault := some fault }
  | none => { path, diagnostics := (rule.check ⟨text⟩ root).mergeSort earlier }

/-- The fixes of a report. -/
def FileReport.fixes (r : FileReport) : List Fix := r.diagnostics.filterMap (·.fix)

/-- The number of passes after which fixing ends. -/
def maxPasses : Nat := 10

/-- Fixes a text whose report is given, in at most `n` passes.  There is no result if a fix leaves
no text. -/
def fixPasses (path : String) : Nat → String → FileReport → Option (String × FileReport)
  | 0, text, report => some (text, report)
  | n + 1, text, report =>
    match Fix.patch? text report.fixes with
    | none => none
    | some fixed =>
      if fixed = text then some (text, report)
      else fixPasses path n fixed (lintText rule parse path fixed)

/-- The fixed text, and the report on it. -/
def fixText (path text : String) : Option (String × FileReport) :=
  fixPasses rule parse path maxPasses text (lintText rule parse path text)

end

/-! ### Files -/

/-- Why a file cannot be linted or fixed. -/
inductive LintError where
  | source (e : SourceError)
  /-- A fix cut a character of the file in two. -/
  | garbledFix
  /-- The fixed text may not be written. -/
  | unwritable (path : Pathname)
deriving DecidableEq, Repr

/-- The text of a source file. -/
def readSource (t : FileTree) (path : Pathname) : Except SourceError String :=
  match (t.read? path).bind decode? with
  | some text => .ok text
  | none => .error (.unreadable path)

section

variable (rule : Rule) (parse : Parser)

/-- The report on a file. -/
def lintFile (t : FileTree) (path : Pathname) : Except SourceError FileReport :=
  (readSource t path).map (lintText rule parse path.text)

/-- The reports on all files that paths stand for. -/
def lintFiles (config : Config) (t : FileTree) (paths : List Pathname) :
    Except SourceError (List FileReport) := do
  (← sourceFiles config t paths).mapM (lintFile rule parse t)

/-- What fixing a file does: whether it changed, the report on the result, and the files after. -/
structure FixedFile where
  changed : Bool
  report : FileReport
  files : FileTree

/-- Fixes a file in place; it is written only if it changes, and if that is granted. -/
def fixFile (t : FileTree) (path : Pathname) : Except LintError FixedFile :=
  match readSource t path with
  | .error e => .error (.source e)
  | .ok text =>
    match fixText rule parse path.text text with
    | none => .error .garbledFix
    | some (fixed, report) =>
      if fixed = text then .ok ⟨false, report, t⟩
      else if t.grants .write path then .ok ⟨true, report, t.write path (encode fixed)⟩
      else .error (.unwritable path)

end

end HookLint.Lint
