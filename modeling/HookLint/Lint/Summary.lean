import HookLint.Data.Value
import HookLint.Lint.Linter

/-!
# Summary — the totals of a run
-/

namespace HookLint.Lint

open Report

/-- The report on a file with whether the file was fixed. -/
structure FileRecord where
  report : FileReport
  fixed : Bool := false
deriving DecidableEq

/-- The records of a run. -/
structure Summary where
  records : List FileRecord

namespace Summary

/-- The findings of all files. -/
def findings (s : Summary) : List Diagnostic := s.records.flatMap fun r => r.report.diagnostics

/-- How many files were linted. -/
def fileCount (s : Summary) : Nat := s.records.length

/-- How many findings there are. -/
def problemCount (s : Summary) : Nat := s.findings.length

/-- How many findings have a fix. -/
def fixableCount (s : Summary) : Nat := s.findings.countP fun d => d.fix.isSome

/-- How many files do not parse. -/
def faultCount (s : Summary) : Nat := s.records.countP fun r => r.report.fault.isSome

/-- Whether there is nothing to report. -/
def clean (s : Summary) : Bool := s.problemCount = 0 && s.faultCount = 0

end Summary

/-! ### Records as values -/

/-- A count or an offset. -/
def natValue (n : Nat) : Value := .int n

/-- A fix as an object. -/
def fixValue (f : Fix) : Value :=
  .object [("start", natValue f.start), ("end", natValue f.stop),
    ("replacement", .string f.replacement), ("description", .string f.description)]

/-- A finding as an object. -/
def diagnosticValue (d : Diagnostic) : Value :=
  .object [("kind", .string d.kind.name), ("message", .string d.message), ("hook", .string d.hook),
    ("names", .array (d.names.map .string)), ("line", natValue d.position.line),
    ("column", natValue d.position.column), ("start", natValue d.start), ("end", natValue d.stop),
    ("fix", d.fix.elim .null fixValue)]

/-- A record as an object. -/
def FileRecord.toValue (r : FileRecord) : Value :=
  .object [("file_path", .string r.report.path),
    ("diagnostics", .array (r.report.diagnostics.map diagnosticValue)),
    ("parse_error", r.report.fault.elim .null fun f => .string f.message),
    ("fixed", .bool r.fixed)]

/-- A summary as an object. -/
def Summary.toValue (s : Summary) : Value :=
  .object [("file_count", natValue s.fileCount), ("problem_count", natValue s.problemCount),
    ("fixable_count", natValue s.fixableCount), ("parse_error_count", natValue s.faultCount),
    ("files", .array (s.records.map FileRecord.toValue))]

end HookLint.Lint
