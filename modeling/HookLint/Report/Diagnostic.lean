import HookLint.Report.Fix
import HookLint.Syntax.Source

/-!
# Diagnostic — what is reported

A finding has a kind, a message, the hook and the names concerned, and the place it is shown at.
-/

namespace HookLint.Report

open Syntax

/-- The kinds of findings. -/
inductive DiagnosticKind where
  | missingDependency | unnecessaryDependency | duplicateDependency | unstableLiteral
  | nonArrayList | complexDependency | unknownCallback
deriving DecidableEq, Repr

/-- The name under which a kind is reported. -/
def DiagnosticKind.name : DiagnosticKind → String
  | .missingDependency => "missing-dependency"
  | .unnecessaryDependency => "unnecessary-dependency"
  | .duplicateDependency => "duplicate-dependency"
  | .unstableLiteral => "unstable-literal-dependency"
  | .nonArrayList => "non-array-dependency-list"
  | .complexDependency => "complex-dependency"
  | .unknownCallback => "unknown-callback"

/-- A finding. -/
structure Diagnostic where
  kind : DiagnosticKind
  message : String
  hook : String
  names : List String
  start : Nat
  stop : Nat
  position : Position
  fix : Option Fix := none
deriving DecidableEq

end HookLint.Report
