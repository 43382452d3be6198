import HookLint.Dependency.Reconciliation
import HookLint.Report.Diagnostic
import HookLint.Report.Message
import HookLint.Text.Word

/-!
# Builder — findings and fixes of a site

The findings of a site come in a fixed order: unstable elements, complex elements, then missing,
unnecessary and duplicate dependencies.  The last three share one fix, which sets the array to
the elements that are kept, followed by the missing paths.  There is no fix if a missing path cannot
be written as a chain of identifiers.
-/

namespace HookLint.Report

open Syntax Dependency

/-! ### Paths that can be written -/

/-- Whether a character may stand inside an identifier. -/
def isIdentifierChar (c : Char) : Bool := Text.isWord c || c = '$'

/-- Whether the characters form an identifier: a dollar, or a word character that is no digit, and
then characters of identifiers. -/
def isIdentifier : List Char → Bool
  | c :: cs => (c = '$' || (Text.isWord c && !Text.isDecimal c)) && cs.all isIdentifierChar
  | [] => false

/-- The characters without a line feed at their end. -/
def dropLineFeed (cs : List Char) : List Char :=
  if cs.getLast? = some '\n' then cs.dropLast else cs

/-- Whether a path is a chain of identifiers, each possibly followed by a line feed. -/
def isExpressible (path : String) : Bool :=
  (path.splitOn ".").all fun part => isIdentifier (dropLineFeed part.toList)

/-! ### The fix of a site -/

/-- The text of an array with the given elements. -/
def arrayText (elements : List String) : String := "[" ++ ", ".intercalate elements ++ "]"

/-- Sets the array of a site to the elements that are kept and the missing paths. -/
def buildFix? (r : Reconciliation) : Option Fix :=
  match r.array? with
  | none => none
  | some array =>
    let added := r.diff.missing.map Path.render
    if added.all isExpressible then
      let text := arrayText (r.diff.kept.map Declared.source ++ added)
      some ⟨array.start, array.stop, text, "Update the dependencies array to be: " ++ text⟩
    else none

/-! ### The findings of a site -/

section

variable (src : Source)

/-- A finding that is shown at a node. -/
def diagnosticAt (n : Node) (kind : DiagnosticKind) (hook : String) (names : List String)
    (message : String) (fix : Option Fix) : Diagnostic :=
  ⟨kind, message, hook, names, n.start, n.stop, src.position n.start, fix⟩

/-- The finding for a defect of the given names, none if there are no names. -/
def defectDiagnostic (array : Node) (hook : String) (kind : DiagnosticKind) (defect : Defect)
    (names : List String) (fix : Option Fix) : List Diagnostic :=
  if names.isEmpty then []
  else [diagnosticAt src array kind hook names (dependencyMessage defect hook names) fix]

/-- The findings of a comparison. -/
def comparedDiagnostics (hook : String) (array : Node) (d : Diff) (unstable : List Unstable)
    (fix : Option Fix) : List Diagnostic :=
  unstable.map (fun u =>
    diagnosticAt src u.binding.node .unstableLiteral hook [u.binding.name]
      (unstableMessage hook u.binding.name u.construction u.usedOutside
        (src.position array.start).line) none) ++
  d.complex.map (fun e =>
    diagnosticAt src e.node .complexDependency hook [e.source] (complexMessage hook) none) ++
  if d.needsFix then
    defectDiagnostic src array hook .missingDependency .missing (d.missing.map Path.render) fix ++
    defectDiagnostic src array hook .unnecessaryDependency .unnecessary
      (d.unnecessary.map Declared.source) fix ++
    defectDiagnostic src array hook .duplicateDependency .duplicate
      (d.duplicates.map Declared.source).eraseDups fix
  else []

/-- Where there is nothing to fix the three defects have no names, so the findings are the same
without the guard. -/
theorem comparedDiagnostics_eq (hook : String) (array : Node) (d : Diff) (unstable : List Unstable)
    (fix : Option Fix) :
    comparedDiagnostics src hook array d unstable fix =
      unstable.map (fun u =>
        diagnosticAt src u.binding.node .unstableLiteral hook [u.binding.name]
          (unstableMessage hook u.binding.name u.construction u.usedOutside
            (src.position array.start).line) none) ++
      d.complex.map (fun e =>
        diagnosticAt src e.node .complexDependency hook [e.source] (complexMessage hook) none) ++
      defectDiagnostic src array hook .missingDependency .missing (d.missing.map Path.render) fix ++
      defectDiagnostic src array hook .unnecessaryDependency .unnecessary
        (d.unnecessary.map Declared.source) fix ++
      defectDiagnostic src array hook .duplicateDependency .duplicate
        (d.duplicates.map Declared.source).eraseDups fix := by
  unfold comparedDiagnostics
  by_cases h : d.needsFix = true
  · rw [if_pos h]
    simp only [List.append_assoc]
  · have hnone : (d.missing = [] ∧ d.unnecessary = []) ∧ d.duplicates = [] := by
      simpa [Diff.needsFix] using h
    rw [if_neg h, hnone.1.1, hnone.1.2, hnone.2]
    simp [defectDiagnostic]

/-- The findings of a site. -/
def diagnostics (r : Reconciliation) : List Diagnostic :=
  let hook := r.site.name
  match r.outcome with
  | .unchecked => []
  | .notArray argument =>
    [diagnosticAt src argument .nonArrayList hook [] (notArrayMessage hook) none]
  | .spread argument _ =>
    [diagnosticAt src argument .nonArrayList hook [] (spreadMessage hook) none]
  | .passedCallback _ unknown =>
    if unknown then
      [diagnosticAt src r.site.callback .unknownCallback hook [] (unknownCallbackMessage hook) none]
    else []
  | .compared array d unstable => comparedDiagnostics src hook array d unstable (buildFix? r)

end

end HookLint.Report
