import HookLint.Dependency.Reference
import HookLint.Stability.Construction
import HookLint.Stability.Label
import HookLint.Stability.Spec

/-!
# Classifier — what decides whether a binding is static

A binding that is written anywhere is dynamic, and so is one without an initializer.  A primitive
value is static.  The result of a hook with a spec is as static as the spec says.  With memo chains
checked, the result of a memo hook is static if its dependency array is empty, or if everything its
callback depends on is static.  All else is dynamic.
-/

namespace HookLint.Stability

open Syntax Scope Hook

/-- A program with its hook sites, and the rules by which its bindings are labelled. -/
structure Program where
  source : Source
  tree : Tree
  sites : Sites
  specs : Assoc String Spec
  verifyMemoChain : Bool

namespace Program

/-- What decides whether the result of a memo hook is static. -/
def memoEvidence (p : Program) (site : Site) : Evidence :=
  match site.dependencies with
  | none => .settled .dynamic
  | some dependencies =>
    if dependencies.unwrap.kind ≠ .array then .settled .dynamic
    else if dependencies.unwrap.elements.isEmpty then .settled .static
    else if !site.hasInlineCallback then .settled .dynamic
    else
      let refs := Dependency.references p.source p.tree site
      if refs.mutations.isEmpty then .allOf (Assoc.keys refs.dependencies)
      else .settled .dynamic

/-- What decides whether a part of the result of a call is static. -/
def callEvidence (p : Program) (call : Node) (slot : Slot) : Evidence :=
  match (p.source.calleeName? call).bind (Assoc.get? p.specs) with
  | some spec => .settled (if spec.isStatic slot then .static else .dynamic)
  | none =>
    if p.verifyMemoChain then
      match Assoc.get? p.sites call.key with
      | some site => if site.kind = .memo then p.memoEvidence site else .settled .dynamic
      | none => .settled .dynamic
    else .settled .dynamic

/-- Whether a binding is a variable with an initializer that nothing writes. -/
def isFixedVariable (b : Binding) : Bool :=
  !b.reassigned && (b.kind = .value || b.kind = .hookResult)

/-- What decides the label of a binding. -/
def evidence (p : Program) (b : Binding) : Evidence :=
  match b.init with
  | none => .settled .dynamic
  | some init =>
    if !isFixedVariable b then .settled .dynamic
    else if b.slot = .whole ∧ isPrimitive p.source init then .settled .static
    else if init.unwrap.kind = .callExpression then p.callEvidence init.unwrap b.slot
    else .settled .dynamic

/-- What decides the label of the binding with the given number. -/
def evidenceAt (p : Program) (id : Nat) : Evidence :=
  (p.tree.binding? id).elim (.settled .dynamic) p.evidence

/-- The label of a binding, with the cache after finding it. -/
def label (p : Program) (cache : Cache) (id : Nat) : Label × Cache :=
  labelIn p.evidenceAt (List.range p.tree.store.bindings.size) cache id

end Program
end HookLint.Stability
