import HookLint.Options.Basic
import HookLint.Report.Builder

/-!
# Rule — all findings of a program

The sites of a program are reconciled in the order of the walk; the labels that one of them asks for
are kept for the next.
-/

namespace HookLint.Lint

open Syntax Scope Hook Stability Dependency Report

/-- A rule: which hooks are checked, which results are stable, and what is reported. -/
structure Rule where
  registry : Registry
  specs : Assoc String Spec
  verifyMemoChain : Bool
  reportStatic : Bool

/-- The rule of the given options.  Specs from the options go over the built-in ones. -/
def Rule.ofOptions (o : Options) : Rule where
  registry := ⟨builtinHooks, o.additionalHooks⟩
  specs := o.staticHooks.foldl (fun m e => Assoc.put m e.1 e.2) builtinSpecs
  verifyMemoChain := o.checkMemoized
  reportStatic := o.reportStatic

namespace Rule

/-- The program that a text and its tree make. -/
def program (rule : Rule) (src : Source) (root : Node) : Program :=
  let tree := Tree.ofProgram src root
  ⟨src, tree, rule.registry.sites src tree, rule.specs, rule.verifyMemoChain⟩

/-- Reconciles sites in turn, each with the labels found so far. -/
def reconcileSites (p : Program) (reportStatic : Bool) : Cache → List Site →
    List Reconciliation × Cache
  | cache, [] => ([], cache)
  | cache, site :: sites =>
    let (r, cache) := reconcile p reportStatic cache site
    let (rs, cache) := reconcileSites p reportStatic cache sites
    (r :: rs, cache)

/-- What comes of all sites of a program, with the labels found. -/
def reconcileAll (rule : Rule) (p : Program) : List Reconciliation × Cache :=
  reconcileSites p rule.reportStatic [] (Assoc.values p.sites)

/-- The findings of a program, site by site. -/
def check (rule : Rule) (src : Source) (root : Node) : List Diagnostic :=
  (rule.reconcileAll (rule.program src root)).1.flatMap (diagnostics src)

end Rule
end HookLint.Lint
