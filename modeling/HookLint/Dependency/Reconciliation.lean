import HookLint.Dependency.Diff
import HookLint.Stability.Classifier

/-!
# Reconciliation — a callback against its dependency array

A site without a dependency argument asks for nothing.  An argument that is no array literal, or
that holds a spread, cannot be checked.  A callback that is passed by name has unknown dependencies,
unless the array lists that name.  All other sites are compared element by element; besides, an
element that names a fresh construction of the component is unstable.
-/

namespace HookLint.Dependency

open Syntax Scope Hook Stability

/-- A bare element that names a construction of the component. -/
structure Unstable where
  binding : Binding
  construction : Construction
  usedOutside : Bool

/-- What came of a site. -/
inductive Outcome where
  /-- No dependency argument. -/
  | unchecked
  | notArray (argument : Node)
  | spread (argument array : Node)
  /-- The callback is not written in place; `unknown` if it is a name that the array lacks. -/
  | passedCallback (array : Node) (unknown : Bool)
  | compared (array : Node) (diff : Diff) (unstable : List Unstable)

/-- A site with what came of it. -/
structure Reconciliation where
  site : Site
  outcome : Outcome

namespace Reconciliation

/-- The dependency array, if the argument is one. -/
def array? (r : Reconciliation) : Option Node :=
  match r.outcome with
  | .unchecked | .notArray _ => none
  | .spread _ array | .passedCallback array _ | .compared array _ _ => some array

/-- The comparison; empty if there was none. -/
def diff (r : Reconciliation) : Diff :=
  match r.outcome with
  | .compared _ d _ => d
  | _ => {}

/-- The unstable elements; none if there was no comparison. -/
def unstable (r : Reconciliation) : List Unstable :=
  match r.outcome with
  | .compared _ _ us => us
  | _ => []

end Reconciliation

/-- The references of a callback by label: those that must be declared, and the static ones.
Each is labelled in turn. -/
def splitByLabel (p : Program) : Cache → List Path → (List Path × List Nat) × Cache
  | cache, [] => (([], []), cache)
  | cache, d :: ds =>
    let (label, cache) := p.label cache d.binding.id
    let ((required, static), cache) := splitByLabel p cache ds
    match label with
    | .static => ((required, d.binding.id :: static), cache)
    | .dynamic => ((d :: required, static), cache)

/-- Whether a binding is used outside of the callback and the array of a site. -/
def usedOutside (t : Tree) (site : Site) (array : Node) (b : Binding) : Bool :=
  (t.usesOf b).any fun u => !site.callback.contains u.node && !array.contains u.node

/-- The unstable elements, each binding once, by its first bare element. -/
def unstableIn (p : Program) (site : Site) (array : Node) : List Nat → List Declared → List Unstable
  | _, [] => []
  | reported, d :: ds =>
    match d.path? with
    | some ⟨b, [], _⟩ =>
      if reported.contains b.id || !(p.tree.store.region site.scope).contains b.scope then
        unstableIn p site array reported ds
      else
        match bindingConstruction? p.source b with
        | some construction =>
          ⟨b, construction, usedOutside p.tree site array b⟩ ::
            unstableIn p site array (b.id :: reported) ds
        | none => unstableIn p site array reported ds
    | _ => unstableIn p site array reported ds

/-- Whether a callback is a name that the elements of the array lack. -/
def unknownCallback (src : Source) (site : Site) (elements : List Node) : Bool :=
  site.callback.unwrap.kind = .identifier &&
    !(elements.map src.textOf).contains (src.textOf site.callback.unwrap)

/-- The comparison for a site with an inline callback and a plain array. -/
def compare (p : Program) (reportStatic : Bool) (cache : Cache) (site : Site) (array : Node) :
    Outcome × Cache :=
  let refs := references p.source p.tree site
  let ((required, static), cache) := splitByLabel p cache (Assoc.values refs.dependencies)
  let declared := array.elements.map (declaredOf p.source p.tree)
  let needs : Needs := ⟨required, if reportStatic then [] else static⟩
  (.compared array (diff needs declared) (unstableIn p site array [] declared), cache)

/-- What comes of a site, with the labels found on the way. -/
def reconcile (p : Program) (reportStatic : Bool) (cache : Cache) (site : Site) :
    Reconciliation × Cache :=
  match site.dependencies with
  | none => (⟨site, .unchecked⟩, cache)
  | some argument =>
    let array := argument.unwrap
    if array.kind ≠ .array then (⟨site, .notArray argument⟩, cache)
    else if array.elements.any fun e => e.kind = .spreadElement then
      (⟨site, .spread argument array⟩, cache)
    else if !site.hasInlineCallback then
      (⟨site, .passedCallback array (unknownCallback p.source site array.elements)⟩, cache)
    else
      let (outcome, cache) := compare p reportStatic cache site array
      (⟨site, outcome⟩, cache)

end HookLint.Dependency
