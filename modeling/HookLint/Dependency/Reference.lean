import HookLint.Dependency.Path
import HookLint.Hook.Site

/-!
# Reference — what a callback depends on

The references of a callback are the names of its component that it reads, each narrowed to the
property path that all its uses have in common.  Names that the callback declares itself, names of
the module or of outer functions, and names that resolve to nothing are none of them.  A name that
the callback writes is no dependency, however often it is read.
-/

namespace HookLint.Dependency

open Syntax Scope Hook

section

variable (src : Source)

/-- Whether a part of a node is the given node. -/
def isPart (part : Option Node) (n : Node) : Bool := part.any fun p => p.key = n.key

/-- The properties of the member chain that hangs off `current`, innermost first, with the end of
the chain and what encloses it. -/
def chain (current : Node) : List Node → List String × Node × List Node
  | [] => ([], current, [])
  | parent :: rest =>
    match parent.child? .property with
    | some property =>
      if parent.kind = .memberExpression ∧ isPart (parent.child? .object) current ∧
          property.kind = .propertyIdentifier then
        let up := chain parent rest
        (src.textOf property :: up.1, up.2)
      else ([], current, parent :: rest)
    | none => ([], current, parent :: rest)

/-- Whether `n` is called by `parent`, or written by it. -/
def isCalledOrWritten (parent n : Node) : Bool :=
  match parent.kind with
  | .callExpression => isPart (parent.child? .function) n
  | .assignment | .augmentedAssignment => isPart (parent.child? .left) n
  | .update => true
  | _ => false

/-- The static property path that hangs off an identifier.  In a call of a method and in a write of
a property, the receiver is what counts, so the last property is dropped. -/
def accessPath (c : Cursor) : List String :=
  match chain src c.node c.ancestors with
  | (path, top, parent :: _) => if isCalledOrWritten parent top then path.dropLast else path
  | (path, _, []) => path

end

/-- What a callback depends on and what it writes, by the numbers of the bindings, in the order of
the first use. -/
structure References where
  dependencies : Assoc Nat Path := []
  mutations : Assoc Nat Binding := []

/-- The binding of a use that matters to a site: a name of the component that lives outside of the
callback. -/
def relevant? (t : Tree) (site : Site) (u : Use) : Option Binding := do
  let b ← t.bindingOf? u
  let inside := (t.scopeNode? b).any site.callback.contains
  if !inside && (t.store.region site.scope).contains b.scope then some b else none

/-- Takes one more relevant use into account: a write is noted, a read narrows the path. -/
def References.note (src : Source) (r : References) (u : Use) (b : Binding) : References :=
  if u.access.writes then { r with mutations := Assoc.put r.mutations b.id b }
  else
    let path := accessPath src u.cursor
    match Assoc.get? r.dependencies b.id with
    | none => { r with dependencies := Assoc.put r.dependencies b.id ⟨b, path, u.node.start⟩ }
    | some d =>
      { r with
        dependencies :=
          Assoc.put r.dependencies b.id ⟨b, commonPrefix d.path path, d.offset⟩ }

/-- The relevant uses of a callback with their bindings. -/
def relevantUses (t : Tree) (site : Site) : List (Use × Binding) :=
  (t.usesWithin site.callback).filterMap fun u => (relevant? t site u).map (u, ·)

/-- The references of the callback of a site. -/
def references (src : Source) (t : Tree) (site : Site) : References :=
  let r : References := (relevantUses t site).foldl (fun r e => r.note src e.1 e.2) {}
  { r with dependencies := r.dependencies.filter fun e => !Assoc.has r.mutations e.1 }

end HookLint.Dependency
