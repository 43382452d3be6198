import HookLint.Data.Assoc

/-!
# Label — static bindings as a closure

Some bindings are known to be static or dynamic by themselves; the others are static exactly if all
members of a list of bindings are.  `label` answers for one binding, depth first, and keeps every
answer in a cache.  A binding that is met again while it is being answered is part of a cycle and
counts as dynamic; that answer is not kept.

The recursion ends because a binding that is being answered leaves the list of open ones.
-/

namespace HookLint.Stability

/-- Whether a binding keeps its value across renders. -/
inductive Label where
  | static | dynamic
deriving DecidableEq, Repr

/-- What decides the label of a binding. -/
inductive Evidence where
  | settled (label : Label)
  /-- Static if all these bindings are. -/
  | allOf (bindings : List Nat)
deriving DecidableEq, Repr

/-- The labels found so far, by the numbers of the bindings. -/
abbrev Cache := Assoc Nat Label

mutual

/-- The label of a binding, with the cache after finding it.  Bindings that are not open are being
answered. -/
def labelIn (evidence : Nat → Evidence) (unvisited : List Nat) (cache : Cache) (id : Nat) :
    Label × Cache :=
  match Assoc.get? cache id with
  | some label => (label, cache)
  | none =>
    if id ∈ unvisited then
      match evidence id with
      | .settled label => (label, Assoc.put cache id label)
      | .allOf ids =>
        let found := labelAll evidence (unvisited.erase id) cache ids
        (found.1, Assoc.put found.2 id found.1)
    else (.dynamic, cache)
termination_by (unvisited.length, 0)
decreasing_by
  rename_i h
  have := List.length_erase_of_mem h
  have := List.length_pos_of_mem h
  exact Prod.Lex.left _ _ (by omega)

/-- Whether all bindings of a list are static, asked in turn up to the first that is not. -/
def labelAll (evidence : Nat → Evidence) (unvisited : List Nat) (cache : Cache) :
    List Nat → Label × Cache
  | [] => (.static, cache)
  | id :: ids =>
    match labelIn evidence unvisited cache id with
    | (.static, cache) => labelAll evidence unvisited cache ids
    | (.dynamic, cache) => (.dynamic, cache)
termination_by ids => (unvisited.length, ids.length)

end

end HookLint.Stability
