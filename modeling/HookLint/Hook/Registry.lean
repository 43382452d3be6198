import HookLint.Data.Assoc
import HookLint.Regex.Basic

/-!
# Registry — the hooks whose calls are checked

A registry says of a name whether it is a hook with a dependency list, of which kind, and which
argument is its callback.  New hooks are entries of the table or names that a pattern finds; the
latter count as memo hooks that take the callback first.
-/

namespace HookLint.Hook

/-- What a hook does with its callback: runs it after rendering, or keeps its result. -/
inductive HookKind where
  | effect | memo
deriving DecidableEq, Repr

/-- How a hook is called: its kind, and which argument is the callback.  The dependency list is the
next argument. -/
structure Shape where
  kind : HookKind
  callbackIndex : Nat := 0
deriving DecidableEq, Repr

/-- The hooks known by name, and a pattern for more of them. -/
structure Registry where
  hooks : Assoc String Shape
  additional : Option Pattern := none

/-- The hooks that are always known. -/
def builtinHooks : Assoc String Shape :=
  [("useEffect", ⟨.effect, 0⟩), ("useLayoutEffect", ⟨.effect, 0⟩),
    ("useInsertionEffect", ⟨.effect, 0⟩), ("useMemo", ⟨.memo, 0⟩), ("useCallback", ⟨.memo, 0⟩),
    ("useImperativeHandle", ⟨.memo, 1⟩)]

/-- The shape of the hook with the given name.  The table goes before the pattern. -/
def Registry.lookup? (r : Registry) (name : String) : Option Shape :=
  Assoc.get? r.hooks name <|>
    if r.additional.any fun p => p.search name then some ⟨.memo, 0⟩ else none

end HookLint.Hook
