import HookLint.Dependency.Declared
import HookLint.Dependency.Reference
import HookLint.Proofs.Syntax.Descent

/-!
# Proofs.Dependency.MemberPath — a path read downwards and upwards

The path of a declared element is read from the element down to its root; the path of a use is read
from the identifier up.  `Chain` is the relation behind the first reading: it takes off parentheses
before every step (`memberChain?_eq_some_iff`).  `Bare` is the part of it without parentheses, and
exactly what the second reading climbs (`Bare.chain_eq`).

So the readings agree on a bare chain.  Parentheses end the climb: below the innermost parentheses
that a property is taken of, the chain is bare, and the rest of the path is lost
(`Chain.bare_or_cut`).
-/

namespace HookLint.Dependency

open Syntax

/-- `r` is the root of the chain of plain properties at `c`, and `path` lists the properties.  There
may be parentheses around the chain and around its parts. -/
inductive Chain (src : Source) : Cursor → Cursor → List String → Prop where
  | name {c : Cursor} (hk : c.kind = .identifier) : Chain src c c []
  | member {c o q r : Cursor} {path : List String} (hk : c.kind = .memberExpression)
      (ho : c.child? .object = some o) (hq : c.child? .property = some q)
      (hqk : q.kind = .propertyIdentifier) (h : Chain src o r path) :
      Chain src c r (path ++ [src.textOf q.node])
  | paren {c inner r : Cursor} {path : List String} (hk : c.kind = .parenthesized)
      (hin : c.elements = [inner]) (h : Chain src inner r path) : Chain src c r path

/-- A chain without parentheses. -/
inductive Bare (src : Source) : Cursor → Cursor → List String → Prop where
  | name {c : Cursor} (hk : c.kind = .identifier) : Bare src c c []
  | member {c o q r : Cursor} {path : List String} (hk : c.kind = .memberExpression)
      (ho : c.child? .object = some o) (hq : c.child? .property = some q)
      (hqk : q.kind = .propertyIdentifier) (h : Bare src o r path) :
      Bare src c r (path ++ [src.textOf q.node])

theorem Bare.toChain {src : Source} {c r : Cursor} {path : List String} (h : Bare src c r path) :
    Chain src c r path := by
  induction h with
  | name hk => exact .name hk
  | member hk ho hq hqk _ ih => exact .member hk ho hq hqk ih

/-! ### Parentheses -/

section Parentheses

variable {c d : Cursor}

/-- The node stands directly inside parentheses. -/
def InParentheses (c : Cursor) : Prop :=
  ∃ parent rest, c.ancestors = parent :: rest ∧ parent.kind = .parenthesized

theorem unwrap_of_kind_ne (hk : c.kind ≠ .parenthesized) : c.unwrap = c := by
  rw [Cursor.unwrap, if_neg hk]

theorem unwrap_of_elements (hk : c.kind = .parenthesized) (h : c.elements = [d]) :
    c.unwrap = d.unwrap := by
  rw [Cursor.unwrap, if_pos hk]
  split
  · next inner hin =>
    rw [h, List.cons.injEq] at hin
    rw [hin.1]
  · next hne => exact absurd h (hne d)

theorem unwrap_cases (c : Cursor) : c.unwrap = c ∨ InParentheses c.unwrap := by
  fun_induction Cursor.unwrap c with
  | case1 c hk inner hin ih =>
    rcases ih with ih | ih
    · have hmem : inner ∈ c.elements := by simp [hin]
      obtain ⟨n, -, rfl⟩ := List.mem_map.mp hmem
      rw [ih]
      exact Or.inr ⟨c.node, c.ancestors, rfl, hk⟩
    · exact Or.inr ih
  | case2 => exact Or.inl rfl
  | case3 => exact Or.inl rfl

theorem node_unwrap (c : Cursor) : c.unwrap.node = c.node.unwrap := by
  fun_induction Cursor.unwrap c with
  | case1 c hk inner hin ih =>
    obtain ⟨n, hn, rfl⟩ : ∃ n, c.node.elements = [n] ∧ c.down n = inner := by
      simpa [Cursor.elements, List.map_eq_singleton_iff] using hin
    rw [ih, Cursor.node_down, Node.unwrap.eq_def c.node, if_pos hk]
    split
    · next m hm =>
      rw [hn, List.cons.injEq] at hm
      rw [hm.1]
    · next hne => exact absurd hn (hne n)
  | case2 c hk hne =>
    rw [Node.unwrap, if_pos hk]
    split
    · next n hn => exact absurd (by simp [Cursor.elements, hn]) (hne (c.down n))
    · rfl
  | case3 c hk => rw [Node.unwrap, if_neg hk]

theorem node_unwrap_of_kind_ne (hk : c.kind ≠ .parenthesized) : c.node.unwrap = c.node := by
  rw [← node_unwrap, unwrap_of_kind_ne hk]

end Parentheses

/-! ### Downwards -/

section Down

variable {src : Source} {c r x : Cursor} {path : List String}

/-- Parentheses around a chain may be put on or taken off. -/
theorem chain_unwrap_iff : Chain src c.unwrap r path ↔ Chain src c r path := by
  constructor
  · intro h
    fun_induction Cursor.unwrap c with
    | case1 c hk inner hin ih => exact .paren hk hin (ih h)
    | case2 => exact h
    | case3 => exact h
  · intro h
    induction h with
    | name hk =>
      rw [unwrap_of_kind_ne (by rw [hk]; decide)]
      exact .name hk
    | member hk ho hq hqk h _ =>
      rw [unwrap_of_kind_ne (by rw [hk]; decide)]
      exact .member hk ho hq hqk h
    | paren hk hin _ ih =>
      rw [unwrap_of_elements hk hin]
      exact ih

theorem exists_chain_of_memberChain? {n root : Node} (h : memberChain? src n = some (root, path)) :
    ∀ c : Cursor, c.node = n → ∃ r, r.node = root ∧ Chain src c r path := by
  fun_induction memberChain? src n generalizing root path with
  | case1 n hk =>
    rintro c rfl
    obtain ⟨rfl, rfl⟩ := Prod.mk.inj (Option.some.inj h)
    rw [← node_unwrap] at hk ⊢
    exact ⟨c.unwrap, rfl, chain_unwrap_iff.mp (.name hk)⟩
  | case2 n hk object property ho hp hpk ih =>
    rintro c rfl
    obtain ⟨⟨root', path'⟩, hobject, heq⟩ := Option.map_eq_some_iff.mp h
    obtain ⟨rfl, rfl⟩ := Prod.mk.inj heq
    obtain ⟨r, hr, hchain⟩ := ih hobject (c.unwrap.down object) rfl
    rw [← node_unwrap] at hk ho hp
    have ho' : c.unwrap.child? .object = some (c.unwrap.down object) := by
      rw [Cursor.child?, ho, Option.map_some]
    have hp' : c.unwrap.child? .property = some (c.unwrap.down property) := by
      rw [Cursor.child?, hp, Option.map_some]
    have hmember := Chain.member hk ho' hp' hpk hchain
    exact ⟨r, hr, chain_unwrap_iff.mp hmember⟩
  | case3 => cases h
  | case4 => cases h
  | case5 => cases h

theorem memberChain?_congr {n m : Node} (h : n.unwrap = m.unwrap) :
    memberChain? src n = memberChain? src m := by
  rw [memberChain?, memberChain?.eq_def src m]
  rw [h]

theorem Chain.root_kind (h : Chain src c r path) : r.kind = .identifier := by
  induction h with
  | name hk => exact hk
  | member _ _ _ _ _ ih => exact ih
  | paren _ _ _ ih => exact ih

theorem Chain.memberChain?_eq (h : Chain src c r path) :
    memberChain? src c.node = some (r.node, path) := by
  induction h with
  | @name c hk =>
    have hu : c.node.unwrap = c.node := node_unwrap_of_kind_ne (by rw [hk]; decide)
    rw [memberChain?, hu]
    simp only [hk]
  | @member c o q r path hk ho hq hqk h ih =>
    have hu : c.node.unwrap = c.node := node_unwrap_of_kind_ne (by rw [hk]; decide)
    obtain ⟨on, hon, rfl⟩ := Option.map_eq_some_iff.mp ho
    obtain ⟨qn, hqn, rfl⟩ := Option.map_eq_some_iff.mp hq
    rw [memberChain?, hu]
    simp only [hk]
    split
    · next object property ho' hp' =>
      obtain rfl := Option.some.inj (hon.symm.trans ho')
      obtain rfl := Option.some.inj (hqn.symm.trans hp')
      have hqk' : qn.kind = .propertyIdentifier := hqk
      have ih' : memberChain? src on = some (r.node, path) := ih
      rw [if_pos hqk', ih', Option.map_some, Cursor.node_down]
    · next hnone => exact absurd hqn (hnone on qn hon)
  | @paren c inner r path hk hin h ih =>
    rw [← ih]
    exact memberChain?_congr (by rw [← node_unwrap, ← node_unwrap, unwrap_of_elements hk hin])

end Down

/-! ### Upwards -/

section Up

variable {src : Source} {c r x : Cursor} {path : List String}

/-- A climb starts with the properties of a bare chain and goes on above it. -/
theorem Bare.chain_eq (h : Bare src x r path) :
    chain src r.node r.ancestors =
      (path ++ (chain src x.node x.ancestors).1, (chain src x.node x.ancestors).2) := by
  induction h with
  | name hk => rfl
  | @member x o q r path hk ho hq hqk h ih =>
    obtain ⟨on, hon, rfl⟩ := Option.map_eq_some_iff.mp ho
    obtain ⟨qn, hqn, rfl⟩ := Option.map_eq_some_iff.mp hq
    -- the step from the object to its member expression
    have hstep : chain src on (x.node :: x.ancestors) =
        (src.textOf qn :: (chain src x.node x.ancestors).1, (chain src x.node x.ancestors).2) := by
      have hpart : isPart (x.node.child? .object) on = true := by simp [isPart, hon]
      rw [chain, hqn]
      exact if_pos ⟨hk, hpart, hqk⟩
    rw [ih]
    show (path ++ (chain src on (x.node :: x.ancestors)).1,
      (chain src on (x.node :: x.ancestors)).2) = _
    rw [hstep, Cursor.node_down, List.append_assoc, List.singleton_append]

/-- A climb that passes no property stays where it is. -/
theorem chain_of_nil {current : Node} {above : List Node}
    (h : (chain src current above).1 = []) : chain src current above = ([], current, above) := by
  cases above with
  | nil => rfl
  | cons parent rest =>
    rw [chain] at h ⊢
    split at h
    · next property hp =>
      split at h
      · cases h
      · next hno =>
        simp only
        rw [if_neg hno]
    · rfl

/-- The path of a use at the root of a bare chain that is not called or written begins with the
properties of the chain. -/
theorem Bare.prefix_accessPath (h : Bare src x r path)
    (hx : ∀ parent rest, x.ancestors = parent :: rest → isCalledOrWritten parent x.node = false) :
    path <+: accessPath src r := by
  unfold accessPath
  rw [h.chain_eq]
  by_cases hnil : (chain src x.node x.ancestors).1 = []
  · rw [chain_of_nil hnil]
    cases hup : x.ancestors with
    | nil => simp
    | cons parent rest => simp [hx parent rest hup]
  · -- if the last property is dropped, it is one above the chain
    have hdrop : (path ++ (chain src x.node x.ancestors).1).dropLast =
        path ++ (chain src x.node x.ancestors).1.dropLast := List.dropLast_append_of_ne_nil hnil
    split
    · next heq =>
      obtain ⟨hpath, -⟩ := Prod.mk.inj heq
      split
      · rw [← hpath, hdrop]
        exact List.prefix_append _ _
      · rw [← hpath]
        exact List.prefix_append _ _
    · next heq =>
      obtain ⟨hpath, -⟩ := Prod.mk.inj heq
      rw [← hpath]
      exact List.prefix_append _ _

/-- A node that ends every climb. -/
def Closing (parent : Node) : Prop := parent.kind = .array ∨ parent.kind = .parenthesized

/-- In an array or in parentheses a bare chain is all that is climbed. -/
theorem Bare.accessPath_eq (h : Bare src x r path) {parent : Node} {rest : List Node}
    (hup : x.ancestors = parent :: rest) (hp : Closing parent) : accessPath src r = path := by
  have hkind : parent.kind ≠ .memberExpression := by
    rcases hp with hp | hp <;> rw [hp] <;> decide
  have hcalled : isCalledOrWritten parent x.node = false := by
    unfold isCalledOrWritten
    rcases hp with hp | hp <;> rw [hp]
  have hstop : chain src x.node (parent :: rest) = ([], x.node, parent :: rest) := by
    rw [chain]
    split
    · exact if_neg fun hm => hkind hm.1
    · rfl
  unfold accessPath
  rw [h.chain_eq, hup, hstop]
  simp [hcalled]

/-- A chain is bare inside of the parentheses around it, or the first part of it is the bare chain
inside of the innermost parentheses that a property is taken of. -/
theorem Chain.bare_or_cut (h : Chain src c r path) :
    Bare src c.unwrap r path ∨
    ∃ x bare more, path = bare ++ more ∧ more ≠ [] ∧ Bare src x r bare ∧ InParentheses x := by
  induction h with
  | name hk =>
    rw [unwrap_of_kind_ne (by rw [hk]; decide)]
    exact Or.inl (.name hk)
  | paren hk hin _ ih =>
    rw [unwrap_of_elements hk hin]
    exact ih
  | @member c o q r path hk ho hq hqk _ ih =>
    rw [unwrap_of_kind_ne (by rw [hk]; decide)]
    rcases ih with hbare | ⟨x, bare, more, rfl, hmore, hbare, hx⟩
    · rcases unwrap_cases o with heq | hin
      · rw [heq] at hbare
        exact Or.inl (.member hk ho hq hqk hbare)
      · exact Or.inr ⟨o.unwrap, path, [src.textOf q.node], rfl, List.cons_ne_nil _ _, hbare, hin⟩
    · refine Or.inr ⟨x, bare, more ++ [src.textOf q.node], List.append_assoc _ _ _, ?_, hbare, hx⟩
      exact List.append_ne_nil_of_left_ne_nil hmore _

/-- **The two readings of an element.**  The path that is read upwards is a beginning of the path
that is read downwards, and it is all of it exactly if no part of the chain is in parentheses. -/
theorem Chain.accessPath_of_element {array : Cursor} (h : Chain src c r path)
    (ha : array.kind = .array) (hc : c ∈ array.elements) :
    accessPath src r <+: path ∧ (accessPath src r = path ↔ Bare src c.unwrap r path) := by
  have hclosing : ∃ parent rest, c.unwrap.ancestors = parent :: rest ∧ Closing parent := by
    rcases unwrap_cases c with heq | ⟨parent, rest, hup, hk⟩
    · obtain ⟨n, -, rfl⟩ := List.mem_map.mp hc
      rw [heq]
      exact ⟨array.node, array.ancestors, rfl, Or.inl ha⟩
    · exact ⟨parent, rest, hup, Or.inr hk⟩
  obtain ⟨parent, rest, hup, hp⟩ := hclosing
  rcases h.bare_or_cut with hbare | ⟨x, bare, more, rfl, hmore, hbare, ⟨wrapper, outer, hx, hk⟩⟩
  · have heq := hbare.accessPath_eq hup hp
    exact ⟨heq ▸ List.prefix_rfl, iff_of_true heq hbare⟩
  · have heq := hbare.accessPath_eq hx (Or.inr hk)
    refine ⟨by rw [heq]; exact List.prefix_append _ _, ⟨fun hall => ?_, fun hb =>
      hb.accessPath_eq hup hp⟩⟩
    rw [heq] at hall
    exact absurd (List.self_eq_append_right.mp hall) hmore

end Up
end HookLint.Dependency
