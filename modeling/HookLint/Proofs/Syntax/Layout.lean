import HookLint.Syntax.Cursor
import HookLint.Syntax.Source
import Mathlib.Data.List.Pairwise

/-!
# Proofs.Syntax.Layout — where the parts of a tree lie

A tree is well formed if every child lies inside its parent, siblings come one after the other, and
names are not empty.  Then two parts of a node that stand in different places do not overlap.

`Tiles outer ns` says that the nodes `ns` are well formed, lie in `outer` and do not overlap.  The
children of a node tile it (`tiles_children`), so do children with different fields
(`tiles_fields`), and tilings compose: if each tile is tiled again, all small tiles together tile
the whole (`Tiles.flatMap`).
-/

namespace HookLint.Syntax

/-- Whether nodes of this kind are names in the place of a value or of a target. -/
def Kind.isName (k : Kind) : Bool :=
  k = .identifier || k = .shorthandProperty || k = .shorthandPattern

namespace Node

/-- Children lie inside their parent and one after the other, and names are not empty. -/
inductive WellFormed : Node → Prop where
  | intro {n : Node} (inside : ∀ c ∈ n.children, n.contains c = true)
      (ordered : n.children.Pairwise fun a b => a.stop ≤ b.start)
      (name_pos : n.kind.isName = true → n.start < n.stop)
      (children : ∀ c ∈ n.children, WellFormed c) : WellFormed n

/-- Well-formedness can be checked, node by node. -/
def decideWellFormed (n : Node) : Decidable n.WellFormed :=
  haveI : ∀ c : { c // c ∈ n.children }, Decidable c.1.WellFormed :=
    fun c => decideWellFormed c.1
  decidable_of_iff
    (((∀ c ∈ n.children, n.contains c = true) ∧
      n.children.Pairwise fun a b => a.stop ≤ b.start) ∧
      (n.kind.isName = true → n.start < n.stop) ∧ ∀ c ∈ n.children.attach, c.1.WellFormed)
    ⟨fun h => .intro h.1.1 h.1.2 h.2.1 fun c hc => h.2.2 ⟨c, hc⟩ (List.mem_attach _ _),
      fun h => by
        obtain ⟨h1, h2, h3, h4⟩ := h
        exact ⟨⟨h1, h2⟩, h3, fun c _ => h4 c.1 c.2⟩⟩
termination_by sizeOf n
decreasing_by exact sizeOf_of_mem_children c.2

instance (n : Node) : Decidable n.WellFormed := decideWellFormed n

namespace WellFormed

variable {n c : Node}

theorem ordered (h : n.WellFormed) : n.children.Pairwise fun a b => a.stop ≤ b.start := by
  obtain ⟨-, h, -, -⟩ := h
  exact h

theorem name_pos (h : n.WellFormed) (hk : n.kind.isName = true) : n.start < n.stop := by
  obtain ⟨-, -, h, -⟩ := h
  exact h hk

theorem child (h : n.WellFormed) (hc : c ∈ n.children) : c.WellFormed := by
  obtain ⟨-, -, -, h⟩ := h
  exact h c hc

theorem contains_child (h : n.WellFormed) (hc : c ∈ n.children) : n.contains c = true := by
  obtain ⟨h, -, -, -⟩ := h
  exact h c hc

end WellFormed

/-! ### Containment and separation -/

section Ranges

variable {a b c m n : Node}

theorem contains_iff : n.contains c = true ↔ n.start ≤ c.start ∧ c.stop ≤ n.stop := by
  unfold contains
  simp

@[simp] theorem contains_self (n : Node) : n.contains n = true := by
  rw [contains_iff]
  omega

theorem contains_trans (h₁ : a.contains b = true) (h₂ : b.contains c = true) :
    a.contains c = true := by
  rw [contains_iff] at *
  omega

/-- The ranges of two nodes do not overlap. -/
def Apart (a b : Node) : Prop := a.stop ≤ b.start ∨ b.stop ≤ a.start

instance : Std.Symm Apart := ⟨fun _ _ h => Or.symm h⟩

/-- What lies in separate nodes is separate. -/
theorem Apart.mono (h : Apart m n) (ha : m.contains a = true) (hb : n.contains b = true) :
    Apart a b := by
  unfold Apart at *
  rw [contains_iff] at ha hb
  omega

/-- A node that is not empty is not both inside another node and apart from it. -/
theorem Apart.not_contains (h : Apart a n) (ha : a.start < a.stop) : n.contains a = false := by
  rw [← Bool.not_eq_true, contains_iff]
  unfold Apart at h
  omega

theorem WellFormed.apart_of_ne (h : n.WellFormed) (ha : a ∈ n.children) (hb : b ∈ n.children)
    (hne : a ≠ b) : Apart a b := by
  have hpair : n.children.Pairwise Apart := h.ordered.imp Or.inl
  exact hpair.forall ha hb hne

end Ranges

/-! ### Tilings -/

/-- Well-formed nodes inside of `outer` that do not overlap. -/
structure Tiles (outer : Node) (ns : List Node) : Prop where
  inside : ∀ n ∈ ns, outer.contains n = true
  apart : ns.Pairwise Apart
  wellFormed : ∀ n ∈ ns, n.WellFormed

namespace Tiles

variable {outer n : Node} {ns ms : List Node}

theorem self (hn : n.WellFormed) : Tiles n [n] where
  inside m hm := by
    obtain rfl := List.mem_singleton.mp hm
    exact contains_self m
  apart := List.pairwise_singleton _ _
  wellFormed m hm := by
    obtain rfl := List.mem_singleton.mp hm
    exact hn

theorem sublist (h : Tiles outer ns) (hs : ms.Sublist ns) : Tiles outer ms where
  inside m hm := h.inside m (hs.subset hm)
  apart := h.apart.sublist hs
  wellFormed m hm := h.wellFormed m (hs.subset hm)

/-- **Tilings compose.**  If the places `g a` tile a node, and every place is tiled by `f a`, then
all these tiles together tile the node. -/
theorem flatMap {α : Type} {l : List α} {g : α → Option Node} {f : α → List Node}
    (h : Tiles outer (l.filterMap g))
    (hf : ∀ a ∈ l, f a = [] ∨ ∃ n, g a = some n ∧ (n.WellFormed → Tiles n (f a))) :
    Tiles outer (l.flatMap f) := by
  -- a tile comes from a place
  have hplace : ∀ a ∈ l, ∀ m ∈ f a, ∃ n, g a = some n ∧ n ∈ l.filterMap g ∧ Tiles n (f a) := by
    intro a ha m hm
    rcases hf a ha with hnil | ⟨n, hn, ht⟩
    · rw [hnil] at hm
      cases hm
    · have hmem : n ∈ l.filterMap g := List.mem_filterMap.mpr ⟨a, ha, hn⟩
      exact ⟨n, hn, hmem, ht (h.wellFormed n hmem)⟩
  refine ⟨?_, ?_, ?_⟩
  · intro m hm
    obtain ⟨a, ha, hm⟩ := List.mem_flatMap.mp hm
    obtain ⟨n, -, hn, ht⟩ := hplace a ha m hm
    exact contains_trans (h.inside n hn) (ht.inside m hm)
  · refine List.pairwise_flatMap.mpr ⟨?_, ?_⟩
    · intro a ha
      rcases hf a ha with hnil | ⟨n, hn, ht⟩
      · rw [hnil]
        exact List.Pairwise.nil
      · exact (ht (h.wellFormed n (List.mem_filterMap.mpr ⟨a, ha, hn⟩))).apart
    · refine (List.pairwise_filterMap.mp h.apart).imp_of_mem ?_
      intro a b ha hb hab x hx y hy
      obtain ⟨m, hm, -, htm⟩ := hplace a ha x hx
      obtain ⟨n, hn, -, htn⟩ := hplace b hb y hy
      exact (hab m hm n hn).mono (htm.inside x hx) (htn.inside y hy)
  · intro m hm
    obtain ⟨a, ha, hm⟩ := List.mem_flatMap.mp hm
    obtain ⟨n, -, -, ht⟩ := hplace a ha m hm
    exact ht.wellFormed m hm

end Tiles

/-! ### The parts of a node -/

section Parts

variable {n c : Node}

theorem tiles_children (h : n.WellFormed) : Tiles n n.children where
  inside _ hc := h.contains_child hc
  apart := h.ordered.imp Or.inl
  wellFormed _ hc := h.child hc

theorem field_of_child? {f : Field} (hc : n.child? f = some c) : c.field = some f := by
  have h := List.find?_some hc
  exact of_decide_eq_true h

/-- Children with different fields are different tiles, in whatever order they are asked for. -/
theorem tiles_fields (h : n.WellFormed) {fs : List Field} (hfs : fs.Nodup) :
    Tiles n (fs.filterMap n.child?) := by
  have hmem : ∀ c ∈ fs.filterMap n.child?, c ∈ n.children := by
    intro c hc
    obtain ⟨f, -, hf⟩ := List.mem_filterMap.mp hc
    exact mem_children_of_child? hf
  refine ⟨fun c hc => h.contains_child (hmem c hc), ?_, fun c hc => h.child (hmem c hc)⟩
  refine List.pairwise_filterMap.mpr (hfs.imp ?_)
  intro f g hfg a ha b hb
  refine h.apart_of_ne (mem_children_of_child? ha) (mem_children_of_child? hb) ?_
  rintro rfl
  have hf := field_of_child? ha
  rw [field_of_child? hb] at hf
  exact hfg (Option.some.inj hf).symm

end Parts

end Node

/-! ### Cursors -/

namespace Cursor

open Node

variable {c d : Cursor}

@[simp] theorem map_node_children (c : Cursor) : c.children.map Cursor.node = c.node.children := by
  unfold children
  rw [List.map_map]
  exact List.map_id _

@[simp] theorem map_node_namedChildren (c : Cursor) :
    c.namedChildren.map Cursor.node = c.node.namedChildren := by
  unfold namedChildren
  rw [List.map_map]
  exact List.map_id _

@[simp] theorem map_node_elements (c : Cursor) : c.elements.map Cursor.node = c.node.elements := by
  unfold elements
  rw [List.map_map]
  exact List.map_id _

theorem node_child? {f : Field} (h : c.child? f = some d) : c.node.child? f = some d.node := by
  obtain ⟨n, hn, rfl⟩ := Option.map_eq_some_iff.mp h
  exact hn

end Cursor

/-- A token that stands at an offset. -/
def tokenAt (name : String) (start : Nat) : Node :=
  { kind := .ofName name, named := false, start, stop := start + name.utf8ByteSize }

/-! ### A small program

A component whose effect reads a parameter that its array lacks:
`function C(p){useEffect(()=>p,[])}`. -/

def effectText : Source := ⟨"function C(p)\x7buseEffect(()=>p,[])\x7d"⟩

def effectCallback : Node :=
  { kind := .arrowFunction, start := 24, stop := 29
    children := [{ kind := .identifier, field := some .body, start := 28, stop := 29 }] }

def effectArray : Node := { kind := .array, start := 30, stop := 32 }

def effectCall : Node :=
  { kind := .callExpression, start := 14, stop := 33
    children := [
      { kind := .identifier, field := some .function, start := 14, stop := 23 },
      { kind := .arguments, field := some .arguments, start := 23, stop := 33
        children := [effectCallback, effectArray] }] }

def effectProgram : Node :=
  { kind := .other "program", start := 0, stop := 34
    children := [
      { kind := .functionDeclaration, start := 0, stop := 34
        children := [
          { kind := .identifier, field := some .name, start := 9, stop := 10 },
          { kind := .other "formal_parameters", field := some .parameters, start := 10, stop := 13
            children := [{ kind := .identifier, start := 11, stop := 12 }] },
          { kind := .statementBlock, field := some .body, start := 13, stop := 34
            children := [effectCall] }] }] }

theorem wellFormed_effectProgram : effectProgram.WellFormed := by decide +kernel

end HookLint.Syntax
