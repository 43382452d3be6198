import HookLint.Proofs.Data.Assoc
import HookLint.Scope.Tree

/-!
# Proofs.Scope.StoreInvariant — what holds of every store

`Store.Valid` is the invariant: scopes and bindings have their positions as numbers, every scope
stands in an older one, and a table maps a name to a binding of that name and scope.  Each operation
keeps it, so it holds after any list of events (`valid_foldl`), and of every program
(`valid_ofProgram`).
-/

namespace HookLint.Scope

open Syntax

namespace Store

/-- The invariant of a store. -/
structure Valid (s : Store) : Prop where
  scope_id : ∀ {i : Nat} {f : Frame}, s.scopes[i]? = some f → f.id = i
  parent_lt : ∀ {i q : Nat} {f : Frame}, s.scopes[i]? = some f → f.parent = some q → q < i
  current_lt : ∀ {c : Nat}, s.current = some c → c < s.scopes.size
  binding_id : ∀ {k : Nat} {b : Binding}, s.bindings[k]? = some b → b.id = k
  scope_lt : ∀ {k : Nat} {b : Binding}, s.bindings[k]? = some b → b.scope < s.scopes.size
  entry : ∀ {i k : Nat} {f : Frame} {name : String}, s.scopes[i]? = some f →
    Assoc.get? f.names name = some k → ∃ b, s.bindings[k]? = some b ∧ b.name = name ∧ b.scope = i

theorem valid_empty : Valid {} where
  scope_id h := by simp at h
  parent_lt h := by simp at h
  current_lt h := by cases h
  binding_id h := by simp at h
  scope_lt h := by simp at h
  entry h := by simp at h

section Operations

variable {s : Store}

theorem lt_of_getElem? {α : Type} {xs : Array α} {i : Nat} {x : α} (h : xs[i]? = some x) :
    i < xs.size := (Array.getElem?_eq_some_iff.mp h).1

theorem Valid.enter (h : s.Valid) (kind : ScopeKind) (node : Node) : (s.enter kind node).Valid := by
  have hnew : ∀ {i : Nat} {f : Frame}, (s.enter kind node).scopes[i]? = some f →
      (i = s.scopes.size ∧ f = ⟨s.scopes.size, kind, node, s.current, []⟩) ∨
        s.scopes[i]? = some f := by
    intro i f hf
    simp only [Store.enter, Array.getElem?_push] at hf
    split at hf
    · next hi => exact Or.inl ⟨hi, (Option.some.inj hf).symm⟩
    · exact Or.inr hf
  refine ⟨?_, ?_, ?_, h.binding_id, ?_, ?_⟩
  · intro i f hf
    rcases hnew hf with ⟨rfl, rfl⟩ | hf
    · rfl
    · exact h.scope_id hf
  · intro i q f hf hq
    rcases hnew hf with ⟨rfl, rfl⟩ | hf
    · exact h.current_lt hq
    · exact h.parent_lt hf hq
  · intro c hc
    simp only [Store.enter, Option.some.injEq] at hc ⊢
    simp [← hc]
  · intro k b hb
    have := h.scope_lt hb
    simp only [Store.enter, Array.size_push]
    omega
  · intro i k f name hf hk
    rcases hnew hf with ⟨rfl, rfl⟩ | hf
    · simp at hk
    · exact h.entry hf hk

theorem Valid.close (h : s.Valid) (entered : Nat) : (s.close entered).Valid := by
  refine ⟨h.scope_id, h.parent_lt, ?_, h.binding_id, h.scope_lt, h.entry⟩
  intro c hc
  simp only [Store.close, Store.parent?] at hc ⊢
  obtain ⟨f, hf, hq⟩ := Option.bind_eq_some_iff.mp hc
  have h1 := h.parent_lt hf hq
  have h2 := lt_of_getElem? hf
  omega

/-- The frames after a declaration: only the table of the scope concerned has a new entry. -/
theorem getElem?_declareIn {d : Declaration} {scope i : Nat} {f : Frame}
    (hf : (s.declareIn d scope).scopes[i]? = some f) :
    ∃ g, s.scopes[i]? = some g ∧ f.id = g.id ∧ f.parent = g.parent ∧
      f.names = if scope = i then Assoc.put g.names d.name s.bindings.size else g.names := by
  simp only [Store.declareIn, Array.getElem?_modify] at hf
  split at hf
  · next hi =>
    obtain ⟨g, hg, rfl⟩ := Option.map_eq_some_iff.mp hf
    exact ⟨g, hg, rfl, rfl, by rw [if_pos hi]⟩
  · next hi => exact ⟨f, hf, rfl, rfl, by rw [if_neg hi]⟩

theorem Valid.declareIn (h : s.Valid) (d : Declaration) {scope : Nat}
    (hscope : scope < s.scopes.size) : (s.declareIn d scope).Valid := by
  have hsize : (s.declareIn d scope).scopes.size = s.scopes.size := by simp [Store.declareIn]
  have hnew : ∀ {k : Nat} {b : Binding}, (s.declareIn d scope).bindings[k]? = some b →
      (k = s.bindings.size ∧ b.id = k ∧ b.scope = scope) ∨ s.bindings[k]? = some b := by
    intro k b hb
    simp only [Store.declareIn, Array.getElem?_push] at hb
    split at hb
    · next hk =>
      obtain rfl := Option.some.inj hb
      exact Or.inl ⟨hk, hk.symm, rfl⟩
    · exact Or.inr hb
  refine ⟨?_, ?_, ?_, ?_, ?_, ?_⟩
  · intro i f hf
    obtain ⟨g, hg, hid, -, -⟩ := getElem?_declareIn hf
    rw [hid]
    exact h.scope_id hg
  · intro i q f hf hq
    obtain ⟨g, hg, -, hp, -⟩ := getElem?_declareIn hf
    exact h.parent_lt hg (hp ▸ hq)
  · intro c hc
    rw [hsize]
    exact h.current_lt hc
  · intro k b hb
    rcases hnew hb with ⟨-, hid, -⟩ | hb
    · exact hid
    · exact h.binding_id hb
  · intro k b hb
    rw [hsize]
    rcases hnew hb with ⟨-, -, hs⟩ | hb
    · omega
    · exact h.scope_lt hb
  · intro i k f name hf hk
    obtain ⟨g, hg, -, -, hnames⟩ := getElem?_declareIn hf
    -- an old entry still finds its old binding
    have hold : Assoc.get? g.names name = some k →
        ∃ b, (s.declareIn d scope).bindings[k]? = some b ∧ b.name = name ∧ b.scope = i := by
      intro hk'
      obtain ⟨b, hb, hn, hs⟩ := h.entry hg hk'
      have hlt := lt_of_getElem? hb
      refine ⟨b, ?_, hn, hs⟩
      simp only [Store.declareIn, Array.getElem?_push]
      rw [if_neg (by omega), hb]
    rw [hnames] at hk
    split at hk
    · next hi =>
      rw [Assoc.get?_put] at hk
      split at hk
      · next hn =>
        obtain rfl := Option.some.inj hk
        exact ⟨_, Array.getElem?_push_size, hn, hi⟩
      · exact hold hk
    · exact hold hk

/-- The bindings after a use is noted: names and scopes are what they were. -/
theorem getElem?_noteUse {binding use k : Nat} {writes : Bool} {b : Binding}
    (hb : (s.noteUse binding use writes).bindings[k]? = some b) :
    ∃ c, s.bindings[k]? = some c ∧ b.toDeclaration = c.toDeclaration ∧ b.id = c.id ∧
      b.scope = c.scope := by
  simp only [Store.noteUse, Array.getElem?_modify] at hb
  split at hb
  · obtain ⟨c, hc, rfl⟩ := Option.map_eq_some_iff.mp hb
    exact ⟨c, hc, rfl, rfl, rfl⟩
  · exact ⟨b, hb, rfl, rfl, rfl⟩

/-- Noting a use loses no binding. -/
theorem exists_noteUse (binding use : Nat) (writes : Bool) {k : Nat} {b : Binding}
    (hb : s.bindings[k]? = some b) : ∃ c, (s.noteUse binding use writes).bindings[k]? = some c ∧
      c.toDeclaration = b.toDeclaration ∧ c.id = b.id ∧ c.scope = b.scope := by
  simp only [Store.noteUse, Array.getElem?_modify, hb, Option.map_some]
  split <;> exact ⟨_, rfl, rfl, rfl, rfl⟩

theorem Valid.noteUse (h : s.Valid) (binding use : Nat) (writes : Bool) :
    (s.noteUse binding use writes).Valid := by
  refine ⟨h.scope_id, h.parent_lt, h.current_lt, ?_, ?_, ?_⟩
  · intro k b hb
    obtain ⟨c, hc, -, hid, -⟩ := getElem?_noteUse hb
    rw [hid]
    exact h.binding_id hc
  · intro k b hb
    obtain ⟨c, hc, -, -, hs⟩ := getElem?_noteUse hb
    rw [hs]
    exact h.scope_lt hc
  · intro i k f name hf hk
    obtain ⟨b, hb, hn, hs⟩ := h.entry hf hk
    obtain ⟨c, hc, hd, -, hs'⟩ := exists_noteUse binding use writes hb
    exact ⟨c, hc, by rw [hd]; exact hn, hs'.trans hs⟩

end Operations

end Store

/-! ### Runs -/

namespace Tree

variable {src : Source} {t : Tree}

/-! #### One event -/

/-- The record that a use leaves if it is met in the scope `x`. -/
def useIn (src : Source) (t : Tree) (x : Nat) (c : Cursor) (a : Access) : Use :=
  ⟨c, src.textOf c.node, t.store.resolveFrom (src.textOf c.node) x, x, a⟩

/-- The store after a use, which is noted with its binding if it has one. -/
def storeAfterUse (src : Source) (t : Tree) (x : Nat) (c : Cursor) (a : Access) : Store :=
  (t.useIn src x c a).binding.elim t.store fun b => t.store.noteUse b t.uses.size a.writes

theorem step_leave (src : Source) {x : Nat} (hx : t.store.current = some x) :
    t.step src .leave = { t with store := t.store.close x } := by
  unfold step Store.exit
  rw [hx]

theorem step_declare (src : Source) (d : Declaration) {x : Nat} (hx : t.store.current = some x) :
    t.step src (.declare d) = { t with store := t.store.declareIn d x } := by
  unfold step Store.declare Store.open?
  rw [hx]
  rfl

theorem step_use (src : Source) (c : Cursor) (a : Access) {x : Nat}
    (hx : t.store.current = some x) : t.step src (.use c a) =
      { t with uses := t.uses.push (t.useIn src x c a), store := t.storeAfterUse src x c a } := by
  unfold step Store.open?
  rw [hx]
  rfl

theorem step_call (src : Source) (n : Node) {x : Nat} (hx : t.store.current = some x) :
    t.step src (.call n) = { t with calls := t.calls.push ⟨n, x⟩ } := by
  unfold step Store.open?
  rw [hx]

/-- Without an open scope, an event other than an entry changes nothing. -/
theorem step_of_current_none (src : Source) (hx : t.store.current = none) (e : Event) :
    (∃ kind n, e = .enter kind n) ∨ t.step src e = t := by
  cases e with
  | enter kind n => exact Or.inl ⟨kind, n, rfl⟩
  | leave => exact Or.inr (by unfold step Store.exit; rw [hx])
  | declare d => exact Or.inr (by unfold step Store.declare Store.open?; rw [hx]; rfl)
  | use c a => exact Or.inr (by unfold step Store.open?; rw [hx])
  | call n => exact Or.inr (by unfold step Store.open?; rw [hx])

/-- Everything that an event can do to a tree. -/
theorem step_cases (src : Source) (t : Tree) (e : Event) :
    (∃ kind n, e = .enter kind n ∧ t.step src e = { t with store := t.store.enter kind n }) ∨
    t.step src e = t ∨
    ∃ x, t.store.current = some x ∧
      (e = .leave ∧ t.step src e = { t with store := t.store.close x } ∨
      (∃ d, e = .declare d ∧ t.step src e = { t with store := t.store.declareIn d x }) ∨
      (∃ c a, e = .use c a ∧ t.step src e =
        { t with uses := t.uses.push (t.useIn src x c a), store := t.storeAfterUse src x c a }) ∨
      ∃ n, e = .call n ∧ t.step src e = { t with calls := t.calls.push ⟨n, x⟩ }) := by
  cases hx : t.store.current with
  | none =>
    rcases step_of_current_none src hx e with ⟨kind, n, rfl⟩ | h
    · exact Or.inl ⟨kind, n, rfl, rfl⟩
    · exact Or.inr (Or.inl h)
  | some x =>
    cases e with
    | enter kind n => exact Or.inl ⟨kind, n, rfl, rfl⟩
    | leave => exact Or.inr (Or.inr ⟨x, rfl, Or.inl ⟨rfl, step_leave src hx⟩⟩)
    | declare d =>
      exact Or.inr (Or.inr ⟨x, rfl, Or.inr (Or.inl ⟨d, rfl, step_declare src d hx⟩)⟩)
    | use c a =>
      exact Or.inr (Or.inr ⟨x, rfl, Or.inr (Or.inr (Or.inl ⟨c, a, rfl, step_use src c a hx⟩))⟩)
    | call n =>
      exact Or.inr (Or.inr ⟨x, rfl, Or.inr (Or.inr (Or.inr ⟨n, rfl, step_call src n hx⟩))⟩)

theorem valid_step (src : Source) (h : t.store.Valid) (e : Event) : (t.step src e).store.Valid := by
  rcases step_cases src t e with ⟨kind, n, -, heq⟩ | heq | ⟨x, hx, hcase⟩
  · rw [heq]
    exact h.enter kind n
  · rw [heq]
    exact h
  · rcases hcase with ⟨-, heq⟩ | ⟨d, -, heq⟩ | ⟨c, a, -, heq⟩ | ⟨n, -, heq⟩
    · rw [heq]
      exact h.close x
    · rw [heq]
      exact h.declareIn d (h.current_lt hx)
    · rw [heq]
      show (t.storeAfterUse src x c a).Valid
      unfold storeAfterUse
      cases (t.useIn src x c a).binding with
      | none => exact h
      | some b => exact h.noteUse _ _ _
    · rw [heq]
      exact h

theorem valid_foldl (h : t.store.Valid) (es : List Event) :
    (es.foldl (step src) t).store.Valid := by
  induction es generalizing t with
  | nil => exact h
  | cons e es ih => exact ih (valid_step src h e)

theorem valid_ofProgram (src : Source) (root : Node) : (ofProgram src root).store.Valid :=
  valid_foldl Store.valid_empty _

/-- In a program the binding of a use is the one that its number names. -/
theorem id_of_bindingOf? (h : t.store.Valid) {u : Use} {b : Binding}
    (hb : t.bindingOf? u = some b) : u.binding = some b.id ∧ t.binding? b.id = some b := by
  obtain ⟨k, hk, hb⟩ := Option.bind_eq_some_iff.mp hb
  obtain rfl := h.binding_id hb
  exact ⟨hk, hb⟩

/-- Two uses whose bindings have one number are uses of one binding. -/
theorem bindingOf?_inj (h : t.store.Valid) {u v : Use} {b c : Binding}
    (hu : t.bindingOf? u = some b) (hv : t.bindingOf? v = some c) (hid : b.id = c.id) : b = c := by
  have hb := (id_of_bindingOf? h hu).2
  rw [hid, (id_of_bindingOf? h hv).2] at hb
  exact (Option.some.inj hb).symm

end Tree

end HookLint.Scope
