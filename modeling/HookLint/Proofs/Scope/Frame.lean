import HookLint.Proofs.Scope.Nesting
import HookLint.Proofs.Scope.StoreInvariant
import Mathlib.Data.List.Basic

/-!
# Proofs.Scope.Frame — what the walk of a part leaves alone

Later events keep what a store says of its scopes and bindings (`Store.Grows`).  While the walk is
in a part of the tree, more holds: the tables of the scopes around the part do not change, and the
chain of the open scope runs through newer scopes to the scope the part stands in.  That is
`Inside`; one step keeps it (`Inside.use`, `Inside.enter` and so on), hence so does a whole part
(`Inside.run`).

So a name that is used in the part and means something declared outside of it means the same where
the part begins (`Lexical`).
-/

namespace HookLint.Scope

open Syntax

namespace Store

/-! ### Chains of scopes -/

section Chains

variable {s t : Store} {id i : Nat} {name : String}

/-- A chain depends on the parents of its scopes only. -/
theorem ancestors_congr (h : ∀ i ≤ id, t.parent? i = s.parent? i) :
    t.ancestors id = s.ancestors id := by
  induction id using Nat.strongRecOn with
  | ind id ih =>
    rw [ancestors, ancestors, h id (Nat.le_refl _)]
    cases s.parent? id with
    | none => rfl
    | some p =>
      simp only
      split
      · next hp =>
        rw [ih p hp fun i hi => h i (by omega)]
      · rfl

theorem le_of_mem_ancestors (h : i ∈ s.ancestors id) : i ≤ id := by
  induction id using Nat.strongRecOn with
  | ind id ih =>
    rw [ancestors] at h
    split at h
    · next p _ =>
      split at h
      · next hp =>
        rcases List.mem_cons.mp h with rfl | h
        · exact Nat.le_refl _
        · have := ih p hp h
          omega
      · exact Nat.le_of_eq (List.mem_singleton.mp h)
    · exact Nat.le_of_eq (List.mem_singleton.mp h)

theorem le_of_mem_region (h : i ∈ s.region id) : i ≤ id := by
  have hcomp : s.component id ≤ id := by
    unfold component
    cases hf : (s.ancestors id).find? s.isComponent with
    | none => exact Nat.le_refl _
    | some c => exact le_of_mem_ancestors (List.mem_of_find?_eq_some hf)
  rcases List.mem_append.mp h with h | h
  · exact le_of_mem_ancestors ((List.takeWhile_sublist _).subset h)
  · rw [List.mem_singleton.mp h]
    exact hcomp

/-- The chain of a scope that was just opened. -/
theorem ancestors_enter (h : s.Valid) {c : Nat} (hc : s.current = some c) (kind : ScopeKind)
    (n : Node) :
    (s.enter kind n).ancestors s.scopes.size = s.scopes.size :: s.ancestors c := by
  have hlt := h.current_lt hc
  have hnew : (s.enter kind n).parent? s.scopes.size = some c := by
    simp [parent?, Store.enter, hc]
  have hold : ∀ i ≤ c, (s.enter kind n).parent? i = s.parent? i := by
    intro i hi
    simp only [parent?, Store.enter, Array.getElem?_push]
    rw [if_neg (by omega)]
  rw [ancestors, hnew]
  simp only
  rw [if_pos hlt, ancestors_congr hold]

/-- Going outwards finds the first entry along the chain. -/
theorem resolveFrom_eq_findSome? (s : Store) (name : String) (scope : Nat) :
    s.resolveFrom name scope = (s.ancestors scope).findSome? (s.lookup name) := by
  induction scope using Nat.strongRecOn with
  | ind scope ih =>
    rw [resolveFrom, ancestors]
    cases hp : s.parent? scope with
    | none => cases hl : s.lookup name scope <;> simp [hl]
    | some p =>
      by_cases hlt : p < scope
      · simp only [if_pos hlt, List.findSome?_cons, ih p hlt]
        cases s.lookup name scope <;> rfl
      · simp only [if_neg hlt]
        cases hl : s.lookup name scope <;> simp [hl]

/-- A name resolves to a binding of that name, in a scope of the chain. -/
theorem exists_of_resolveFrom (h : s.Valid) {scope k : Nat}
    (hr : s.resolveFrom name scope = some k) :
    ∃ b, s.bindings[k]? = some b ∧ b.name = name ∧ b.scope ∈ s.ancestors scope := by
  rw [resolveFrom_eq_findSome?] at hr
  obtain ⟨i, hi, hl⟩ := List.exists_of_findSome?_eq_some hr
  obtain ⟨f, hf, hk⟩ := Option.bind_eq_some_iff.mp hl
  obtain ⟨b, hb, hn, hs⟩ := h.entry hf hk
  exact ⟨b, hb, hn, hs ▸ hi⟩

end Chains

/-! ### What all later events keep -/

/-- Scopes keep their parents, bindings their names and scopes. -/
structure Grows (s t : Store) : Prop where
  frame : ∀ {i : Nat} {f : Frame}, s.scopes[i]? = some f →
    ∃ g, t.scopes[i]? = some g ∧ g.parent = f.parent
  binding : ∀ {k : Nat} {b : Binding}, s.bindings[k]? = some b →
    ∃ c, t.bindings[k]? = some c ∧ c.name = b.name ∧ c.scope = b.scope

theorem exists_getElem? {α : Type} {xs : Array α} {i : Nat} (h : i < xs.size) :
    ∃ x, xs[i]? = some x := ⟨_, Array.getElem?_eq_getElem h⟩

namespace Grows

variable {s t r : Store}

theorem refl (s : Store) : Grows s s := ⟨fun h => ⟨_, h, rfl⟩, fun h => ⟨_, h, rfl, rfl⟩⟩

theorem trans (h₁ : Grows s t) (h₂ : Grows t r) : Grows s r := by
  refine ⟨fun hf => ?_, fun hb => ?_⟩
  · obtain ⟨g, hg, hp⟩ := h₁.frame hf
    obtain ⟨k, hk, hq⟩ := h₂.frame hg
    exact ⟨k, hk, hq.trans hp⟩
  · obtain ⟨c, hc, hn, hs⟩ := h₁.binding hb
    obtain ⟨d, hd, hn', hs'⟩ := h₂.binding hc
    exact ⟨d, hd, hn'.trans hn, hs'.trans hs⟩

theorem enter (s : Store) (kind : ScopeKind) (n : Node) : Grows s (s.enter kind n) := by
  refine ⟨fun {i f} hf => ⟨f, ?_, rfl⟩, fun hb => ⟨_, hb, rfl, rfl⟩⟩
  have hlt := lt_of_getElem? hf
  simp only [Store.enter, Array.getElem?_push]
  rw [if_neg (by omega), hf]

theorem close (s : Store) (entered : Nat) : Grows s (s.close entered) :=
  ⟨fun h => ⟨_, h, rfl⟩, fun h => ⟨_, h, rfl, rfl⟩⟩

theorem declareIn (s : Store) (d : Declaration) (scope : Nat) : Grows s (s.declareIn d scope) := by
  refine ⟨fun {i f} hf => ?_, fun {k b} hb => ⟨b, ?_, rfl, rfl⟩⟩
  · simp only [Store.declareIn, Array.getElem?_modify, hf]
    split <;> exact ⟨_, rfl, rfl⟩
  · have hlt := lt_of_getElem? hb
    simp only [Store.declareIn, Array.getElem?_push]
    rw [if_neg (by omega), hb]

theorem noteUse (s : Store) (k use : Nat) (writes : Bool) : Grows s (s.noteUse k use writes) := by
  refine ⟨fun h => ⟨_, h, rfl⟩, fun hb => ?_⟩
  obtain ⟨c, hc, hd, -, hs⟩ := exists_noteUse k use writes hb
  exact ⟨c, hc, congrArg Declaration.name hd, hs⟩

theorem parent? (h : Grows s t) {i : Nat} (hi : i < s.scopes.size) : t.parent? i = s.parent? i := by
  obtain ⟨f, hf⟩ := exists_getElem? hi
  obtain ⟨g, hg, hp⟩ := h.frame hf
  simp only [Store.parent?, hf, hg, Option.bind_some, hp]

theorem ancestors (h : Grows s t) {id : Nat} (hid : id < s.scopes.size) :
    t.ancestors id = s.ancestors id :=
  ancestors_congr fun i hi => h.parent? (by omega)

theorem size_le (h : Grows s t) : s.scopes.size ≤ t.scopes.size := by
  by_contra hlt
  obtain ⟨f, hf⟩ := exists_getElem? (Nat.lt_of_not_le hlt)
  obtain ⟨g, hg, -⟩ := h.frame hf
  exact absurd (lt_of_getElem? hg) (Nat.lt_irrefl _)

end Grows

end Store

namespace Tree

variable {src : Source} {t : Tree}

theorem grows_storeAfterUse (src : Source) (t : Tree) (x : Nat) (c : Cursor) (a : Access) :
    t.store.Grows (t.storeAfterUse src x c a) := by
  unfold storeAfterUse
  cases (t.useIn src x c a).binding with
  | none => exact Store.Grows.refl _
  | some b => exact Store.Grows.noteUse _ _ _ _

theorem grows_step (src : Source) (t : Tree) (e : Event) : t.store.Grows (t.step src e).store := by
  rcases step_cases src t e with ⟨kind, n, -, heq⟩ | heq | ⟨x, -, hcase⟩
  · rw [heq]
    exact Store.Grows.enter _ _ _
  · rw [heq]
    exact Store.Grows.refl _
  · rcases hcase with ⟨-, heq⟩ | ⟨d, -, heq⟩ | ⟨c, a, -, heq⟩ | ⟨n, -, heq⟩
    · rw [heq]
      exact Store.Grows.close _ _
    · rw [heq]
      exact Store.Grows.declareIn _ _ _
    · rw [heq]
      exact grows_storeAfterUse src t x c a
    · rw [heq]
      exact Store.Grows.refl _

theorem grows_foldl (src : Source) (t : Tree) (es : List Event) :
    t.store.Grows (es.foldl (step src) t).store := by
  induction es generalizing t with
  | nil => exact Store.Grows.refl _
  | cons e es ih => exact (grows_step src t e).trans (ih _)

/-- A use leaves scopes alone. -/
theorem scopes_storeAfterUse (src : Source) (t : Tree) (x : Nat) (c : Cursor) (a : Access) :
    (t.storeAfterUse src x c a).scopes = t.store.scopes ∧
      (t.storeAfterUse src x c a).current = t.store.current := by
  unfold storeAfterUse
  cases (t.useIn src x c a).binding with
  | none => exact ⟨rfl, rfl⟩
  | some b => exact ⟨rfl, rfl⟩

end Tree

/-! ### Older scopes and the open one

The events of a part declare names in scopes that they open themselves, so older scopes stay as they
are; and at the end the same scope is open as at the beginning. -/

namespace Tree

variable {src : Source} {t : Tree}

theorem scopes_leave (src : Source) (t : Tree) :
    (t.step src .leave).store.scopes = t.store.scopes := by
  cases hx : t.store.current with
  | some x => rw [step_leave src hx]; rfl
  | none =>
    rcases step_of_current_none src hx .leave with ⟨kind, n, h⟩ | h
    · cases h
    · rw [h]

/-- Leaving the scope that was entered at `t` opens what was open there. -/
theorem current_leave (src : Source) {later : Tree} {kind : ScopeKind} {n : Node}
    (hgrows : (t.store.enter kind n).Grows later.store)
    (hcurrent : later.store.current = some t.store.scopes.size) :
    (later.step src .leave).store.current = t.store.current := by
  rw [step_leave src hcurrent]
  show later.store.parent? t.store.scopes.size = t.store.current
  rw [hgrows.parent? (by simp [Store.enter])]
  simp [Store.enter, Store.parent?]

/-- An event that neither opens nor closes a scope changes the tables of the open scope at most. -/
theorem scopes_step (src : Source) {e : Event} {n : Nat} (henter : ∀ kind m, e ≠ .enter kind m)
    (hleave : e ≠ .leave)
    (hdeclare : ∀ d, e = .declare d → ∀ x, t.store.current = some x → n ≤ x) :
    (∀ i < n, (t.step src e).store.scopes[i]? = t.store.scopes[i]?) ∧
      (t.step src e).store.current = t.store.current := by
  rcases step_cases src t e with ⟨kind, m, he, -⟩ | heq | ⟨x, hx, hcase⟩
  · exact absurd he (henter kind m)
  · rw [heq]
    exact ⟨fun _ _ => rfl, rfl⟩
  · rcases hcase with ⟨he, -⟩ | ⟨d, he, heq⟩ | ⟨c, a, -, heq⟩ | ⟨m, -, heq⟩
    · exact absurd he hleave
    · have hle := hdeclare d he x hx
      rw [heq]
      refine ⟨fun i hi => ?_, rfl⟩
      simp only [Store.declareIn, Array.getElem?_modify]
      rw [if_neg (by omega)]
    · obtain ⟨hscopes, hcurrent⟩ := scopes_storeAfterUse src t x c a
      rw [heq]
      exact ⟨fun i _ => by rw [← hscopes], hcurrent⟩
    · rw [heq]
      exact ⟨fun _ _ => rfl, rfl⟩

/-- **Nested events keep older scopes.**  The scopes below `n` stay as they are, if declarations at
the outermost level go to another scope; and the open scope is the same at the end. -/
theorem scopes_nested (src : Source) {b : Bool} {es : List Event} (hes : Nested b es) {n : Nat}
    (hn : n ≤ t.store.scopes.size)
    (hopen : b = true → ∀ x, t.store.current = some x → n ≤ x) :
    (∀ i < n, (es.foldl (step src) t).store.scopes[i]? = t.store.scopes[i]?) ∧
      (es.foldl (step src) t).store.current = t.store.current := by
  induction hes generalizing t with
  | nil => exact ⟨fun _ _ => rfl, rfl⟩
  | @use b c a _ => exact scopes_step src (e := .use c a) (by simp) (by simp) (by simp)
  | @call b m => exact scopes_step src (e := .call m) (by simp) (by simp) (by simp)
  | @declare d =>
    exact scopes_step src (e := .declare d) (by simp) (by simp) fun _ _ => hopen rfl
  | @append b es fs _ _ ihs iht =>
    rw [List.foldl_append]
    obtain ⟨hs, hcur⟩ := ihs hn hopen
    have hsize := (grows_foldl src t es).size_le
    obtain ⟨ht, hcur'⟩ := iht (by omega) fun hb x hx => hopen hb x (hcur ▸ hx)
    exact ⟨fun i hi => (ht i hi).trans (hs i hi), hcur'.trans hcur⟩
  | @scope b kind m es _ ih =>
    rw [List.foldl_cons, List.foldl_append]
    have henter : n ≤ (t.step src (.enter kind m)).store.scopes.size := by
      simp only [step, Store.enter, Array.size_push]
      omega
    obtain ⟨hbody, hcur⟩ := ih henter fun _ x hx => by
      obtain rfl : t.store.scopes.size = x := Option.some.inj hx
      exact hn
    have hgrows := grows_foldl src (t.step src (.enter kind m)) es
    refine ⟨fun i hi => ?_, current_leave src hgrows hcur⟩
    rw [List.foldl_cons, List.foldl_nil, scopes_leave, hbody i hi]
    simp only [step, Store.enter, Array.getElem?_push]
    rw [if_neg (by omega)]

end Tree

/-! ### What the events of a part keep -/

/-- A use whose binding is what the name means in `scope` before, if its scope was there before. -/
def Lexical (before : Store) (scope : Nat) (now : Store) (u : Use) : Prop :=
  ∀ k, u.binding = some k → ∃ b, now.bindings[k]? = some b ∧ b.name = u.name ∧
    (b.scope < before.scopes.size → before.resolveFrom u.name scope = some k)

theorem Lexical.grows {before now later : Store} {scope : Nat} {u : Use}
    (h : Lexical before scope now u) (hg : now.Grows later) : Lexical before scope later u := by
  intro k hk
  obtain ⟨b, hb, hn, hr⟩ := h k hk
  obtain ⟨c, hc, hn', hs⟩ := hg.binding hb
  refine ⟨c, hc, hn'.trans hn, fun hlt => hr ?_⟩
  rw [← hs]
  exact hlt

/-- The walk is in a part that began in `scope`, when the tree was `start`. -/
structure Inside (start : Tree) (scope : Nat) (t : Tree) : Prop where
  valid : t.store.Valid
  /-- The scopes around the part are as they were, with their tables. -/
  frames : ∀ i < start.store.scopes.size, t.store.scopes[i]? = start.store.scopes[i]?
  /-- The chain of the open scope runs through the part and then along the chain of `scope`. -/
  chain : ∃ x inner, t.store.current = some x ∧
    t.store.ancestors x = inner ++ start.store.ancestors scope ∧
    ∀ i ∈ inner, start.store.scopes.size ≤ i
  /-- The uses met in the part. -/
  uses : ∃ met, t.uses.toList = start.uses.toList ++ met ∧
    ∀ u ∈ met, Lexical start.store scope t.store u

namespace Inside

variable {start t : Tree} {scope : Nat}

/-- At its beginning, the walk is in the part. -/
theorem begins (h : start.store.Valid) (hc : start.store.current = some scope) :
    Inside start scope start where
  valid := h
  frames _ _ := rfl
  chain := ⟨scope, [], hc, rfl, by simp⟩
  uses := ⟨[], by simp, by simp⟩

/-- A name that means something from outside of the part means the same where the part began. -/
theorem resolveFrom_eq (h : Inside start scope t) (hs : scope < start.store.scopes.size)
    {x k : Nat} {name : String} {b : Binding} (hx : t.store.current = some x)
    (hk : t.store.resolveFrom name x = some k) (hb : t.store.bindings[k]? = some b)
    (hlt : b.scope < start.store.scopes.size) : start.store.resolveFrom name scope = some k := by
  obtain ⟨y, inner, hy, hchain, hinner⟩ := h.chain
  obtain rfl : y = x := by
    rw [hx] at hy
    exact (Option.some.inj hy).symm
  -- the tables around the part are the same now as they were
  have hlookup : ∀ i ∈ start.store.ancestors scope,
      t.store.lookup name i = start.store.lookup name i := by
    intro i hi
    have hle := Store.le_of_mem_ancestors hi
    unfold Store.lookup
    rw [h.frames i (by omega)]
  rw [Store.resolveFrom_eq_findSome?] at hk ⊢
  rw [hchain, List.findSome?_append] at hk
  cases hin : inner.findSome? (t.store.lookup name) with
  | some j =>
    -- then the binding would be of a scope of the part
    rw [hin] at hk
    obtain rfl : j = k := Option.some.inj hk
    obtain ⟨i, hi, hl⟩ := List.exists_of_findSome?_eq_some hin
    obtain ⟨f, hf, hget⟩ := Option.bind_eq_some_iff.mp hl
    obtain ⟨b', hb', -, hs'⟩ := h.valid.entry hf hget
    rw [hb] at hb'
    obtain rfl := Option.some.inj hb'
    have := hinner i hi
    omega
  | none =>
    rw [hin, Option.none_or] at hk
    rw [← hk, ← List.head?_filterMap, ← List.head?_filterMap, List.filterMap_congr hlookup]

theorem lexical (src : Source) (h : Inside start scope t) (hs : scope < start.store.scopes.size)
    {x : Nat} (hx : t.store.current = some x) (c : Cursor) (a : Access) :
    Lexical start.store scope t.store (t.useIn src x c a) := by
  unfold Lexical Tree.useIn
  dsimp only
  intro k hk
  obtain ⟨b, hb, hn, -⟩ := Store.exists_of_resolveFrom h.valid hk
  exact ⟨b, hb, hn, fun hlt => h.resolveFrom_eq hs hx hk hb hlt⟩

theorem size_le (h : Inside start scope t) : start.store.scopes.size ≤ t.store.scopes.size := by
  by_contra hlt
  have hsame := h.frames t.store.scopes.size (by omega)
  obtain ⟨f, hf⟩ := Store.exists_getElem? (Nat.lt_of_not_le hlt)
  rw [hf] at hsame
  have := Store.lt_of_getElem? hsame
  omega

/-! #### One event -/

theorem call (src : Source) (h : Inside start scope t) (n : Node) :
    Inside start scope (t.step src (.call n)) := by
  obtain ⟨x, inner, hx, hrest⟩ := h.chain
  rw [Tree.step_call src n hx]
  exact ⟨h.valid, h.frames, ⟨x, inner, hx, hrest⟩, h.uses⟩

theorem use (src : Source) (h : Inside start scope t) (hs : scope < start.store.scopes.size)
    (c : Cursor) (a : Access) : Inside start scope (t.step src (.use c a)) := by
  have hvalid := Tree.valid_step src h.valid (.use c a)
  obtain ⟨x, inner, hx, hchain, hinner⟩ := h.chain
  obtain ⟨met, hmet, hlex⟩ := h.uses
  obtain ⟨hscopes, hcurrent⟩ := Tree.scopes_storeAfterUse src t x c a
  have hgrows := Tree.grows_storeAfterUse src t x c a
  rw [Tree.step_use src c a hx] at hvalid ⊢
  refine ⟨hvalid, fun i hi => ?_, ⟨x, inner, hcurrent.trans hx, ?_, hinner⟩, ?_⟩
  · rw [← h.frames i hi, ← hscopes]
  · rw [← hchain]
    exact hgrows.ancestors (h.valid.current_lt hx)
  · refine ⟨met ++ [t.useIn src x c a], ?_, fun u hu => ?_⟩
    · rw [Array.toList_push, hmet, List.append_assoc]
    · rcases List.mem_append.mp hu with hu | hu
      · exact (hlex u hu).grows hgrows
      · obtain rfl := List.mem_singleton.mp hu
        exact (h.lexical src hs hx c a).grows hgrows

/-- A declaration in a scope of the part leaves the tables around it alone. -/
theorem declare (src : Source) (h : Inside start scope t) {x : Nat} (hx : t.store.current = some x)
    (hnew : start.store.scopes.size ≤ x) (d : Declaration) :
    Inside start scope (t.step src (.declare d)) := by
  have hvalid := h.valid.declareIn d (h.valid.current_lt hx)
  have hgrows := Store.Grows.declareIn t.store d x
  obtain ⟨y, inner, hy, hchain, hinner⟩ := h.chain
  obtain ⟨met, hmet, hlex⟩ := h.uses
  rw [Tree.step_declare src d hx]
  refine ⟨hvalid, fun i hi => ?_, ⟨y, inner, hy, ?_, hinner⟩, met, hmet, fun u hu => ?_⟩
  · rw [← h.frames i hi]
    simp only [Store.declareIn, Array.getElem?_modify]
    rw [if_neg (by omega)]
  · rw [← hchain]
    exact hgrows.ancestors (h.valid.current_lt hy)
  · exact (hlex u hu).grows hgrows

/-- Entering a scope puts a new scope before the chain. -/
theorem enter (src : Source) (h : Inside start scope t) (kind : ScopeKind) (n : Node) :
    Inside start scope (t.step src (.enter kind n)) := by
  have hgrows := Store.Grows.enter t.store kind n
  have hle := h.size_le
  obtain ⟨x, inner, hx, hchain, hinner⟩ := h.chain
  obtain ⟨met, hmet, hlex⟩ := h.uses
  refine ⟨h.valid.enter kind n, fun i hi => ?_, ⟨t.store.scopes.size, t.store.scopes.size :: inner,
    rfl, ?_, ?_⟩, met, hmet, fun u hu => (hlex u hu).grows hgrows⟩
  · rw [← h.frames i hi]
    simp only [Tree.step, Store.enter, Array.getElem?_push]
    rw [if_neg (by omega)]
  · rw [List.cons_append, ← hchain]
    exact Store.ancestors_enter h.valid hx kind n
  · intro i hi
    rcases List.mem_cons.mp hi with rfl | hi
    · exact hle
    · exact hinner i hi

/-- Leaving the scope that was entered at `t`. -/
theorem leave (src : Source) (h : Inside start scope t) {kind : ScopeKind} {n : Node} {later : Tree}
    (hlater : Inside start scope later)
    (hgrows : (t.step src (.enter kind n)).store.Grows later.store)
    (hcurrent : later.store.current = some t.store.scopes.size) :
    Inside start scope (later.step src .leave) ∧
      (later.step src .leave).store.current = t.store.current := by
  obtain ⟨x, inner, hx, hchain, hinner⟩ := h.chain
  have hall : t.store.Grows later.store := (Store.Grows.enter t.store kind n).trans hgrows
  -- the scope entered at `t` still has its parent
  have hparent : later.store.parent? t.store.scopes.size = some x := by
    rw [hgrows.parent? (by simp [Tree.step, Store.enter])]
    simp [Tree.step, Store.enter, Store.parent?, hx]
  rw [Tree.step_leave src hcurrent]
  have hopen : (later.store.close t.store.scopes.size).current = some x := hparent
  refine ⟨⟨hlater.valid.close _, hlater.frames, ⟨x, inner, hopen, ?_, hinner⟩, hlater.uses⟩, ?_⟩
  · rw [← hchain, ← hall.ancestors (h.valid.current_lt hx)]
    exact Store.ancestors_congr fun i _ => rfl
  · rw [hx]
    exact hopen

/-! #### A whole part -/

/-- **The walk of a part stays inside of it.**  The induction is on the nesting of its events;
declarations at the outermost level need a scope of the part around them. -/
theorem run (src : Source) (hs : scope < start.store.scopes.size) {b : Bool} {es : List Event}
    (hes : Nested b es) (h : Inside start scope t)
    (hopen : b = true → ∀ x, t.store.current = some x → start.store.scopes.size ≤ x) :
    Inside start scope (es.foldl (Tree.step src) t) ∧
      (es.foldl (Tree.step src) t).store.current = t.store.current := by
  induction hes generalizing t with
  | nil => exact ⟨h, rfl⟩
  | @use b c a _ =>
    obtain ⟨x, -, hx, -⟩ := h.chain
    refine ⟨h.use src hs c a, ?_⟩
    rw [List.foldl_cons, List.foldl_nil, Tree.step_use src c a hx]
    exact (Tree.scopes_storeAfterUse src t x c a).2
  | @call b n =>
    obtain ⟨x, -, hx, -⟩ := h.chain
    refine ⟨h.call src n, ?_⟩
    rw [List.foldl_cons, List.foldl_nil, Tree.step_call src n hx]
  | @declare d =>
    obtain ⟨x, -, hx, -⟩ := h.chain
    refine ⟨h.declare src hx (hopen rfl x hx) d, ?_⟩
    rw [List.foldl_cons, List.foldl_nil, Tree.step_declare src d hx]
    rfl
  | append _ _ ihs iht =>
    rw [List.foldl_append]
    obtain ⟨hmid, hcur⟩ := ihs h hopen
    obtain ⟨hend, hcur'⟩ := iht hmid fun hb x hx => hopen hb x (hcur ▸ hx)
    exact ⟨hend, hcur'.trans hcur⟩
  | @scope b kind n es _ ih =>
    obtain ⟨hbody, hcur⟩ := ih (h.enter src kind n) fun _ x hx => by
      obtain rfl : t.store.scopes.size = x := Option.some.inj hx
      exact h.size_le
    rw [List.foldl_cons, List.foldl_append]
    exact h.leave src hbody (Tree.grows_foldl src _ es) hcur

end Inside

end HookLint.Scope
