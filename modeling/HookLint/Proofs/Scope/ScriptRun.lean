import HookLint.Proofs.Scope.Frame
import HookLint.Scope.Script
import Mathlib

/-!
# Proofs.Scope.ScriptRun — the representation of scopes over whole scripts

A script opens and closes scopes in any order, declares names in the open scope or in an older one,
and brackets parts of itself that may fail at any point.  Whatever it does, every store on its way
(`Store.trail`) is consistent:

* scopes and bindings are numbered by their positions, and a scope stands in an older one;
* the table of a scope shows, for each name, the last binding declared for it there (`Latest`);
* a name resolves to the entry of the nearest scope of the chain that has it (`Nearest`).

One operation keeps this (`Consistent.perform`), and the run carries it along (`consistent_trail`).
A bracket is different: it opens what was open before by looking at the scope that it entered, not
at the one that is open when it is left.  The parent of a scope never changes (`grows_run`), so that
is the scope that was open on entry, whatever the body opened or closed (`run_bracket`).
-/

namespace HookLint.Scope

open Syntax

/-- Whether an operation needs an open scope. -/
def Action.needsOpen : Action → Bool
  | .exit | .current | .declare _ none | .resolve _ none => true
  | _ => false

namespace Store

/-! ### Scripts -/

/-- Whether a declaration that names a scope names one that is there. -/
def namesScope (s : Store) : Action → Bool
  | .declare _ (some scope) => decide (scope < s.scopes.size)
  | _ => true

/-- Whether every declaration of a script that names a scope names one that is there by then. -/
def supports (s : Store) : List Action → Bool
  | [] => true
  | .fail :: _ => true
  | .bracket kind node body :: rest =>
    supports (s.enter kind node) body &&
      supports ((run (s.enter kind node) body).1.close s.scopes.size) rest
  | a :: rest => s.namesScope a && supports (s.perform a).1 rest

/-- The stores that a script passes through, inside of brackets too. -/
def trail (s : Store) : List Action → List Store
  | [] => [s]
  | .fail :: _ => [s]
  | .bracket kind node body :: rest =>
    s :: trail (s.enter kind node) body ++
      trail ((run (s.enter kind node) body).1.close s.scopes.size) rest
  | a :: rest => s :: trail (s.perform a).1 rest

/-- The end of a script is on its way. -/
theorem run_mem_trail (s : Store) (script : List Action) : (s.run script).1 ∈ s.trail script := by
  fun_induction run s script with
  | case1 s => simp [trail]
  | case2 s rest => simp [trail]
  | case3 s kind node body rest inner closed after _ ihrest =>
    rw [trail]
    exact List.mem_append_right _ ihrest
  | case4 s a rest hfail hbracket now after ih =>
    rw [trail]
    · exact List.mem_cons_of_mem _ ih
    · exact hfail
    · exact hbracket

/-! ### One operation -/

section Perform

variable {s : Store} {a : Action}

/-- Everything that an operation can do to a store. -/
theorem perform_cases (s : Store) (a : Action) :
    (∃ kind node, a = .enter kind node ∧ (s.perform a).1 = s.enter kind node) ∨
    (∃ x, a = .exit ∧ s.current = some x ∧ (s.perform a).1 = s.close x) ∨
    (∃ d scope i, a = .declare d scope ∧ (scope <|> s.current) = some i ∧
      (s.perform a).1 = s.declareIn d i) ∨
    (s.perform a).1 = s := by
  cases a with
  | enter kind node => exact Or.inl ⟨kind, node, rfl, rfl⟩
  | exit =>
    cases hx : s.current with
    | none => exact Or.inr (Or.inr (Or.inr (by simp [perform, Store.exit, hx])))
    | some x => exact Or.inr (Or.inl ⟨x, rfl, rfl, by simp [perform, Store.exit, hx]⟩)
  | current =>
    have hsame : (s.perform .current).1 = s := by
      unfold perform
      cases s.open? <;> rfl
    exact Or.inr (Or.inr (Or.inr hsame))
  | ancestors i => exact Or.inr (Or.inr (Or.inr rfl))
  | region i => exact Or.inr (Or.inr (Or.inr rfl))
  | declare d scope =>
    cases scope with
    | some i => exact Or.inr (Or.inr (Or.inl ⟨d, some i, i, rfl, rfl, rfl⟩))
    | none =>
      cases hx : s.current with
      | none =>
        refine Or.inr (Or.inr (Or.inr ?_))
        simp [perform, Store.declare, open?, hx, Except.map]
      | some x =>
        refine Or.inr (Or.inr (Or.inl ⟨d, none, x, rfl, rfl, ?_⟩))
        simp [perform, Store.declare, open?, hx, Except.map]
  | resolve name scope =>
    have hsame : (s.perform (.resolve name scope)).1 = s := by
      simp only [perform]
      cases s.resolve name scope <;> rfl
    exact Or.inr (Or.inr (Or.inr hsame))
  | fail => exact Or.inr (Or.inr (Or.inr rfl))
  | bracket kind node body => exact Or.inr (Or.inr (Or.inr rfl))

theorem grows_perform (s : Store) (a : Action) : s.Grows (s.perform a).1 := by
  rcases perform_cases s a with
    ⟨kind, node, -, heq⟩ | ⟨x, -, -, heq⟩ | ⟨d, scope, i, -, -, heq⟩ | heq
  · rw [heq]
    exact Grows.enter s kind node
  · rw [heq]
    exact Grows.close s x
  · rw [heq]
    exact Grows.declareIn s d i
  · rw [heq]
    exact Grows.refl s

/-- The answer to a declaration is no refusal. -/
theorem newest_declareIn (s : Store) (d : Declaration) (i : Nat) :
    ∃ reassigned, (s.declareIn d i).newest = .declared s.bindings.size i reassigned := by
  simp [newest, declareIn]

/-- **Refusals.**  An operation is refused if it needs an open scope and there is none; then it
changes nothing. -/
theorem perform_of_needsOpen (h : a.needsOpen = true) (hs : s.current = none) :
    s.perform a = (s, [.refused .noScope]) := by
  cases a with
  | exit => simp [perform, Store.exit, hs]
  | current => simp [perform, open?, hs]
  | declare d scope =>
    cases scope with
    | none => simp [perform, Store.declare, open?, hs, Except.map]
    | some i => cases h
  | resolve name scope =>
    cases scope with
    | none => simp [perform, Store.resolve, open?, hs, Except.map]
    | some i => cases h
  | enter kind node => cases h
  | ancestors i => cases h
  | region i => cases h
  | fail => cases h
  | bracket kind node body => cases h

/-- No other operation is refused. -/
theorem needsOpen_of_refused {e : StoreError} (h : .refused e ∈ (s.perform a).2) :
    a.needsOpen = true ∧ s.current = none := by
  cases a with
  | enter kind node => simp [perform] at h
  | exit =>
    cases hx : s.current with
    | none => exact ⟨rfl, rfl⟩
    | some x => simp [perform, Store.exit, hx] at h
  | current =>
    cases hx : s.current with
    | none => exact ⟨rfl, rfl⟩
    | some x => simp [perform, open?, hx] at h
  | ancestors i => simp [perform] at h
  | region i => simp [perform] at h
  | declare d scope =>
    cases scope with
    | some i =>
      obtain ⟨r, hr⟩ := newest_declareIn s d i
      simp [perform, Store.declare, hr] at h
    | none =>
      cases hx : s.current with
      | none => exact ⟨rfl, rfl⟩
      | some x =>
        obtain ⟨r, hr⟩ := newest_declareIn s d x
        simp [perform, Store.declare, open?, hx, Except.map, hr] at h
  | resolve name scope =>
    cases scope with
    | some i => simp [perform, Store.resolve] at h
    | none =>
      cases hx : s.current with
      | none => exact ⟨rfl, rfl⟩
      | some x => simp [perform, Store.resolve, open?, hx, Except.map] at h
  | fail => simp [perform] at h
  | bracket kind node body => simp [perform] at h

end Perform

/-! ### Brackets -/

/-- Scopes keep their parents over any script. -/
theorem grows_run (s : Store) (script : List Action) : s.Grows (s.run script).1 := by
  fun_induction run s script with
  | case1 s => exact Grows.refl s
  | case2 s rest => exact Grows.refl s
  | case3 s kind node body rest inner closed after ihbody ihrest =>
    have hclosed : inner.1.Grows closed := Grows.close inner.1 s.scopes.size
    exact (Grows.enter s kind node).trans (ihbody.trans (hclosed.trans ihrest))
  | case4 s a rest _ _ now after ih => exact (grows_perform s a).trans ih

/-- When a bracket is left, the scope that it entered still stands where it was entered. -/
theorem close_run_enter (s : Store) (kind : ScopeKind) (node : Node) (body : List Action) :
    ((s.enter kind node).run body).1.close s.scopes.size =
      { ((s.enter kind node).run body).1 with current := s.current } := by
  have hlt : s.scopes.size < (s.enter kind node).scopes.size := by simp [Store.enter]
  have hentered : (s.enter kind node).parent? s.scopes.size = s.current := by
    simp [parent?, Store.enter]
  have hparent := (grows_run (s.enter kind node) body).parent? hlt
  unfold close
  rw [hparent, hentered]

/-- **Leaving a bracket**, by its end or by a failure, opens what was open on entry; all else is as
the body left it. -/
theorem run_bracket (s : Store) (kind : ScopeKind) (node : Node) (body rest : List Action) :
    let inner := (s.enter kind node).run body
    let after := ({ inner.1 with current := s.current } : Store).run rest
    s.run (.bracket kind node body :: rest) =
      (after.1, .opened s.scopes.size :: inner.2 ++ .closed s.current :: after.2) := by
  intro inner after
  have hclose := close_run_enter s kind node body
  rw [run]
  simp only [hclose]
  rfl

/-! ### Consistent stores -/

/-- Binding `k` is the last one declared for a name in a scope. -/
structure Latest (s : Store) (name : String) (scope k : Nat) : Prop where
  declared : ∃ b, s.bindings[k]? = some b ∧ b.name = name ∧ b.scope = scope
  last : ∀ {j : Nat} {c : Binding}, s.bindings[j]? = some c → c.name = name → c.scope = scope → j ≤ k

/-- The table of a scope shows the last binding declared for each name. -/
structure Consistent (s : Store) : Prop extends Valid s where
  latest : ∀ (name : String) (i k : Nat), s.lookup name i = some k ↔ s.Latest name i k

section Consistent

variable {s : Store}

theorem consistent_empty : Consistent {} where
  toValid := valid_empty
  latest name i k := by
    constructor
    · intro h
      simp [lookup] at h
    · rintro ⟨⟨b, hb, -⟩, -⟩
      simp at hb

theorem Consistent.enter (h : s.Consistent) (kind : ScopeKind) (node : Node) :
    (s.enter kind node).Consistent := by
  refine ⟨h.toValid.enter kind node, fun name i k => ?_⟩
  -- the bindings are the same, and the table of the new scope is empty
  have hlatest : (s.enter kind node).Latest name i k ↔ s.Latest name i k :=
    ⟨fun hl => ⟨hl.declared, hl.last⟩, fun hl => ⟨hl.declared, hl.last⟩⟩
  have hlookup : (s.enter kind node).lookup name i = s.lookup name i := by
    by_cases hi : i = s.scopes.size
    · simp [lookup, Store.enter, hi]
    · simp only [lookup, Store.enter, Array.getElem?_push]
      rw [if_neg hi]
  rw [hlookup, hlatest]
  exact h.latest name i k

theorem Consistent.of_same {t : Store} (h : s.Consistent) (ht : t.Valid)
    (hscopes : t.scopes = s.scopes) (hbindings : t.bindings = s.bindings) : t.Consistent := by
  refine ⟨ht, fun name i k => ?_⟩
  have hlookup : t.lookup name i = s.lookup name i := by
    unfold lookup
    rw [hscopes]
  rw [hlookup, h.latest]
  refine ⟨fun hl => ⟨?_, ?_⟩, fun hl => ⟨?_, ?_⟩⟩
  · rw [hbindings]
    exact hl.declared
  · rw [hbindings]
    exact hl.last
  · rw [← hbindings]
    exact hl.declared
  · rw [← hbindings]
    exact hl.last

theorem Consistent.close (h : s.Consistent) (entered : Nat) : (s.close entered).Consistent :=
  h.of_same (h.toValid.close entered) rfl rfl

/-- The tables after a declaration. -/
theorem lookup_declareIn_eq (d : Declaration) {scope : Nat} (hscope : scope < s.scopes.size)
    (name : String) (i : Nat) : (s.declareIn d scope).lookup name i =
      if scope = i ∧ d.name = name then some s.bindings.size else s.lookup name i := by
  simp only [lookup, declareIn, Array.getElem?_modify]
  by_cases hi : scope = i
  · subst hi
    obtain ⟨f, hf⟩ := exists_getElem? hscope
    simp [hf, Assoc.get?_put]
  · simp [hi]

/-- The last bindings after a declaration. -/
theorem latest_declareIn_iff (d : Declaration) (scope : Nat) (name : String) (i k : Nat) :
    (s.declareIn d scope).Latest name i k ↔
      if scope = i ∧ d.name = name then s.bindings.size = k else s.Latest name i k := by
  have hold : ∀ {j : Nat}, j < s.bindings.size →
      (s.declareIn d scope).bindings[j]? = s.bindings[j]? := by
    intro j hj
    simp only [declareIn, Array.getElem?_push]
    rw [if_neg (by omega)]
  have hnew : ∃ b, (s.declareIn d scope).bindings[s.bindings.size]? = some b ∧
      b.name = d.name ∧ b.scope = scope := ⟨_, Array.getElem?_push_size, rfl, rfl⟩
  have hsize : ∀ {j : Nat} {c : Binding}, (s.declareIn d scope).bindings[j]? = some c →
      j ≤ s.bindings.size := by
    intro j c hc
    have hlt := lt_of_getElem? hc
    simp only [declareIn, Array.size_push] at hlt
    omega
  split
  · next hsame =>
    obtain ⟨rfl, rfl⟩ := hsame
    obtain ⟨b, hb, hname, hscope⟩ := hnew
    constructor
    · rintro ⟨⟨c, hc, -⟩, hlast⟩
      have h1 := hlast hb hname hscope
      have h2 := hsize hc
      omega
    · rintro rfl
      exact ⟨⟨b, hb, hname, hscope⟩, fun hc _ _ => hsize hc⟩
  · next hother =>
    -- the new binding is of another name or scope
    have hlt : ∀ {j : Nat} {c : Binding}, (s.declareIn d scope).bindings[j]? = some c →
        c.name = name → c.scope = i → j < s.bindings.size := by
      intro j c hc hname hscope
      by_contra hge
      have hle := hsize hc
      obtain rfl : j = s.bindings.size := by omega
      obtain ⟨b, hb, hbname, hbscope⟩ := hnew
      rw [hb] at hc
      obtain rfl := Option.some.inj hc
      exact hother ⟨hbscope.symm.trans hscope, hbname.symm.trans hname⟩
    constructor
    · rintro ⟨⟨b, hb, hname, hscope⟩, hlast⟩
      refine ⟨⟨b, ?_, hname, hscope⟩, fun {j c} hc hcname hcscope => ?_⟩
      · rw [← hold (hlt hb hname hscope)]
        exact hb
      · refine hlast ?_ hcname hcscope
        rw [hold (lt_of_getElem? hc)]
        exact hc
    · rintro ⟨⟨b, hb, hname, hscope⟩, hlast⟩
      refine ⟨⟨b, ?_, hname, hscope⟩, fun {j c} hc hcname hcscope => ?_⟩
      · rw [hold (lt_of_getElem? hb)]
        exact hb
      · refine hlast ?_ hcname hcscope
        rw [← hold (hlt hc hcname hcscope)]
        exact hc

theorem Consistent.declareIn (h : s.Consistent) (d : Declaration) {scope : Nat}
    (hscope : scope < s.scopes.size) : (s.declareIn d scope).Consistent := by
  refine ⟨h.toValid.declareIn d hscope, fun name i k => ?_⟩
  rw [lookup_declareIn_eq d hscope, latest_declareIn_iff]
  split
  · exact Option.some_inj
  · exact h.latest name i k

/-- One operation keeps a store consistent. -/
theorem Consistent.perform (h : s.Consistent) {a : Action} (ha : s.namesScope a = true) :
    (s.perform a).1.Consistent := by
  rcases perform_cases s a with
    ⟨kind, node, -, heq⟩ | ⟨x, -, -, heq⟩ | ⟨d, scope, i, rfl, hi, heq⟩ | heq
  · rw [heq]
    exact h.enter kind node
  · rw [heq]
    exact h.close x
  · rw [heq]
    refine h.declareIn d ?_
    cases scope with
    | none => exact h.current_lt hi
    | some j =>
      obtain rfl : j = i := Option.some.inj hi
      exact of_decide_eq_true ha
  · rw [heq]
    exact h

/-- **A script keeps every store on its way consistent**, its end included. -/
theorem consistent_trail (h : s.Consistent) {script : List Action}
    (hs : s.supports script = true) :
    (s.run script).1.Consistent ∧ ∀ t ∈ s.trail script, t.Consistent := by
  fun_induction run s script with
  | case1 s => simpa [trail] using h
  | case2 s rest => simpa [trail] using h
  | case3 s kind node body rest inner closed after ihbody ihrest =>
    rw [supports, Bool.and_eq_true] at hs
    obtain ⟨hinner, hbody⟩ := ihbody (h.enter kind node) hs.1
    obtain ⟨hend, hafter⟩ := ihrest (hinner.close s.scopes.size) hs.2
    refine ⟨hend, fun t ht => ?_⟩
    rw [trail, List.cons_append, List.mem_cons, List.mem_append] at ht
    rcases ht with rfl | ht | ht
    · exact h
    · exact hbody t ht
    · exact hafter t ht
  | case4 s a rest hfail hbracket now after ih =>
    rw [supports] at hs
    · rw [Bool.and_eq_true] at hs
      obtain ⟨hend, hafter⟩ := ih (h.perform hs.1) hs.2
      refine ⟨hend, fun t ht => ?_⟩
      rw [trail] at ht
      · rcases List.mem_cons.mp ht with rfl | ht
        · exact h
        · exact hafter t ht
      · exact hfail
      · exact hbracket
    · exact hfail
    · exact hbracket

end Consistent

/-! ### Chains and names -/

section Names

variable {s : Store}

/-- The chain of a scope goes on with that of its parent. -/
theorem Valid.ancestors_eq (h : s.Valid) (i : Nat) :
    s.ancestors i = i :: (s.parent? i).elim [] s.ancestors := by
  rw [ancestors]
  cases hp : s.parent? i with
  | none => rfl
  | some q =>
    obtain ⟨f, hf, hq⟩ := Option.bind_eq_some_iff.mp hp
    have hlt : q < i := h.parent_lt hf hq
    simp [hlt]

/-- Binding `k` is the entry of the first scope of the chain of `scope` that has the name. -/
def Nearest (s : Store) (name : String) (scope k : Nat) : Prop :=
  ∃ inner j outer, s.ancestors scope = inner ++ j :: outer ∧
    (∀ i ∈ inner, s.lookup name i = none) ∧ s.lookup name j = some k

theorem resolveFrom_eq_some_iff {name : String} {scope k : Nat} :
    s.resolveFrom name scope = some k ↔ s.Nearest name scope k := by
  unfold Nearest
  rw [resolveFrom_eq_findSome?, List.findSome?_eq_some_iff]
  constructor
  · rintro ⟨inner, j, outer, hchain, hj, hinner⟩
    exact ⟨inner, j, outer, hchain, hinner, hj⟩
  · rintro ⟨inner, j, outer, hchain, hinner, hj⟩
    exact ⟨inner, j, outer, hchain, hj, hinner⟩

/-- A name resolves from the scope that is given, or else from the open one. -/
theorem resolve_eq {name : String} {scope : Option Nat} {i : Nat}
    (h : (scope <|> s.current) = some i) : s.resolve name scope = .ok (s.resolveFrom name i) := by
  cases scope with
  | some j =>
    obtain rfl : j = i := Option.some.inj h
    rfl
  | none =>
    have hc : s.current = some i := h
    simp [Store.resolve, open?, hc, Except.map]

/-- **The representation of scopes holds over every script.**  On the way of a script from the empty
store, its end included, every store is consistent, the chain of a scope runs from parent to parent,
and a name resolves to the entry of the first scope of the chain that has it.  Leaving a bracket, by
its end or by a failure, opens what was open on entry.  An operation is refused exactly if it needs
an open scope and there is none, and then it changes nothing. -/
theorem scripts_keep_representation (script : List Action)
    (hscript : ({} : Store).supports script = true) :
    (({} : Store).run script).1 ∈ ({} : Store).trail script ∧
    ∀ t ∈ ({} : Store).trail script,
      t.Consistent ∧
      (∀ i, t.ancestors i = i :: (t.parent? i).elim [] t.ancestors) ∧
      (∀ name scope i, (scope <|> t.current) = some i →
        ∃ found, t.resolve name scope = .ok found ∧ ∀ k, found = some k ↔ t.Nearest name i k) ∧
      (∀ kind node body rest,
        let inner := (t.enter kind node).run body
        let after := ({ inner.1 with current := t.current } : Store).run rest
        t.run (.bracket kind node body :: rest) =
          (after.1, .opened t.scopes.size :: inner.2 ++ .closed t.current :: after.2)) ∧
      (∀ a, (∃ e, .refused e ∈ (t.perform a).2) ↔ a.needsOpen = true ∧ t.current = none) ∧
      (∀ a e, .refused e ∈ (t.perform a).2 → t.perform a = (t, [.refused .noScope])) := by
  refine ⟨run_mem_trail _ script, fun t ht => ?_⟩
  have hcons : t.Consistent := (consistent_trail consistent_empty hscript).2 t ht
  refine ⟨hcons, hcons.toValid.ancestors_eq, fun name scope i hi => ?_, run_bracket t, fun a => ?_,
    fun a e he => ?_⟩
  · exact ⟨_, resolve_eq hi, fun k => resolveFrom_eq_some_iff⟩
  · constructor
    · rintro ⟨e, he⟩
      exact needsOpen_of_refused he
    · rintro ⟨hneeds, hnone⟩
      refine ⟨.noScope, ?_⟩
      rw [perform_of_needsOpen hneeds hnone]
      exact List.mem_singleton.mpr rfl
  · obtain ⟨hneeds, hnone⟩ := needsOpen_of_refused he
    exact perform_of_needsOpen hneeds hnone

/-- A variable with an initializer, declared by a script. -/
def scriptVariable (name : String) : Declaration :=
  { name, kind := .value, node := default, init := some default }

/-- A script that is out of balance everywhere: a body closes more than it opens, goes on without an
open scope, declares in the outer scope and fails; later a scope is opened and never closed. -/
def tangledScript : List Action :=
  [.declare (scriptVariable "x") none,
    .bracket .module default [
      .declare (scriptVariable "x") none,
      .bracket .function default [
        .exit, .exit,
        .declare (scriptVariable "y") none,
        .declare (scriptVariable "x") (some 0),
        .fail, .exit],
      .enter .block default,
      .declare (scriptVariable "x") none],
    .exit]

/-- At the end nothing is open, the outer scope has its second binding of the name, and that is what
the name means in the function. -/
theorem scripts_keep_representation_tangled :
    ({} : Store).supports tangledScript = true ∧
    let t := (({} : Store).run tangledScript).1
    t.Consistent ∧ t.current = none ∧ t.bindings.size = 3 ∧ t.Latest "x" 0 1 ∧
      t.Nearest "x" 1 1 := by
  have hscript : ({} : Store).supports tangledScript = true := by cbv
  obtain ⟨hend, htrail⟩ := scripts_keep_representation tangledScript hscript
  obtain ⟨hcons, -, hresolve, -⟩ := htrail _ hend
  refine ⟨hscript, hcons, by cbv, by cbv, ?_, ?_⟩
  · exact (hcons.latest "x" 0 1).mp (by cbv)
  · obtain ⟨found, hfound, hnearest⟩ := hresolve "x" (some 1) 1 rfl
    have hone : found = some 1 := by
      have hvalue : (({} : Store).run tangledScript).1.resolve "x" (some 1) = .ok (some 1) := by
        rw [resolve_eq rfl]
        exact congrArg Except.ok (by cbv)
      rw [hfound] at hvalue
      exact Except.ok.inj hvalue
    exact (hnearest 1).mp hone

end Names

end Store

end HookLint.Scope
