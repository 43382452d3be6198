import HookLint.Proofs.Scope.Frame
import HookLint.Proofs.Scope.Places
import Mathlib.Data.List.Nodup

/-!
# Proofs.Scope.CallSpan — where the events of a call stand in the walk

When the walk meets a call, the events of its children come next, and all names used before the call
or after its children lie outside of it (`callSpan_moduleEvents`).  So the uses inside of a call are
those met between its event and the end of its children.

Each call that a tree records was met in its scope (`exists_split_of_mem_calls`).
-/

namespace HookLint.Scope

open Syntax Syntax.Node

/-! ### One event among those of many parts -/

theorem exists_of_flatMap_eq_append_cons {α β : Type} {f : α → List β} {l : List α}
    {before after : List β} {x : β} (h : l.flatMap f = before ++ x :: after) :
    ∃ l₁ a l₂ p q, l = l₁ ++ a :: l₂ ∧ f a = p ++ x :: q ∧ before = l₁.flatMap f ++ p ∧
      after = q ++ l₂.flatMap f := by
  induction l generalizing before with
  | nil => simp at h
  | cons a l ih =>
    rw [List.flatMap_cons] at h
    rcases List.append_eq_append_iff.mp h with ⟨m, hm, hrest⟩ | ⟨m, hm, hrest⟩
    · obtain ⟨l₁, a', l₂, p, q, hl, ha, hb, hq⟩ := ih hrest
      refine ⟨a :: l₁, a', l₂, p, q, by rw [hl]; rfl, ha, ?_, hq⟩
      rw [hm, hb, List.flatMap_cons, List.append_assoc]
    · cases m with
      | nil =>
        -- the event is the first one of the rest
        have hfirst : l.flatMap f = [] ++ x :: after := hrest.symm
        obtain ⟨l₁, a', l₂, p, q, hl, ha, hb, hq⟩ := ih hfirst
        refine ⟨a :: l₁, a', l₂, p, q, by rw [hl]; rfl, ha, ?_, hq⟩
        rw [List.flatMap_cons, List.append_assoc, ← hb, hm, List.append_nil, List.append_nil]
      | cons y m =>
        obtain ⟨rfl, hafter⟩ := List.cons.inj hrest
        exact ⟨[], a, l, before, m, rfl, hm, rfl, hafter⟩

/-! ### The span of a call -/

/-- After the call `n`, the events of its children come, and the names used around them are apart
from it. -/
structure CallSpan (src : Source) (outer n : Node) (before after : List Event) : Prop where
  inside : outer.contains n = true
  wellFormed : n.WellFormed
  split : ∃ (c : Cursor) (rest : List Event), c.node = n ∧
    after = unfoldSteps src (visits c.children) ++ rest ∧
    ∀ m ∈ useNodes before ++ useNodes rest, Apart m n

section Span

variable {src : Source} {outer n : Node} {steps : List Step} {before after : List Event}

/-- A name used in steps lies in one of their places. -/
theorem exists_place_of_mem_useNodes (hwf : ∀ n ∈ places steps, n.WellFormed) {m : Node}
    (hm : m ∈ useNodes (unfoldSteps src steps)) : ∃ n ∈ places steps, n.contains m = true := by
  rw [useNodes_unfoldSteps] at hm
  obtain ⟨s, hs, hm⟩ := List.mem_flatMap.mp hm
  cases s with
  | visit d =>
    have hd : d.node ∈ places steps := List.mem_filterMap.mpr ⟨_, hs, rfl⟩
    exact ⟨d.node, hd, (tiles_events src (hwf _ hd)).inside m hm⟩
  | emit e =>
    simp only [useNodes_singleton, Option.mem_toList] at hm
    exact ⟨m, List.mem_filterMap.mpr ⟨_, hs, hm⟩, contains_self m⟩

/-- A call met in steps is met in one of the parts that they visit. -/
theorem callSpan_unfoldSteps (ht : Tiles outer (places steps))
    (hno : ∀ n, Step.emit (.call n) ∉ steps)
    (hv : ∀ d, .visit d ∈ steps → d.node.WellFormed → ∀ p q,
      events src d = p ++ .call n :: q → CallSpan src d.node n p q)
    (he : unfoldSteps src steps = before ++ .call n :: after) :
    CallSpan src outer n before after := by
  obtain ⟨l₁, s, l₂, p, q, hl, hs, hbefore, hafter⟩ := exists_of_flatMap_eq_append_cons he
  have hmem : s ∈ steps := by simp [hl]
  cases s with
  | emit e =>
    -- the steps themselves call nothing
    obtain rfl : e = .call n := by
      have hone : [e] = p ++ .call n :: q := hs
      have hmem : .call n ∈ [e] := by
        rw [hone]
        simp
      exact (List.mem_singleton.mp hmem).symm
    exact absurd hmem (hno n)
  | visit d =>
    have hd : d.node ∈ places steps := List.mem_filterMap.mpr ⟨_, hmem, rfl⟩
    obtain ⟨hin, hwf, c, rest, hc, hq, hapart⟩ := hv d hmem (ht.wellFormed _ hd) p q hs
    -- the other places are apart from the part that holds the call
    have hpair := ht.apart
    rw [hl, places_append, places_visit, List.pairwise_append, List.pairwise_cons] at hpair
    obtain ⟨-, ⟨hright, -⟩, hleft⟩ := hpair
    have hwf₁ : ∀ m ∈ places l₁, m.WellFormed := fun m hm => ht.wellFormed m (by
      rw [hl, places_append]
      exact List.mem_append_left _ hm)
    have hwf₂ : ∀ m ∈ places l₂, m.WellFormed := fun m hm => ht.wellFormed m (by
      rw [hl, places_append, places_visit]
      exact List.mem_append_right _ (List.mem_cons_of_mem _ hm))
    refine ⟨contains_trans (ht.inside _ hd) hin, hwf, c, rest ++ unfoldSteps src l₂, hc, ?_, ?_⟩
    · rw [hafter, hq, List.append_assoc]
      rfl
    · intro m hm
      rw [hbefore, useNodes_append, useNodes_append] at hm
      simp only [List.mem_append] at hm hapart
      rcases hm with (hm | hm) | hm | hm
      · obtain ⟨w, hw, hwm⟩ := exists_place_of_mem_useNodes hwf₁ hm
        exact (hleft w hw d.node (by simp)).mono hwm hin
      · exact hapart m (Or.inl hm)
      · exact hapart m (Or.inr hm)
      · obtain ⟨w, hw, hwm⟩ := exists_place_of_mem_useNodes hwf₂ hm
        exact (Std.Symm.symm _ _ (hright w hw)).mono hwm hin

theorem callSpan_events (src : Source) {c : Cursor} (h : c.node.WellFormed)
    {before after : List Event} (he : events src c = before ++ .call n :: after) :
    CallSpan src c.node n before after := by
  have hv : ∀ d, .visit d ∈ plan src c → d.node.WellFormed → ∀ p q,
      events src d = p ++ .call n :: q → CallSpan src d.node n p q := by
    intro d hd hwf p q hpq
    have hsize := plan_below d hd
    exact callSpan_events src hwf hpq
  have ht := tiles_plan src h
  rw [events_eq] at he
  rcases plan_eq_call_or_shaped src c with ⟨-, hcall⟩ | hshaped
  · rw [hcall] at he hv ht
    rw [places_call] at ht
    cases before with
    | nil =>
      -- this very call
      obtain ⟨hn, hafter⟩ := List.cons.inj he
      obtain rfl : c.node = n := Event.call.inj hn
      refine ⟨contains_self _, h, c, [], rfl, ?_, by simp [useNodes]⟩
      rw [← hafter, List.append_nil]
      rfl
    | cons e before =>
      obtain ⟨rfl, hrest⟩ := List.cons.inj he
      obtain ⟨hin, hwf, d, rest, hd, hq, hapart⟩ :=
        callSpan_unfoldSteps ht (Shaped.visits (b := false)).not_call
          (fun d hd => hv d (List.mem_cons_of_mem _ hd)) hrest
      exact ⟨hin, hwf, d, rest, hd, hq, hapart⟩
  · exact callSpan_unfoldSteps ht hshaped.not_call hv he
termination_by sizeOf c.node

/-- **The span of a call.**  In a well-formed program, the names used before a call or after its
children are apart from the call. -/
theorem callSpan_moduleEvents (src : Source) {root : Node} (h : root.WellFormed)
    (he : moduleEvents src root = before ++ .call n :: after) :
    CallSpan src root n before after :=
  callSpan_unfoldSteps (tiles_modulePlan src h) (shaped_modulePlan src root).not_call
    (fun _ _ hd _ _ => callSpan_events src hd) he

end Span

/-! ### What a run records -/

namespace Tree

variable {src : Source} {t : Tree} {es : List Event}

theorem uses_step_cases (src : Source) (t : Tree) (e : Event) : (t.step src e).uses = t.uses ∨
    ∃ c a x, e = .use c a ∧ t.store.current = some x ∧
      (t.step src e).uses = t.uses.push (t.useIn src x c a) := by
  rcases step_cases src t e with ⟨kind, n, -, heq⟩ | heq | ⟨x, hx, hcase⟩
  · exact Or.inl (by rw [heq])
  · exact Or.inl (by rw [heq])
  · rcases hcase with ⟨-, heq⟩ | ⟨d, -, heq⟩ | ⟨c, a, he, heq⟩ | ⟨n, -, heq⟩
    · exact Or.inl (by rw [heq])
    · exact Or.inl (by rw [heq])
    · exact Or.inr ⟨c, a, x, he, hx, by rw [heq]⟩
    · exact Or.inl (by rw [heq])

theorem calls_step_cases (src : Source) (t : Tree) (e : Event) : (t.step src e).calls = t.calls ∨
    ∃ n x, e = .call n ∧ t.store.current = some x ∧
      (t.step src e).calls = t.calls.push ⟨n, x⟩ := by
  rcases step_cases src t e with ⟨kind, n, -, heq⟩ | heq | ⟨x, hx, hcase⟩
  · exact Or.inl (by rw [heq])
  · exact Or.inl (by rw [heq])
  · rcases hcase with ⟨-, heq⟩ | ⟨d, -, heq⟩ | ⟨c, a, -, heq⟩ | ⟨n, he, heq⟩
    · exact Or.inl (by rw [heq])
    · exact Or.inl (by rw [heq])
    · exact Or.inl (by rw [heq])
    · exact Or.inr ⟨n, x, he, hx, by rw [heq]⟩

/-- What each step adds to a record, a run adds in the order of its events. -/
theorem appended_foldl {α : Type} (record : Tree → List α) {f : α → Node}
    {nodes : List Event → List Node} (hnodes : ∀ es fs, nodes (es ++ fs) = nodes es ++ nodes fs)
    (hstep : ∀ t e, ∃ met, record (t.step src e) = record t ++ met ∧
      (met.map f).Sublist (nodes [e])) (t : Tree) (es : List Event) :
    ∃ met, record (es.foldl (step src) t) = record t ++ met ∧ (met.map f).Sublist (nodes es) := by
  induction es generalizing t with
  | nil => exact ⟨[], by simp, List.nil_sublist _⟩
  | cons e es ih =>
    obtain ⟨met₁, h₁, hn₁⟩ := hstep t e
    obtain ⟨met₂, h₂, hn₂⟩ := ih (t.step src e)
    refine ⟨met₁ ++ met₂, ?_, ?_⟩
    · rw [List.foldl_cons, h₂, h₁, List.append_assoc]
    · rw [← List.singleton_append, hnodes, List.map_append]
      exact hn₁.append hn₂

theorem uses_step (src : Source) (t : Tree) (e : Event) :
    ∃ met, (t.step src e).uses.toList = t.uses.toList ++ met ∧
      (met.map Use.node).Sublist (useNodes [e]) := by
  rcases uses_step_cases src t e with heq | ⟨c, a, x, rfl, -, heq⟩
  · exact ⟨[], by rw [heq, List.append_nil], List.nil_sublist _⟩
  · rw [heq]
    exact ⟨[t.useIn src x c a], Array.toList_push, List.Sublist.refl _⟩

/-- The uses that a run adds are of names that its events use, in their order and each once. -/
theorem uses_foldl (src : Source) (t : Tree) (es : List Event) :
    ∃ met, (es.foldl (step src) t).uses.toList = t.uses.toList ++ met ∧
      (met.map Use.node).Sublist (useNodes es) :=
  appended_foldl (fun t => t.uses.toList) (fun _ _ => useNodes_append) (uses_step src) t es

theorem mem_calls_step {e : Event} {call : CallSite} (h : call ∈ (t.step src e).calls) :
    call ∈ t.calls ∨ e = .call call.node ∧ t.store.current = some call.scope := by
  rcases calls_step_cases src t e with heq | ⟨n, x, rfl, hx, heq⟩
  · rw [heq] at h
    exact Or.inl h
  · rw [heq] at h
    rcases Array.mem_push.mp h with h | rfl
    · exact Or.inl h
    · exact Or.inr ⟨rfl, hx⟩

/-- A recorded call was met by the run, in the scope that it is recorded with. -/
theorem exists_split_of_mem_calls {call : CallSite} (h : call ∈ (es.foldl (step src) t).calls) :
    call ∈ t.calls ∨ ∃ before after, es = before ++ .call call.node :: after ∧
      (before.foldl (step src) t).store.current = some call.scope := by
  induction es generalizing t with
  | nil => exact Or.inl h
  | cons e es ih =>
    rcases ih h with h | ⟨before, after, rfl, hcur⟩
    · rcases mem_calls_step h with h | ⟨rfl, hcur⟩
      · exact Or.inl h
      · exact Or.inr ⟨[], es, rfl, hcur⟩
    · exact Or.inr ⟨e :: before, after, rfl, hcur⟩

end Tree

/-! ### Names inside of a call -/

section Names

variable {src : Source} {root n : Node} {before after : List Event} {scope : Nat}

/-- The names that a well-formed program uses are not empty. -/
theorem start_lt_stop_of_mem_useNodes (src : Source) (h : root.WellFormed) {m : Node}
    (hm : m ∈ useNodes (moduleEvents src root)) : m.start < m.stop := by
  have ht := tiles_moduleEvents src h
  obtain ⟨e, he, hu⟩ := List.mem_filterMap.mp hm
  cases e with
  | use c a =>
    obtain rfl : c.node = m := Option.some.inj hu
    exact (ht.wellFormed _ hm).name_pos ((nested_moduleEvents src root).isName_of_use he)
  | enter kind node => cases hu
  | leave => cases hu
  | declare d => cases hu
  | call m => cases hu

/-- The recorded uses are of names in different places. -/
theorem nodup_keys_uses (src : Source) (h : root.WellFormed) :
    ((Tree.ofProgram src root).uses.toList.map fun u => u.node.key).Nodup := by
  obtain ⟨met, heq, hnodes⟩ := Tree.uses_foldl src {} (moduleEvents src root)
  have huses : (Tree.ofProgram src root).uses.toList = met := heq
  have hapart := (tiles_moduleEvents src h).apart.sublist hnodes
  rw [List.pairwise_map] at hapart
  rw [huses]
  refine List.pairwise_map.mpr (hapart.imp_of_mem fun {u v} hu _ huv hkey => ?_)
  have hpos := start_lt_stop_of_mem_useNodes src h (hnodes.subset (List.mem_map_of_mem hu))
  have hstart : u.node.start = v.node.start := congrArg Key.start hkey
  have hstop : u.node.stop = v.node.stop := congrArg Key.stop hkey
  unfold Apart at huv
  omega

/-- Each recorded use is found under its name. -/
theorem useAt?_of_mem (h : root.WellFormed) {u : Use}
    (hu : u ∈ (Tree.ofProgram src root).uses.toList) :
    (Tree.ofProgram src root).useAt? u.node = some u := by
  have hsome : ((Tree.ofProgram src root).useAt? u.node).isSome = true := by
    unfold Tree.useAt?
    rw [List.find?_isSome]
    exact ⟨u, List.mem_reverse.mpr hu, by simp⟩
  obtain ⟨v, hv⟩ := Option.isSome_iff_exists.mp hsome
  have hmem : v ∈ (Tree.ofProgram src root).uses.toList :=
    List.mem_reverse.mp (List.mem_of_find?_eq_some hv)
  have hkey : v.node.key = u.node.key := by simpa using List.find?_some hv
  rw [hv, List.inj_on_of_nodup_map (nodup_keys_uses src h) hmem hu hkey]

/-- **Names inside of a call mean what they mean where it stands**, unless they are declared inside:
the binding of a use in the range of a call that is met in `scope` is found there already, if it
belongs to a scope that was there already. -/
theorem lexical_of_contains (h : root.WellFormed)
    (he : moduleEvents src root = before ++ .call n :: after)
    (hcur : (before.foldl (Tree.step src) {}).store.current = some scope) {u : Use}
    (hu : u ∈ (Tree.ofProgram src root).uses.toList) (hin : n.contains u.node = true) :
    Lexical (before.foldl (Tree.step src) {}).store scope (Tree.ofProgram src root).store u := by
  obtain ⟨-, -, c, rest, -, rfl, hapart⟩ := callSpan_moduleEvents src h he
  have hnames : ∀ m ∈ useNodes before ++ useNodes rest, n.contains m = false := by
    intro m hm
    refine (hapart m hm).not_contains (start_lt_stop_of_mem_useNodes src h ?_)
    rw [he, useNodes_append, ← List.singleton_append, useNodes_append, useNodes_append]
    rcases List.mem_append.mp hm with hm | hm
    · exact List.mem_append_left _ hm
    · exact List.mem_append_right _ (List.mem_append_right _ (List.mem_append_right _ hm))
  -- the run, cut where the call is met and where its children end
  let start := before.foldl (Tree.step src) {}
  let met := start.step src (.call n)
  let children := unfoldSteps src (visits c.children)
  have hrun : Tree.ofProgram src root =
      rest.foldl (Tree.step src) (children.foldl (Tree.step src) met) := by
    unfold Tree.ofProgram
    rw [he, List.foldl_append, List.foldl_cons, List.foldl_append]
  have hvalid : start.store.Valid := Tree.valid_foldl Store.valid_empty before
  have hmet : met = { start with calls := start.calls.push ⟨n, scope⟩ } :=
    Tree.step_call src n hcur
  have hstore : met.store = start.store := by rw [hmet]
  have huses : met.uses = start.uses := by rw [hmet]
  rw [← hstore] at hvalid
  have hopen : met.store.current = some scope := by
    rw [hstore]
    exact hcur
  have hscope : scope < met.store.scopes.size := hvalid.current_lt hopen
  have hinside : Inside met scope (children.foldl (Tree.step src) met) :=
    ((Inside.begins hvalid hopen).run src hscope (nested_visits src c.children) (by simp)).1
  obtain ⟨uses₁, h₁, hlex⟩ := hinside.uses
  obtain ⟨uses₀, h₀, hn₀⟩ := Tree.uses_foldl src {} before
  obtain ⟨uses₂, h₂, hn₂⟩ := Tree.uses_foldl src (children.foldl (Tree.step src) met) rest
  rw [hrun, h₂, h₁, huses, h₀] at hu
  have hgrows := Tree.grows_foldl src (children.foldl (Tree.step src) met) rest
  rw [hrun]
  show Lexical start.store scope _ u
  rw [← hstore]
  simp only [List.mem_append] at hu hnames
  rcases hu with ((hu | hu) | hu) | hu
  · simp at hu
  · rw [hnames _ (Or.inl (hn₀.subset (List.mem_map_of_mem hu)))] at hin
    cases hin
  · exact (hlex u hu).grows hgrows
  · rw [hnames _ (Or.inr (hn₂.subset (List.mem_map_of_mem hu)))] at hin
    cases hin

end Names

end HookLint.Scope
