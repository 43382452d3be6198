import HookLint.Proofs.Scope.CallSpan
import HookLint.Proofs.Scope.Region

/-!
# Proofs.Scope.Resolution — a name means what the finished tables say

Names resolve while the tables are still being filled.  Nevertheless a use outside of parameters
gets the binding that the finished tables give its name (`recorded_resolution_final`).

The reason lies in the events.  After such a use, what follows is a list of whole parts, with the
ends of the scopes around the use in between: nothing is declared in a scope that is open at the use
(`calm_moduleEvents`).  Events of that form leave all older scopes as they are
(`scopes_trailing`), so the tables around the use have come to their final state.
-/

namespace HookLint.Scope

open Syntax

/-! ### What follows a use -/

/-- Whole parts, and the ends of scopes between them. -/
inductive Trailing : List Event → Prop where
  | nil : Trailing []
  | part {es fs : List Event} : Nested false es → Trailing fs → Trailing (es ++ fs)
  | leave {fs : List Event} : Trailing fs → Trailing (.leave :: fs)

theorem Nested.trailing {es : List Event} (h : Nested false es) : Trailing es := by
  have hes := Trailing.part h Trailing.nil
  rwa [List.append_nil] at hes

theorem Trailing.append {es fs : List Event} (hes : Trailing es) (hfs : Trailing fs) :
    Trailing (es ++ fs) := by
  induction hes with
  | nil => exact hfs
  | part h _ ih =>
    rw [List.append_assoc]
    exact Trailing.part h ih
  | leave _ ih => exact Trailing.leave ih

/-- After every use outside of parameters, whole parts and ends of scopes follow. -/
def Calm (es : List Event) : Prop :=
  ∀ before after c a, es = before ++ .use c a :: after → inParameters c = false → Trailing after

/-- Only names in parameters are used. -/
def Silent (es : List Event) : Prop := ∀ c a, .use c a ∈ es → inParameters c = true

section Calm

variable {src : Source} {es fs : List Event} {s : List Step}

theorem Calm.append (hes : Calm es) (hfs : Calm fs) (htrail : Trailing fs) : Calm (es ++ fs) := by
  intro before after c a he hc
  rcases append_cons_cases he with ⟨m, hm, rfl⟩ | ⟨m, -, hm⟩
  · exact (hes before m c a hm hc).append htrail
  · exact hfs m after c a hm hc

theorem Silent.append (hes : Silent es) (hfs : Calm fs) : Calm (es ++ fs) := by
  intro before after c a he hc
  rcases append_cons_cases he with ⟨m, hm, -⟩ | ⟨m, -, hm⟩
  · have hmem : .use c a ∈ es := by simp [hm]
    rw [hes c a hmem] at hc
    cases hc
  · exact hfs m after c a hm hc

theorem calm_nil : Calm [] := by
  intro before after c a he
  simp at he

theorem calm_singleton (e : Event) : Calm [e] := by
  intro before after c a he _
  cases before with
  | nil =>
    obtain ⟨-, rfl⟩ := List.cons.inj he
    exact Trailing.nil
  | cons f before => simp at he

/-- Flat steps are calm, if the parts that they visit are. -/
theorem calm_flat (h : Flat s) (hv : ∀ d, .visit d ∈ s → Calm (events src d)) :
    Calm (unfoldSteps src s) := by
  induction s with
  | nil => exact calm_nil
  | cons x s ih =>
    have hflat : Flat s := fun y hy => h y (List.mem_cons_of_mem _ hy)
    have hrest := ih hflat fun d hd => hv d (List.mem_cons_of_mem _ hd)
    cases x with
    | visit d => exact (hv d List.mem_cons_self).append hrest (hflat.nested src).trailing
    | emit e => exact (calm_singleton e).append hrest (hflat.nested src).trailing

/-- Between declarations, only names in parameters are used. -/
theorem silent_declares (src : Source) (h : Declares (inParameters · = true) s) :
    Silent (unfoldSteps src s) := by
  intro c a hu
  rcases exists_step_of_mem_unfoldSteps hu with hu | ⟨d, hd, hu⟩
  · rcases h _ hu with ⟨d, hd⟩ | ⟨d, hd, -⟩
    · cases hd
    · cases hd
  · rcases h _ hd with ⟨e, he⟩ | ⟨e, he, hin⟩
    · cases he
    · obtain rfl := Step.visit.inj he
      exact inParameters_of_leads (leads_of_use_mem_events hu) hin

theorem unfoldSteps_bracket (src : Source) (kind : ScopeKind) (n : Node) (s : List Step) :
    unfoldSteps src (bracket kind n s) = .enter kind n :: (unfoldSteps src s ++ [.leave]) := by
  simp [unfoldSteps, bracket]

/-- A region is calm, if the parts that it visits are.  The declarations come first, and what they
visit is in parameters; the rest is followed by the end of the scope. -/
theorem calm_region {kind : ScopeKind} {n : Node} {before heads rest : List Step}
    (h : Region before heads rest)
    (hv : ∀ d, .visit d ∈ before ++ bracket kind n (heads ++ rest) → Calm (events src d)) :
    Calm (unfoldSteps src (before ++ bracket kind n (heads ++ rest))) := by
  have hrest : Calm (unfoldSteps src rest ++ [.leave]) :=
    (calm_flat h.rest fun d hd => hv d (by simp [bracket, hd])).append (calm_singleton .leave)
      (Trailing.leave Trailing.nil)
  have hheads : Calm (unfoldSteps src heads ++ (unfoldSteps src rest ++ [.leave])) :=
    (silent_declares src h.heads).append hrest
  have henter : Silent [.enter kind n] := by simp [Silent]
  have hbody : Nested true (unfoldSteps src (heads ++ rest)) :=
    (h.heads.inner.append h.rest.inner).nested src
  rw [unfoldSteps_append, unfoldSteps_bracket]
  refine (calm_flat h.before fun d hd => hv d (List.mem_append_left _ hd)).append ?_
    (Nested.scope hbody).trailing
  rw [unfoldSteps_append, List.append_assoc]
  exact henter.append hheads

theorem calm_events (src : Source) {c : Cursor} (houter : c.ancestors ≠ []) :
    Calm (events src c) := by
  have hv : ∀ d, .visit d ∈ plan src c → Calm (events src d) := by
    intro d hd
    have hsize := plan_below d hd
    exact calm_events src ((spreads_plan src c _ hd d rfl).ancestors_ne_nil houter)
  rw [events_eq]
  rcases plan_flat_or_region src houter with hflat | ⟨kind, before, heads, rest, hregion, -, heq⟩
  · exact calm_flat hflat hv
  · rw [heq] at hv ⊢
    exact calm_region hregion hv
termination_by sizeOf c.node

/-- **After a use outside of parameters, nothing is declared in the scopes around it.** -/
theorem calm_moduleEvents (src : Source) (root : Node) : Calm (moduleEvents src root) := by
  let c : Cursor := ⟨root, []⟩
  have hregion : Region [] (declares (hoistBlock src c.children ++ hoistVars src c))
      (visits c.children) := ⟨flat_visits [], .declares _, flat_visits _⟩
  refine calm_region hregion fun d hd => calm_events src ?_
  have hvisit : .visit d ∈ modulePlan src root := hd
  obtain ⟨n, -, rfl⟩ := exists_of_visit_mem_modulePlan hvisit
  exact List.cons_ne_nil _ _

end Calm

/-! ### What the later events keep -/

namespace Store

variable {s t : Store}

/-- What a name means depends on the scope and the older ones only. -/
theorem resolveFrom_congr {x : Nat} (h : ∀ i ≤ x, t.scopes[i]? = s.scopes[i]?) (name : String) :
    t.resolveFrom name x = s.resolveFrom name x := by
  have hparent : ∀ i ≤ x, t.parent? i = s.parent? i := by
    intro i hi
    unfold parent?
    rw [h i hi]
  have hlookup : ∀ i ∈ s.ancestors x, t.lookup name i = s.lookup name i := by
    intro i hi
    unfold lookup
    rw [h i (le_of_mem_ancestors hi)]
  rw [resolveFrom_eq_findSome?, resolveFrom_eq_findSome?, ancestors_congr hparent,
    ← List.head?_filterMap, ← List.head?_filterMap, List.filterMap_congr hlookup]

end Store

namespace Tree

variable {src : Source} {t : Tree} {es : List Event}

theorem scopes_trailing (src : Source) (h : Trailing es) :
    ∀ i < t.store.scopes.size, (es.foldl (step src) t).store.scopes[i]? = t.store.scopes[i]? := by
  induction h generalizing t with
  | nil => exact fun _ _ => rfl
  | @part es fs hes _ ih =>
    intro i hi
    have hpart := (scopes_nested src hes (Nat.le_refl t.store.scopes.size) (by simp)).1
    have hsize := (grows_foldl src t es).size_le
    rw [List.foldl_append, ih i (by omega), hpart i hi]
  | @leave fs _ ih =>
    intro i hi
    have hsame := scopes_leave src t
    rw [List.foldl_cons, ih i (by rw [hsame]; exact hi), hsame]

/-- The use `u` is met among the events, and resolves against the tables of that moment. -/
def Meets (src : Source) (t : Tree) (es : List Event) (u : Use) : Prop :=
  ∃ before after c a x, es = before ++ .use c a :: after ∧
    (before.foldl (step src) t).store.current = some x ∧
    u = (before.foldl (step src) t).useIn src x c a

/-- What a run records comes after what was recorded before, and was met by the run. -/
theorem exists_met_uses (src : Source) (t : Tree) (es : List Event) :
    ∃ met, (es.foldl (step src) t).uses.toList = t.uses.toList ++ met ∧
      ∀ u ∈ met, t.Meets src es u := by
  induction es generalizing t with
  | nil => exact ⟨[], by simp, by simp⟩
  | cons e es ih =>
    obtain ⟨met, hmet, hmeets⟩ := ih (t.step src e)
    have hlater : ∀ u ∈ met, t.Meets src (e :: es) u := by
      intro u hu
      obtain ⟨before, after, c, a, x, rfl, hcur, hu⟩ := hmeets u hu
      exact ⟨e :: before, after, c, a, x, rfl, hcur, hu⟩
    rcases uses_step_cases src t e with heq | ⟨c, a, x, rfl, hx, heq⟩
    · rw [heq] at hmet
      exact ⟨met, hmet, hlater⟩
    · rw [heq, Array.toList_push, List.append_assoc] at hmet
      refine ⟨_, hmet, fun u hu => ?_⟩
      rcases List.mem_cons.mp hu with rfl | hu
      · exact ⟨[], es, c, a, x, rfl, hx, rfl⟩
      · exact hlater u hu

/-- A recorded use was met on the walk. -/
theorem meets_of_mem_uses {root : Node} {u : Use} (h : u ∈ (ofProgram src root).uses.toList) :
    ({} : Tree).Meets src (moduleEvents src root) u := by
  obtain ⟨met, hmet, hmeets⟩ := exists_met_uses src {} (moduleEvents src root)
  have heq : (ofProgram src root).uses.toList = met := hmet
  exact hmeets u (heq ▸ h)

/-- The binding of a use has the name that is used. -/
theorem name_of_bindingOf? {root : Node} {u : Use} {b : Binding}
    (h : u ∈ (ofProgram src root).uses.toList) (hb : (ofProgram src root).bindingOf? u = some b) :
    b.name = src.textOf u.node := by
  obtain ⟨before, after, c, a, x, he, -, rfl⟩ := meets_of_mem_uses h
  let now := before.foldl (step src) {}
  obtain ⟨hid, hfinal⟩ := id_of_bindingOf? (valid_ofProgram src root) hb
  obtain ⟨b', hb', hname, -⟩ :=
    Store.exists_of_resolveFrom (s := now.store) (valid_foldl Store.valid_empty before) hid
  have hgrows := grows_foldl src now (.use c a :: after)
  rw [← List.foldl_append, ← he] at hgrows
  obtain ⟨b'', hb'', hname', -⟩ := hgrows.binding hb'
  obtain rfl : b'' = b := Option.some.inj (hb''.symm.trans hfinal)
  exact hname'.trans hname

end Tree

/-! ### Recorded and final resolution -/

section Final

variable {src : Source} {root : Node} {u : Use}

/-- The tables around a use outside of parameters are final when it is met. -/
theorem binding_eq_resolveFrom (hu : u ∈ (Tree.ofProgram src root).uses)
    (hparam : inParameters u.cursor = false) :
    u.binding = (Tree.ofProgram src root).store.resolveFrom u.name u.scope := by
  obtain ⟨before, after, c, a, x, he, hcur, rfl⟩ :=
    Tree.meets_of_mem_uses (Array.mem_toList_iff.mpr hu)
  have htrail : Trailing after := calm_moduleEvents src root before after c a he hparam
  let met := before.foldl (Tree.step src) {}
  have hrun : Tree.ofProgram src root = after.foldl (Tree.step src) (met.step src (.use c a)) := by
    unfold Tree.ofProgram
    rw [he, List.foldl_append, List.foldl_cons]
  have hvalid : met.store.Valid := Tree.valid_foldl Store.valid_empty before
  have hlt : x < met.store.scopes.size := hvalid.current_lt hcur
  have hscopes : (met.step src (.use c a)).store.scopes = met.store.scopes := by
    rw [Tree.step_use src c a hcur]
    exact (Tree.scopes_storeAfterUse src met x c a).1
  rw [hrun]
  refine (Store.resolveFrom_congr (fun i hi => ?_) _).symm
  rw [Tree.scopes_trailing src htrail i (by rw [hscopes]; omega), hscopes]

/-- **Recorded resolution is lexical resolution in the finished tables.**  The binding of a use
outside of parameters is what its name means, from the scope of the use, in the store of the whole
program.  So the table of the scope of that binding still holds it: no later declaration of the name
has taken its place. -/
theorem recorded_resolution_final (src : Source) (root : Node) {u : Use}
    (hu : u ∈ (Tree.ofProgram src root).uses) (hparam : inParameters u.cursor = false) :
    let s := (Tree.ofProgram src root).store
    s.resolve u.name (some u.scope) = .ok u.binding ∧
    ∀ k, u.binding = some k → ∃ b, s.bindings[k]? = some b ∧ b.name = u.name ∧
      b.scope ∈ s.ancestors u.scope ∧ s.lookup u.name b.scope = some k := by
  intro s
  have hbinding := binding_eq_resolveFrom hu hparam
  refine ⟨by rw [hbinding]; rfl, fun k hk => ?_⟩
  rw [hbinding, Store.resolveFrom_eq_findSome?] at hk
  obtain ⟨i, hi, hl⟩ := List.exists_of_findSome?_eq_some hk
  obtain ⟨f, hf, hget⟩ := Option.bind_eq_some_iff.mp hl
  obtain ⟨b, hb, hn, rfl⟩ := (Tree.valid_ofProgram src root).entry hf hget
  exact ⟨b, hb, hn, hi, hl⟩

/-- A block that reads a name before its own declaration of it: `let a;{a;let a}`. -/
def shadowText : Source := ⟨"let a;\x7ba;let a\x7d"⟩

def shadowDeclaration (start stop : Nat) : Node :=
  { kind := .lexicalDeclaration, start, stop
    children := [
      { tokenAt "let" start with field := some .kind },
      { kind := .variableDeclarator, start := start + 4, stop := start + 5
        children := [
          { kind := .identifier, field := some .name, start := start + 4, stop := start + 5 }] }]
      ++ if start + 5 < stop then [tokenAt ";" (start + 5)] else [] }

def shadowUse : Node :=
  { kind := .other "expression_statement", start := 7, stop := 9
    children := [{ kind := .identifier, start := 7, stop := 8 }, tokenAt ";" 8] }

def shadowBlock : Node :=
  { kind := .statementBlock, start := 6, stop := 15
    children := [tokenAt "\x7b" 6, shadowUse, shadowDeclaration 9 14, tokenAt "\x7d" 14] }

def shadowProgram : Node :=
  { kind := .other "program", start := 0, stop := 15
    children := [shadowDeclaration 0 6, shadowBlock] }

/-- The name means the declaration of the block, the second one, and not the outer one. -/
theorem recorded_resolution_final_shadow :
    let s := (Tree.ofProgram shadowText shadowProgram).store
    ∃ u ∈ (Tree.ofProgram shadowText shadowProgram).uses, inParameters u.cursor = false ∧
      u.binding = some 1 ∧ s.resolve u.name (some u.scope) = .ok (some 1) := by
  intro s
  have hany : (Tree.ofProgram shadowText shadowProgram).uses.any
      (fun u => !inParameters u.cursor && decide (u.binding = some 1)) = true := by decide +kernel
  obtain ⟨i, hi, hu⟩ := Array.any_eq_true.mp hany
  obtain ⟨hparam, hbinding⟩ := Bool.and_eq_true_iff.mp hu
  rw [Bool.not_eq_true'] at hparam
  have hone := of_decide_eq_true hbinding
  have hmem := Array.getElem_mem hi
  obtain ⟨hres, -⟩ := recorded_resolution_final shadowText shadowProgram hmem hparam
  rw [hone] at hres
  exact ⟨_, hmem, hparam, hone, hres⟩

end Final

end HookLint.Scope
