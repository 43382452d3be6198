import HookLint.Proofs.Syntax.Layout
import HookLint.Scope.Walk

/-!
# Proofs.Scope.Nesting — scopes open and close in pairs

`Shaped b steps` and `Nested b es` describe steps and events: every scope that opens is closed
again, names are declared inside of a scope only, and only names are used.  The flag `b` says
whether declarations may stand at the outermost level, as they may in the body of a scope.

A step of the walk is a call with its children, or it is shaped (`plan_eq_call_or_shaped`); so the
events of every part of a tree are nested (`nested_events`), with no declaration outside of the
scopes that the part opens itself.
-/

namespace HookLint.Scope

open Syntax

/-! ### Names of patterns -/

section Targets

variable {src : Source} {p c : Cursor} {slot s : Option Slot} {t : Slot}

theorem target_not_mem_inner? {o : Option Cursor} : Piece.part (.target c t) ∉ inner? o s := by
  cases o <;> simp [inner?]

theorem target_not_mem_expression? {o : Option Cursor} :
    Piece.part (.target c t) ∉ expression? o := by
  cases o <;> simp [expression?]

theorem target_not_mem_pairPieces : Piece.part (.target c t) ∉ pairPieces src p slot := by
  unfold pairPieces
  split
  · split
    · rw [List.mem_cons, not_or]
      exact ⟨by simp, target_not_mem_inner?⟩
    · exact target_not_mem_inner?
  · exact target_not_mem_inner?

theorem isName_of_target_entryPieces (h : Piece.part (.target c t) ∈ entryPieces src p slot) :
    c.kind.isName = true := by
  unfold entryPieces at h
  split at h
  · next hk =>
    simp only [List.mem_singleton, Piece.part.injEq, Part.target.injEq] at h
    rw [h.1, hk]
    rfl
  · exact absurd h target_not_mem_pairPieces
  · rcases List.mem_append.mp h with h | h
    · split at h
      · unfold defaultedPieces at h
        split at h
        · next hk =>
          simp only [List.mem_singleton, Piece.part.injEq, Part.target.injEq] at h
          rw [h.1, hk]
          rfl
        · simp at h
      · simp at h
    · exact absurd h target_not_mem_expression?
  · simp at h
  · simp at h

theorem isName_of_target_pieces (h : Piece.part (.target c t) ∈ pieces src p slot) :
    c.kind.isName = true := by
  unfold pieces at h
  split at h
  · next hk =>
    simp only [List.mem_singleton, Piece.part.injEq, Part.target.injEq] at h
    rw [h.1, hk]
    rfl
  · next hk =>
    simp only [List.mem_singleton, Piece.part.injEq, Part.target.injEq] at h
    rw [h.1, hk]
    rfl
  · rcases List.mem_append.mp h with h | h
    · exact absurd h target_not_mem_inner?
    · exact absurd h target_not_mem_expression?
  · simp at h
  · simp at h
  · obtain ⟨e, -, h⟩ := List.mem_flatMap.mp h
    exact isName_of_target_entryPieces h
  · simp at h

/-- What a pattern binds are names. -/
theorem isName_of_target {p : Cursor} {slot : Option Slot}
    (h : Part.target c t ∈ parts src p slot) : c.kind.isName = true := by
  rw [parts_eq] at h
  obtain ⟨q, hq, h⟩ := List.mem_flatMap.mp h
  match q, hq, h with
  | .part q, hq, h =>
    obtain rfl := List.mem_singleton.mp h
    exact isName_of_target_pieces hq
  | .inner d s, hq, h =>
    have hsize := sizeOf_of_mem_pieces hq
    exact isName_of_target h
termination_by sizeOf p.node

end Targets

/-! ### Steps -/

/-- Steps without calls, with scopes in pairs around their declarations. -/
inductive Shaped : Bool → List Step → Prop where
  | nil {b : Bool} : Shaped b []
  | visit {b : Bool} {c : Cursor} : Shaped b [.visit c]
  | use {b : Bool} {c : Cursor} {a : Access} : c.kind.isName = true → Shaped b [.emit (.use c a)]
  | declare {d : Declaration} : Shaped true [.emit (.declare d)]
  | append {b : Bool} {s t : List Step} : Shaped b s → Shaped b t → Shaped b (s ++ t)
  | scope {b : Bool} {kind : ScopeKind} {n : Node} {s : List Step} :
      Shaped true s → Shaped b (bracket kind n s)

namespace Shaped

variable {b : Bool} {s : List Step} {cs : List Cursor}

theorem flatMap {α : Type} {l : List α} {f : α → List Step} (h : ∀ a ∈ l, Shaped b (f a)) :
    Shaped b (l.flatMap f) := by
  induction l with
  | nil => exact nil
  | cons a l ih =>
    rw [List.flatMap_cons]
    exact append (h a (by simp)) (ih fun x hx => h x (by simp [hx]))

theorem map {α : Type} {l : List α} {f : α → Step} (h : ∀ a ∈ l, Shaped b [f a]) :
    Shaped b (l.map f) := by
  rw [List.map_eq_flatMap]
  exact flatMap h

theorem visits : Shaped b (visits cs) := map fun _ _ => visit

theorem declares {ds : List Declaration} : Shaped true (declares ds) := map fun _ _ => declare

theorem elim {o : Option Cursor} {f : Cursor → List Step} (h : ∀ c, Shaped b (f c)) :
    Shaped b (o.elim [] f) := by
  cases o with
  | none => exact nil
  | some c => exact h c

theorem not_call (h : Shaped b s) (n : Node) : Step.emit (.call n) ∉ s := by
  induction h with
  | nil => simp
  | visit => simp
  | use _ => simp
  | declare => simp
  | append _ _ ihs iht => simp [ihs, iht]
  | scope _ ih => simp [bracket, ih]

end Shaped

section Plan

variable {src : Source} {b : Bool} {c p : Cursor}

theorem shaped_parameterSteps (src : Source) (p : Cursor) : Shaped true (parameterSteps src p) := by
  refine Shaped.map fun q _ => ?_
  cases q with
  | target name slot => exact Shaped.declare
  | expression c => exact Shaped.visit

theorem shaped_writeSteps (src : Source) (p : Cursor) : Shaped b (writeSteps src p) := by
  refine Shaped.map fun q hq => ?_
  cases q with
  | target name slot => exact Shaped.use (isName_of_target hq)
  | expression c => exact Shaped.visit

theorem shaped_expressionSteps (src : Source) (p : Cursor) : Shaped b (expressionSteps src p) := by
  refine Shaped.flatMap fun q _ => ?_
  cases q with
  | target name slot => exact Shaped.nil
  | expression c => exact Shaped.visit

theorem isName_of_identifier (h : c.kind = .identifier) : c.kind.isName = true := by
  rw [h]
  rfl

theorem shaped_targetSteps (src : Source) (p : Cursor) : Shaped b (targetSteps src p) := by
  unfold targetSteps
  dsimp only
  split
  · next hk => exact Shaped.use (isName_of_identifier hk)
  · exact shaped_writeSteps src _
  · exact shaped_writeSteps src _
  · exact Shaped.visit

theorem shaped_functionPlan (src : Source) (c : Cursor) : Shaped b (functionPlan src c) := by
  refine Shaped.append ?_ (Shaped.scope (Shaped.append (Shaped.append ?_ ?_) ?_))
  · unfold methodNameSteps
    split
    · split
      · split
        · exact Shaped.visit
        · exact Shaped.nil
      · exact Shaped.nil
    · exact Shaped.nil
  · unfold ownNameSteps
    split
    · exact Shaped.nil
    · exact Shaped.nil
    · exact Shaped.nil
    · split
      · exact Shaped.declares
      · exact Shaped.nil
  · unfold parameterListSteps
    split
    · split
      · exact shaped_parameterSteps src _
      · exact Shaped.flatMap fun d _ => shaped_parameterSteps src d
    · exact Shaped.nil
  · unfold bodySteps
    split
    · split
      · exact Shaped.append Shaped.declares Shaped.visits
      · exact Shaped.visit
    · exact Shaped.nil

theorem shaped_forInChild (src : Source) (c d : Cursor) : Shaped b (forInChild src c d) := by
  unfold forInChild
  split
  · split
    · split
      · exact shaped_targetSteps src d
      · exact shaped_expressionSteps src d
    · exact Shaped.visit
  · exact Shaped.visit

theorem shaped_forInPlan (src : Source) (c : Cursor) : Shaped b (forInPlan src c) :=
  Shaped.scope (Shaped.append Shaped.declares
    (Shaped.flatMap fun d _ => shaped_forInChild src c d))

theorem shaped_classPlan (src : Source) (c : Cursor) : Shaped b (classPlan src c) := by
  unfold classPlan
  split
  · refine Shaped.scope (Shaped.append ?_ Shaped.visits)
    split
    · exact Shaped.declares
    · exact Shaped.nil
  · exact Shaped.scope Shaped.visits

theorem shaped_declaratorSteps (src : Source) (c : Cursor) : Shaped b (declaratorSteps src c) := by
  unfold declaratorSteps
  split
  · exact Shaped.append (Shaped.elim fun d => shaped_expressionSteps src d)
      (Shaped.elim fun d => Shaped.visit)
  · exact Shaped.nil

theorem shaped_assignmentPlan (src : Source) (c : Cursor) : Shaped b (assignmentPlan src c) := by
  refine Shaped.append (Shaped.elim fun d => ?_) (Shaped.elim fun d => Shaped.visit)
  split
  · next hk => exact Shaped.use (isName_of_identifier hk.2)
  · exact shaped_targetSteps src d

theorem shaped_updatePlan (c : Cursor) : Shaped b (updatePlan c) := by
  unfold updatePlan
  split
  · split
    · next hk => exact Shaped.use (isName_of_identifier hk)
    · exact Shaped.visit
  · exact Shaped.nil

theorem shaped_tagPlan (src : Source) (c : Cursor) : Shaped b (tagPlan src c) := by
  unfold tagPlan
  split
  · refine Shaped.flatMap fun d _ => ?_
    split
    · unfold tagNameSteps
      split
      · next hk =>
        split
        · exact Shaped.use (isName_of_identifier hk)
        · exact Shaped.nil
      · exact Shaped.visit
      · split
        · next hr => exact Shaped.use (isName_of_identifier (by simpa using List.find?_some hr))
        · exact Shaped.nil
      · exact Shaped.nil
    · exact Shaped.visit
  · exact Shaped.visits

theorem isName_of_role_name (h : Role.ofKind c.kind = .name) : c.kind.isName = true := by
  revert h
  cases c.kind <;> simp [Role.ofKind, Kind.isName]

theorem kind_of_role_call (h : Role.ofKind c.kind = .call) : c.kind = .callExpression := by
  revert h
  cases c.kind <;> simp [Role.ofKind]

/-- **One step of the walk** is a call with its children, or has scopes in pairs and no call. -/
theorem plan_eq_call_or_shaped (src : Source) (c : Cursor) :
    (c.kind = .callExpression ∧ plan src c = .emit (.call c.node) :: visits c.children) ∨
      Shaped false (plan src c) := by
  unfold plan
  split
  · next hr => exact Or.inr (Shaped.use (isName_of_role_name hr))
  · exact Or.inr (shaped_functionPlan src c)
  · exact Or.inr (Shaped.scope (Shaped.append Shaped.declares Shaped.visits))
  · exact Or.inr (Shaped.scope (Shaped.append Shaped.declares Shaped.visits))
  · exact Or.inr (shaped_forInPlan src c)
  · exact Or.inr (Shaped.scope (Shaped.append (Shaped.elim (shaped_parameterSteps src))
      (Shaped.elim fun _ => Shaped.visit)))
  · exact Or.inr (shaped_classPlan src c)
  · exact Or.inr (Shaped.flatMap fun d _ => shaped_declaratorSteps src d)
  · exact Or.inr (shaped_assignmentPlan src c)
  · exact Or.inr (shaped_updatePlan c)
  · next hr => exact Or.inl ⟨kind_of_role_call hr, rfl⟩
  · exact Or.inr (shaped_tagPlan src c)
  · exact Or.inr Shaped.nil
  · exact Or.inr Shaped.visits

end Plan

/-! ### Events -/

/-- Events with scopes in pairs around their declarations. -/
inductive Nested : Bool → List Event → Prop where
  | nil {b : Bool} : Nested b []
  | use {b : Bool} {c : Cursor} {a : Access} : c.kind.isName = true → Nested b [.use c a]
  | call {b : Bool} {n : Node} : Nested b [.call n]
  | declare {d : Declaration} : Nested true [.declare d]
  | append {b : Bool} {es fs : List Event} : Nested b es → Nested b fs → Nested b (es ++ fs)
  | scope {b : Bool} {kind : ScopeKind} {n : Node} {es : List Event} :
      Nested true es → Nested b (.enter kind n :: (es ++ [.leave]))

section Events

variable {src : Source} {b : Bool} {es : List Event} {steps : List Step}

/-- Events that declare nothing at the outermost level may stand in a scope. -/
theorem Nested.inScope (h : Nested false es) (b : Bool) : Nested b es := by
  generalize hf : false = f at h
  induction h with
  | nil => exact Nested.nil
  | use hk => exact Nested.use hk
  | call => exact Nested.call
  | declare => cases hf
  | append _ _ ihs iht => exact Nested.append (ihs hf) (iht hf)
  | scope h _ => exact Nested.scope h

theorem Nested.isName_of_use (h : Nested b es) {c : Cursor} {a : Access} (hu : .use c a ∈ es) :
    c.kind.isName = true := by
  induction h with
  | nil => cases hu
  | use hk =>
    simp only [List.mem_singleton, Event.use.injEq] at hu
    rw [hu.1]
    exact hk
  | call => simp at hu
  | declare => simp at hu
  | append _ _ ihs iht =>
    rcases List.mem_append.mp hu with hu | hu
    · exact ihs hu
    · exact iht hu
  | scope _ ih =>
    simp only [List.mem_cons, List.mem_append, List.not_mem_nil, or_false, reduceCtorEq,
      false_or] at hu
    exact ih hu

theorem unfoldSteps_append (src : Source) (s t : List Step) :
    unfoldSteps src (s ++ t) = unfoldSteps src s ++ unfoldSteps src t := List.flatMap_append

theorem unfoldSteps_visit (src : Source) (c : Cursor) (s : List Step) :
    unfoldSteps src (.visit c :: s) = events src c ++ unfoldSteps src s := rfl

/-- Shaped steps give nested events, if the parts that they visit do. -/
theorem Shaped.nested (h : Shaped b steps)
    (hv : ∀ d, .visit d ∈ steps → Nested false (events src d)) :
    Nested b (unfoldSteps src steps) := by
  induction h with
  | nil => exact Nested.nil
  | @visit b c =>
    have hc := (hv c (by simp)).inScope b
    simpa [unfoldSteps] using hc
  | use hk => exact Nested.use hk
  | declare => exact Nested.declare
  | append _ _ ihs iht =>
    rw [unfoldSteps_append]
    exact Nested.append (ihs fun d hd => hv d (List.mem_append_left _ hd))
      (iht fun d hd => hv d (List.mem_append_right _ hd))
  | @scope b kind n s _ ih =>
    have hs := ih fun d hd => hv d (by simp [bracket, hd])
    have heq : unfoldSteps src (bracket kind n s) =
        .enter kind n :: (unfoldSteps src s ++ [.leave]) := by
      simp [unfoldSteps, bracket]
    rw [heq]
    exact Nested.scope hs

/-- **The events of every part of a tree are nested**, with no declaration outside of its scopes. -/
theorem nested_events (src : Source) (c : Cursor) : Nested false (events src c) := by
  have hv : ∀ d, .visit d ∈ plan src c → Nested false (events src d) := by
    intro d hd
    have hsize := plan_below d hd
    exact nested_events src d
  rw [events_eq]
  rcases plan_eq_call_or_shaped src c with ⟨-, hcall⟩ | hshaped
  · rw [hcall] at hv ⊢
    have hrest : Nested false (unfoldSteps src (visits c.children)) :=
      Shaped.visits.nested fun d hd => hv d (List.mem_cons_of_mem _ hd)
    exact Nested.append Nested.call hrest
  · exact hshaped.nested hv
termination_by sizeOf c.node

theorem nested_visits (src : Source) (cs : List Cursor) :
    Nested false (unfoldSteps src (visits cs)) :=
  Shaped.visits.nested fun d _ => nested_events src d

theorem shaped_modulePlan (src : Source) (root : Node) : Shaped false (modulePlan src root) :=
  Shaped.scope (Shaped.append Shaped.declares Shaped.visits)

theorem nested_moduleEvents (src : Source) (root : Node) : Nested false (moduleEvents src root) :=
  (shaped_modulePlan src root).nested fun d _ => nested_events src d

end Events

end HookLint.Scope
