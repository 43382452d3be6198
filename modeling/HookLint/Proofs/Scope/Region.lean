import HookLint.Proofs.Scope.Reach

/-!
# Proofs.Scope.Region — a scope declares first and visits later

One step of the walk either opens no scope at all, or it opens one for its node, and then the
declarations come before everything else in the scope.  The only parts that are visited between
declarations are the default values and computed keys of parameters (`plan_flat_or_region`).
-/

namespace HookLint.Scope

open Syntax

/-! ### Parameters -/

/-- Whether a part of a node holds the parameters of a function or of a catch clause. -/
def isParameterOf (n parent : Node) : Bool :=
  (n.field = some .parameters && parent.kind.isFunction) ||
    (n.field = some .parameter && (parent.kind.isFunction || parent.kind = .catchClause))

/-- Whether a node, or a node around it, holds the parameters of what encloses it.  The outermost
node is a module and has none. -/
def amongParameters (n : Node) : List Node → Bool
  | parent :: outer :: rest => isParameterOf n parent || amongParameters parent (outer :: rest)
  | _ => false

/-- Whether a cursor stands in the parameters of an enclosing function or catch clause. -/
def inParameters (c : Cursor) : Bool := amongParameters c.node c.ancestors

theorem inParameters_down {c : Cursor} (hc : c.ancestors ≠ []) (n : Node) :
    inParameters (c.down n) = (isParameterOf n c.node || inParameters c) := by
  obtain ⟨m, ancestors⟩ := c
  cases ancestors with
  | nil => exact absurd rfl hc
  | cons outer rest => rfl

/-- Whatever lies below parameters is among them. -/
theorem inParameters_of_leads {P : Kind → Prop} {c d : Cursor} (h : c.Leads P d)
    (hc : inParameters c = true) : inParameters d = true := by
  induction h with
  | refl => exact hc
  | @down d n _ _ _ ih =>
    have hd : d.ancestors ≠ [] := by
      intro hnil
      unfold inParameters at ih
      rw [hnil] at ih
      cases ih
    rw [inParameters_down hd, ih, Bool.or_true]

section Parameters

variable {c params : Cursor}

theorem inParameters_of_mem_children (hc : c.ancestors ≠ []) (hmem : params ∈ c.children)
    (hp : isParameterOf params.node c.node = true) : inParameters params = true := by
  obtain ⟨n, -, rfl⟩ := List.mem_map.mp hmem
  rw [inParameters_down hc]
  exact Bool.or_eq_true_iff.mpr (Or.inl hp)

theorem LeadsFromParameters.inParameters {d : Cursor} (h : LeadsFromParameters c d)
    (houter : c.ancestors ≠ []) (hc : c.kind.isFunction = true) : inParameters d = true := by
  obtain ⟨params, hmem, hlist, hd⟩ := h.leads
  refine inParameters_of_leads hd (inParameters_of_mem_children houter hmem ?_)
  unfold isParameterList at hlist
  unfold isParameterOf
  rw [hc]
  simpa using hlist

end Parameters

/-! ### Steps that open no scope -/

/-- Whether a step visits a part, uses a name or meets a call. -/
def Step.isFlat : Step → Bool
  | .visit _ => true
  | .emit (.use c _) => c.kind.isName
  | .emit (.call _) => true
  | .emit _ => false

/-- Steps that open no scope and declare nothing. -/
def Flat (s : List Step) : Prop := ∀ x ∈ s, x.isFlat = true

section Flat

variable {b : Bool} {s t : List Step} {P : Kind → Prop} {p : Cursor}

theorem Shaped.isName_of_use (h : Shaped b s) {c : Cursor} {a : Access}
    (hu : .emit (.use c a) ∈ s) : c.kind.isName = true := by
  induction h with
  | nil => cases hu
  | visit => simp at hu
  | use hk =>
    simp only [List.mem_singleton, Step.emit.injEq, Event.use.injEq] at hu
    rw [hu.1]
    exact hk
  | declare => simp at hu
  | append _ _ ihs iht =>
    rcases List.mem_append.mp hu with hu | hu
    · exact ihs hu
    · exact iht hu
  | @scope b kind n s _ ih =>
    have hmem : .emit (.use c a) ∈ s := by simpa [bracket] using hu
    exact ih hmem

theorem Reaches.flat (h : Reaches P p s) (hs : Shaped false s) : Flat s := by
  intro x hx
  obtain ⟨d, hd, -⟩ := h x hx
  match x, hx, hd with
  | .visit _, _, _ => rfl
  | .emit (.use c a), hx, _ => exact hs.isName_of_use hx
  | .emit (.enter _ _), _, hd => cases hd
  | .emit .leave, _, hd => cases hd
  | .emit (.declare _), _, hd => cases hd
  | .emit (.call _), _, hd => cases hd

theorem flat_visits (cs : List Cursor) : Flat (visits cs) := by
  intro x hx
  obtain ⟨c, -, rfl⟩ := List.mem_map.mp hx
  rfl

/-- Flat steps give events that declare nothing outside of the scopes they open. -/
theorem Flat.nested (src : Source) (h : Flat s) : Nested false (unfoldSteps src s) := by
  induction s with
  | nil => exact Nested.nil
  | cons x s ih =>
    have hrest := ih fun y hy => h y (List.mem_cons_of_mem _ hy)
    have hx := h x List.mem_cons_self
    match x, hx with
    | .visit d, _ => exact Nested.append (nested_events src d) hrest
    | .emit (.use c a), hx => exact Nested.append (Nested.use hx) hrest
    | .emit (.call n), _ => exact Nested.append Nested.call hrest

end Flat

/-- Declarations, and steps that open no scope. -/
def Inner (s : List Step) : Prop := ∀ x ∈ s, (∃ d, x = .emit (.declare d)) ∨ x.isFlat = true

section Inner

variable {s t : List Step}

theorem Flat.inner (h : Flat s) : Inner s := fun x hx => Or.inr (h x hx)

theorem Declares.inner {V : Cursor → Prop} (h : Declares V s) : Inner s := by
  intro x hx
  rcases h x hx with hd | ⟨d, rfl, -⟩
  · exact Or.inl hd
  · exact Or.inr rfl

theorem inner_declares (ds : List Declaration) : Inner (declares ds) := by
  intro x hx
  obtain ⟨d, -, rfl⟩ := List.mem_map.mp hx
  exact Or.inl ⟨d, rfl⟩

theorem Inner.append (hs : Inner s) (ht : Inner t) : Inner (s ++ t) := fun x hx =>
  (List.mem_append.mp hx).elim (hs x) (ht x)

/-- Steps inside of a scope open no scope that they do not close. -/
theorem Inner.nested (src : Source) (h : Inner s) : Nested true (unfoldSteps src s) := by
  induction s with
  | nil => exact Nested.nil
  | cons x s ih =>
    have hrest := ih fun y hy => h y (List.mem_cons_of_mem _ hy)
    rcases h x List.mem_cons_self with ⟨d, rfl⟩ | hx
    · exact Nested.append Nested.declare hrest
    · have hflat : Flat [x] := fun y hy => by
        rw [List.mem_singleton.mp hy]
        exact hx
      have happ : unfoldSteps src (x :: s) = unfoldSteps src [x] ++ unfoldSteps src s :=
        unfoldSteps_append src [x] s
      rw [happ]
      exact Nested.append ((hflat.nested src).inScope true) hrest

end Inner

/-! ### One step of the walk -/

/-- The cases of one element in two lists. -/
theorem append_cons_cases {α : Type} {xs ys before after : List α} {a : α}
    (h : xs ++ ys = before ++ a :: after) :
    (∃ m, xs = before ++ a :: m ∧ after = m ++ ys) ∨
      ∃ m, before = xs ++ m ∧ ys = m ++ a :: after := by
  rcases List.append_eq_append_iff.mp h with ⟨m, hm, hys⟩ | ⟨m, hxs, hrest⟩
  · exact Or.inr ⟨m, hm, hys⟩
  · cases m with
    | nil =>
      rw [List.append_nil] at hxs
      exact Or.inr ⟨[], by rw [hxs, List.append_nil], hrest.symm⟩
    | cons b m =>
      obtain ⟨rfl, hafter⟩ := List.cons.inj hrest
      exact Or.inl ⟨m, hxs, hafter⟩

section Plan

variable {src : Source} {c d : Cursor} {x : Step}

/-- A region opens one scope.  Its declarations come before the rest, and what is visited between
them stands in parameters. -/
structure Region (before heads rest : List Step) : Prop where
  before : Flat before
  heads : Declares (inParameters · = true) heads
  rest : Flat rest

theorem flat_methodNameSteps (c : Cursor) : Flat (methodNameSteps c) := by
  unfold methodNameSteps
  split
  · split
    · split
      · exact flat_visits [_]
      · exact flat_visits []
    · exact flat_visits []
  · exact flat_visits []

/-- What the body of a function declares; an expression declares nothing. -/
def bodyDeclarations (src : Source) (c : Cursor) : List Declaration :=
  match c.child? .body with
  | some body =>
    if body.kind = .statementBlock then hoistBlock src body.children ++ hoistVars src body else []
  | none => []

/-- What is visited in the body of a function: its statements, or its expression. -/
def bodyVisits (c : Cursor) : List Cursor :=
  match c.child? .body with
  | some body => if body.kind = .statementBlock then body.children else [body]
  | none => []

theorem bodySteps_eq (src : Source) (c : Cursor) :
    bodySteps src c = declares (bodyDeclarations src c) ++ visits (bodyVisits c) := by
  unfold bodySteps bodyDeclarations bodyVisits
  cases c.child? .body with
  | none => rfl
  | some body =>
    by_cases hk : body.kind = .statementBlock
    · simp only [if_pos hk]
    · simp only [if_neg hk]
      rfl

/-- All the declarations of a function: its own name, its parameters, its body. -/
def functionHeads (src : Source) (c : Cursor) : List Step :=
  ownNameSteps src c ++ parameterListSteps src c ++ declares (bodyDeclarations src c)

theorem functionPlan_eq (src : Source) (c : Cursor) : functionPlan src c =
    methodNameSteps c ++
      bracket .function c.node (functionHeads src c ++ visits (bodyVisits c)) := by
  unfold functionPlan functionHeads
  rw [bodySteps_eq]
  simp only [List.append_assoc]

theorem declares_functionHeads (src : Source) (c : Cursor) :
    Declares (LeadsFromParameters c) (functionHeads src c) :=
  ((declares_ownNameSteps src c).append (declares_parameterListSteps src c)).append (.declares _)

/-- A function declares first. -/
theorem region_functionPlan (src : Source) (houter : c.ancestors ≠ [])
    (hc : c.kind.isFunction = true) :
    Region (methodNameSteps c) (functionHeads src c) (visits (bodyVisits c)) where
  before := flat_methodNameSteps c
  heads := (declares_functionHeads src c).mono fun _ hd => hd.inParameters houter hc
  rest := flat_visits _

theorem declares_catch (src : Source) (houter : c.ancestors ≠ []) (hc : c.kind = .catchClause) :
    Declares (inParameters · = true) ((c.child? .parameter).elim [] (parameterSteps src)) := by
  cases hp : c.child? .parameter with
  | none => exact .nil
  | some param =>
    refine (declares_parameterSteps src param).mono fun d hd => ?_
    refine inParameters_of_leads hd
      (inParameters_of_mem_children houter (Cursor.mem_children_of_child? hp) ?_)
    have hk : c.node.kind = .catchClause := hc
    unfold isParameterOf
    rw [Node.field_of_child? (Cursor.node_child? hp), hk]
    rfl

theorem flat_elim_visit (o : Option Cursor) : Flat (o.elim [] fun e => [.visit e]) := by
  cases o with
  | none => exact flat_visits []
  | some e => exact flat_visits [e]

theorem kind_of_role_catch (h : Role.ofKind c.kind = .catchClause) : c.kind = .catchClause := by
  revert h
  cases c.kind <;> simp [Role.ofKind]

/-- **One step of the walk** is flat, or it opens one scope that declares first.  Only functions
open scopes that are no blocks. -/
theorem plan_flat_or_region (src : Source) (houter : c.ancestors ≠ []) : Flat (plan src c) ∨
    ∃ kind before heads rest, Region before heads rest ∧
      (c.kind.isFunction = false → kind = .block) ∧
      plan src c = before ++ bracket kind c.node (heads ++ rest) := by
  have hblock : ∀ {heads rest : List Step}, Declares (inParameters · = true) heads → Flat rest →
      ∃ kind before heads' rest', Region before heads' rest' ∧
        (c.kind.isFunction = false → kind = .block) ∧
        bracket .block c.node (heads ++ rest) =
          before ++ bracket kind c.node (heads' ++ rest') :=
    fun hh hr => ⟨.block, [], _, _, ⟨flat_visits [], hh, hr⟩, fun _ => rfl, rfl⟩
  unfold plan
  split
  · next hr =>
    refine Or.inl fun x hx => ?_
    obtain rfl := List.mem_singleton.mp hx
    exact isName_of_role_name hr
  · next hr =>
    have hc := isFunction_iff_role.mpr hr
    refine Or.inr ⟨_, _, _, _, region_functionPlan src houter hc, fun hno => ?_,
      functionPlan_eq src c⟩
    rw [hc] at hno
    cases hno
  · exact Or.inr (hblock (.declares _) (flat_visits _))
  · exact Or.inr (hblock (.declares _) (flat_visits _))
  · exact Or.inr (hblock (.declares _)
      ((reaches_forIn src c).flat (Shaped.flatMap fun d _ => shaped_forInChild src c d)))
  · next hr =>
    exact Or.inr (hblock (declares_catch src houter (kind_of_role_catch hr)) (flat_elim_visit _))
  · obtain ⟨ds, cs, heq, -⟩ := classPlan_eq src c
    rw [heq]
    exact Or.inr (hblock (.declares ds) (flat_visits cs))
  · exact Or.inl ((reaches_declaration src c).flat
      (Shaped.flatMap fun d _ => shaped_declaratorSteps src d))
  · exact Or.inl ((reaches_assignmentPlan src c).flat (shaped_assignmentPlan src c))
  · exact Or.inl ((reaches_updatePlan c).flat (shaped_updatePlan c))
  · refine Or.inl fun x hx => ?_
    rcases List.mem_cons.mp hx with rfl | hx
    · rfl
    · exact flat_visits _ x hx
  · exact Or.inl ((reaches_tagPlan src c).flat (shaped_tagPlan src c))
  · exact Or.inl (flat_visits [])
  · exact Or.inl (flat_visits _)

end Plan

end HookLint.Scope
