import HookLint.Proofs.Scope.Nesting
import HookLint.Proofs.Syntax.Descent

/-!
# Proofs.Scope.Reach — where a step of the walk leads

What a step of the walk visits or uses lies below the node of the step (`spreads_plan`).  Outside of
functions, the nodes on the way are parts of patterns, declarators and parentheses
(`spreads_plan_of_not_function`).

So every event comes from the step of some node below the one where the walk began
(`exists_plan_of_mem_events`).
-/

namespace HookLint.Scope

open Syntax

/-! ### Where patterns lead -/

/-- The kinds of the nodes that a step goes through on its way to what it visits or uses. -/
def isPassed : Kind → Bool
  | .assignmentPattern | .objectAssignmentPattern | .restPattern | .pairPattern | .arrayPattern
  | .objectPattern | .parenthesized | .variableDeclarator | .nestedIdentifier => true
  | _ => false

/-- The way from `p` to `d` goes through patterns, declarators and parentheses only. -/
abbrev Passes (p d : Cursor) : Prop := p.Leads (fun k => isPassed k = true) d

/-- The cursor of a part of a pattern. -/
def Part.cursor : Part → Cursor
  | .target name _ => name
  | .expression c => c

/-- The cursor of a piece of a pattern. -/
def Piece.cursor : Piece → Cursor
  | .part q => q.cursor
  | .inner c _ => c

section Patterns

variable {src : Source} {p c d : Cursor} {f : Field} {q : Piece} {slot : Option Slot}

theorem passes_child? (hk : isPassed c.kind = true) (h : c.child? f = some d) : Passes c d :=
  .mem_children hk (Cursor.mem_children_of_child? h)

theorem passes_element (hk : isPassed c.kind = true) (h : d ∈ c.elements) : Passes c d :=
  .mem_children hk (Cursor.mem_children_of_mem_elements h)

theorem cursor_of_mem_inner? {o : Option Cursor} (h : q ∈ inner? o slot) : o = some q.cursor := by
  cases o with
  | none => simp [inner?] at h
  | some e =>
    obtain rfl := List.mem_singleton.mp h
    rfl

theorem cursor_of_mem_expression? {o : Option Cursor} (h : q ∈ expression? o) :
    o = some q.cursor := by
  cases o with
  | none => simp [expression?] at h
  | some e =>
    obtain rfl := List.mem_singleton.mp h
    rfl

theorem passes_pairPieces (hk : isPassed c.kind = true) (h : q ∈ pairPieces src c slot) :
    Passes c q.cursor := by
  unfold pairPieces at h
  split at h
  · next key hkey =>
    split at h
    · rcases List.mem_cons.mp h with rfl | h
      · exact passes_child? hk hkey
      · exact passes_child? hk (cursor_of_mem_inner? h)
    · exact passes_child? hk (cursor_of_mem_inner? h)
  · exact passes_child? hk (cursor_of_mem_inner? h)

theorem passes_entryPieces (h : q ∈ entryPieces src c slot) : Passes c q.cursor := by
  unfold entryPieces at h
  split at h
  · obtain rfl := List.mem_singleton.mp h
    exact .refl
  · next hk => exact passes_pairPieces (by rw [hk]; rfl) h
  · next hk =>
    have hpass : isPassed c.kind = true := by rw [hk]; rfl
    rcases List.mem_append.mp h with h | h
    · split at h
      · next left hl =>
        unfold defaultedPieces at h
        split at h
        · obtain rfl := List.mem_singleton.mp h
          exact passes_child? hpass hl
        · obtain rfl := List.mem_singleton.mp h
          exact passes_child? hpass hl
      · cases h
    · exact passes_child? hpass (cursor_of_mem_expression? h)
  · obtain rfl := List.mem_singleton.mp h
    exact .refl
  · cases h

theorem passes_pieces (h : q ∈ pieces src p slot) : Passes p q.cursor := by
  unfold pieces at h
  split at h
  · obtain rfl := List.mem_singleton.mp h
    exact .refl
  · obtain rfl := List.mem_singleton.mp h
    exact .refl
  · next hk =>
    have hpass : isPassed p.kind = true := by rw [hk]; rfl
    rcases List.mem_append.mp h with h | h
    · exact passes_child? hpass (cursor_of_mem_inner? h)
    · exact passes_child? hpass (cursor_of_mem_expression? h)
  · next hk =>
    obtain ⟨e, he, rfl⟩ := List.mem_map.mp h
    exact passes_element (by rw [hk]; rfl) he
  · next hk =>
    obtain ⟨⟨j, e⟩, he, rfl⟩ := List.mem_map.mp h
    exact .mem_children (by rw [hk]; rfl) (mem_of_mem_placed he)
  · next hk =>
    obtain ⟨e, he, h⟩ := List.mem_flatMap.mp h
    exact (passes_element (by rw [hk]; rfl) he).trans (passes_entryPieces h)
  · obtain rfl := List.mem_singleton.mp h
    exact .refl

/-- The names and expressions of a pattern lie below it. -/
theorem passes_parts {p : Cursor} {slot : Option Slot} {x : Part} (h : x ∈ parts src p slot) :
    Passes p x.cursor := by
  rw [parts_eq] at h
  obtain ⟨q, hq, h⟩ := List.mem_flatMap.mp h
  match q, hq, h with
  | .part y, hq, h =>
    obtain rfl := List.mem_singleton.mp h
    exact passes_pieces hq
  | .inner d s, hq, h =>
    have hsize := sizeOf_of_mem_pieces hq
    have hstep : Passes p d := passes_pieces hq
    exact hstep.trans (passes_parts h)
termination_by sizeOf p.node

end Patterns

/-! ### Where steps lead -/

/-- The part that a step visits, or the name that it uses. -/
def Step.cursor? : Step → Option Cursor
  | .visit d => some d
  | .emit (.use d _) => some d
  | .emit _ => none

/-- Steps that only visit and use what `p` leads to, through kinds that satisfy `P`. -/
def Reaches (P : Kind → Prop) (p : Cursor) (s : List Step) : Prop :=
  ∀ x ∈ s, ∃ d, x.cursor? = some d ∧ p.Leads P d

namespace Reaches

variable {P Q : Kind → Prop} {p c d : Cursor} {s t : List Step}

theorem nil : Reaches P p [] := fun _ h => nomatch h

theorem visit (h : p.Leads P d) : Reaches P p [.visit d] := fun x hx => by
  obtain rfl := List.mem_singleton.mp hx
  exact ⟨d, rfl, h⟩

theorem use {a : Access} (h : p.Leads P d) : Reaches P p [.emit (.use d a)] := fun x hx => by
  obtain rfl := List.mem_singleton.mp hx
  exact ⟨d, rfl, h⟩

theorem append (hs : Reaches P p s) (ht : Reaches P p t) : Reaches P p (s ++ t) := fun x hx =>
  (List.mem_append.mp hx).elim (hs x) (ht x)

theorem flatMap {l : List Cursor} {f : Cursor → List Step} (h : ∀ e ∈ l, Reaches P p (f e)) :
    Reaches P p (l.flatMap f) := fun x hx => by
  obtain ⟨e, he, hx⟩ := List.mem_flatMap.mp hx
  exact h e he x hx

theorem elim {o : Option Cursor} {f : Cursor → List Step}
    (h : ∀ e, o = some e → Reaches P p (f e)) :
    Reaches P p (o.elim [] f) := by
  cases o with
  | none => exact nil
  | some e => exact h e rfl

theorem visits {l : List Cursor} (h : ∀ e ∈ l, p.Leads P e) : Reaches P p (visits l) := by
  intro x hx
  obtain ⟨e, he, rfl⟩ := List.mem_map.mp hx
  exact ⟨e, rfl, h e he⟩

theorem trans (h : Reaches P p s) (hc : c.Leads P p) : Reaches P c s := fun x hx => by
  obtain ⟨d, hd, hp⟩ := h x hx
  exact ⟨d, hd, hc.trans hp⟩

theorem mono (h : Reaches P p s) (hPQ : ∀ k, P k → Q k) : Reaches Q p s := fun x hx => by
  obtain ⟨d, hd, hp⟩ := h x hx
  exact ⟨d, hd, hp.mono hPQ⟩

end Reaches

section Steps

variable {src : Source} {p c d : Cursor}

theorem reaches_writeSteps (src : Source) (p : Cursor) :
    Reaches (isPassed · = true) p (writeSteps src p) := fun x hx => by
  obtain ⟨q, hq, rfl⟩ := List.mem_map.mp hx
  cases q with
  | target name slot => exact ⟨name, rfl, passes_parts hq⟩
  | expression e => exact ⟨e, rfl, passes_parts hq⟩

theorem reaches_expressionSteps (src : Source) (p : Cursor) :
    Reaches (isPassed · = true) p (expressionSteps src p) := fun x hx => by
  obtain ⟨q, hq, hx⟩ := List.mem_flatMap.mp hx
  cases q with
  | target name slot => cases hx
  | expression e =>
    obtain rfl := List.mem_singleton.mp hx
    exact ⟨e, rfl, passes_parts hq⟩

theorem passes_unwrap (p : Cursor) : Passes p p.unwrap :=
  Cursor.leads_unwrap (P := fun k => isPassed k = true) rfl p

theorem reaches_targetSteps (src : Source) (p : Cursor) :
    Reaches (isPassed · = true) p (targetSteps src p) := by
  unfold targetSteps
  dsimp only
  split
  · exact .use (passes_unwrap p)
  · exact (reaches_writeSteps src _).trans (passes_unwrap p)
  · exact (reaches_writeSteps src _).trans (passes_unwrap p)
  · exact .visit (passes_unwrap p)

theorem reaches_declaratorSteps (src : Source) (p : Cursor) :
    Reaches (isPassed · = true) p (declaratorSteps src p) := by
  unfold declaratorSteps
  split
  · next hk =>
    have hpass : isPassed p.kind = true := by rw [hk]; rfl
    exact .append
      (.elim fun e he => (reaches_expressionSteps src e).trans (passes_child? hpass he))
      (.elim fun e he => .visit (passes_child? hpass he))
  · exact .nil

theorem reaches_tagNameSteps (src : Source) (p : Cursor) :
    Reaches (isPassed · = true) p (tagNameSteps src p) := by
  unfold tagNameSteps
  split
  · split
    · exact .use .refl
    · exact .nil
  · exact .visit .refl
  · next hk =>
    split
    · next root hr =>
      have hmem := Cursor.mem_children_of_mem_namedChildren (List.mem_of_find?_eq_some hr)
      exact .use (.mem_children (by rw [hk]; rfl) hmem)
    · exact .nil
  · exact .nil

theorem reaches_forInChild (src : Source) (c p : Cursor) :
    Reaches (isPassed · = true) p (forInChild src c p) := by
  unfold forInChild
  split
  · split
    · split
      · exact reaches_targetSteps src p
      · exact reaches_expressionSteps src p
    · exact .visit .refl
  · exact .visit .refl

end Steps

/-! ### The declarations of a scope -/

/-- Declarations, and visits of parts that satisfy `V` between them. -/
def Declares (V : Cursor → Prop) (s : List Step) : Prop :=
  ∀ x ∈ s, (∃ d, x = .emit (.declare d)) ∨ ∃ d, x = .visit d ∧ V d

namespace Declares

variable {V W : Cursor → Prop} {s t : List Step}

theorem nil : Declares V [] := fun _ h => nomatch h

theorem declares (ds : List Declaration) : Declares V (declares ds) := fun x hx => by
  obtain ⟨d, -, rfl⟩ := List.mem_map.mp hx
  exact Or.inl ⟨d, rfl⟩

theorem append (hs : Declares V s) (ht : Declares V t) : Declares V (s ++ t) := fun x hx =>
  (List.mem_append.mp hx).elim (hs x) (ht x)

theorem mono (h : Declares V s) (hVW : ∀ d, V d → W d) : Declares W s := fun x hx =>
  (h x hx).imp_right fun ⟨d, hd, hv⟩ => ⟨d, hd, hVW d hv⟩

end Declares

section Parameters

variable {src : Source} {c params : Cursor}

theorem declares_parameterSteps (src : Source) (p : Cursor) :
    Declares (Passes p) (parameterSteps src p) := by
  intro x hx
  obtain ⟨q, hq, rfl⟩ := List.mem_map.mp hx
  cases q with
  | target name slot => exact Or.inl ⟨_, rfl⟩
  | expression e => exact Or.inr ⟨e, rfl, passes_parts hq⟩

theorem declares_ownNameSteps {V : Cursor → Prop} (src : Source) (c : Cursor) :
    Declares V (ownNameSteps src c) := by
  unfold ownNameSteps
  split
  · exact .nil
  · exact .nil
  · exact .nil
  · split
    · exact .declares _
    · exact .nil

/-- Whether a node stands in the place of parameters. -/
def isParameterList (n : Node) : Bool :=
  n.field = some .parameters || n.field = some .parameter

/-- The node that holds the parameters of a function is one of its children. -/
theorem mem_children_of_parameters
    (h : (c.child? .parameters <|> c.child? .parameter) = some params) :
    params ∈ c.children ∧ isParameterList params.node = true := by
  unfold isParameterList
  cases hc : c.child? .parameters with
  | some e =>
    rw [hc] at h
    obtain rfl : e = params := Option.some.inj h
    rw [Node.field_of_child? (Cursor.node_child? hc)]
    exact ⟨Cursor.mem_children_of_child? hc, rfl⟩
  | none =>
    rw [hc] at h
    rw [Node.field_of_child? (Cursor.node_child? h)]
    exact ⟨Cursor.mem_children_of_child? h, rfl⟩

/-- The parameters of `c` lead to `d`. -/
def LeadsFromParameters (c d : Cursor) : Prop :=
  ∃ params ∈ c.children, isParameterList params.node = true ∧
    (Passes params d ∨ ∃ e ∈ params.children, Passes e d)

/-- Between the declarations of a function, only what its parameters lead to is visited. -/
theorem declares_parameterListSteps (src : Source) (c : Cursor) :
    Declares (LeadsFromParameters c) (parameterListSteps src c) := by
  unfold parameterListSteps
  split
  · next params hp =>
    obtain ⟨hmem, hlist⟩ := mem_children_of_parameters hp
    split
    · exact (declares_parameterSteps src params).mono fun d hd => ⟨params, hmem, hlist, Or.inl hd⟩
    · intro x hx
      obtain ⟨e, he, hx⟩ := List.mem_flatMap.mp hx
      have hchild := Cursor.mem_children_of_mem_elements he
      exact (declares_parameterSteps src e).mono
        (fun d hd => ⟨params, hmem, hlist, Or.inr ⟨e, hchild, hd⟩⟩) x hx
  · exact .nil

theorem LeadsFromParameters.leads {d : Cursor} (h : LeadsFromParameters c d) :
    ∃ params ∈ c.children, isParameterList params.node = true ∧ params.Leads (fun _ => True) d := by
  obtain ⟨params, hmem, hlist, hd | ⟨e, he, hd⟩⟩ := h
  · exact ⟨params, hmem, hlist, hd.mono fun _ _ => trivial⟩
  · have hstep : params.Leads (fun _ => True) e := .mem_children trivial he
    exact ⟨params, hmem, hlist, hstep.trans (hd.mono fun _ _ => trivial)⟩

end Parameters

/-! ### Where plans lead -/

/-- What a step of the walk leaves behind on its way down from `c`. -/
def Through (c : Cursor) (k : Kind) : Prop := k = c.kind ∨ isPassed k = true

section Plan

variable {src : Source} {c d e : Cursor} {s : List Step}

theorem leads_child (h : d ∈ c.children) : c.Leads (Through c) d := .mem_children (Or.inl rfl) h

theorem Reaches.ofChild (h : Reaches (isPassed · = true) e s) (he : e ∈ c.children) :
    Reaches (Through c) c s :=
  (h.mono fun _ => Or.inr).trans (leads_child he)

theorem reaches_children (c : Cursor) : Reaches (Through c) c (visits c.children) :=
  .visits fun _ => leads_child

theorem reaches_declaration (src : Source) (c : Cursor) :
    Reaches (Through c) c (c.namedChildren.flatMap (declaratorSteps src)) :=
  .flatMap fun e he =>
    (reaches_declaratorSteps src e).ofChild (Cursor.mem_children_of_mem_namedChildren he)

theorem reaches_assignmentPlan (src : Source) (c : Cursor) :
    Reaches (Through c) c (assignmentPlan src c) := by
  refine .append (.elim fun left hl => ?_)
    (.elim fun right hr => .visit (leads_child (Cursor.mem_children_of_child? hr)))
  have hchild := Cursor.mem_children_of_child? hl
  split
  · exact (Reaches.use (passes_unwrap left)).ofChild hchild
  · exact (reaches_targetSteps src left).ofChild hchild

theorem reaches_updatePlan (c : Cursor) : Reaches (Through c) c (updatePlan c) := by
  unfold updatePlan
  split
  · next argument ha =>
    have hchild : argument ∈ c.children := by
      cases hc : c.child? .argument with
      | some e =>
        rw [hc] at ha
        obtain rfl : e = argument := Option.some.inj ha
        exact Cursor.mem_children_of_child? hc
      | none =>
        rw [hc] at ha
        exact Cursor.mem_children_of_mem_elements (List.mem_of_mem_head? ha)
    split
    · exact (Reaches.use (passes_unwrap argument)).ofChild hchild
    · exact .visit (leads_child hchild)
  · exact .nil

theorem reaches_tagPlan (src : Source) (c : Cursor) :
    Reaches (Through c) c (tagPlan src c) := by
  unfold tagPlan
  split
  · refine .flatMap fun e he => ?_
    split
    · exact (reaches_tagNameSteps src e).ofChild he
    · exact .visit (leads_child he)
  · exact reaches_children c

theorem reaches_forIn (src : Source) (c : Cursor) :
    Reaches (Through c) c (c.children.flatMap (forInChild src c)) :=
  .flatMap fun e he => (reaches_forInChild src c e).ofChild he

end Plan

/-! ### All that a step leads to -/

section Spreads

variable {src : Source} {c d : Cursor}

theorem isFunction_iff_role : c.kind.isFunction = true ↔ Role.ofKind c.kind = .function := by
  cases c.kind <;> simp [Kind.isFunction, Role.ofKind]

/-- A class is a block whose only own declaration is its name. -/
theorem classPlan_eq (src : Source) (c : Cursor) : ∃ ds cs,
    classPlan src c = bracket .block c.node (declares ds ++ visits cs) ∧
      ∀ e ∈ cs, e ∈ c.children := by
  unfold classPlan
  split
  · split
    · exact ⟨_, _, rfl, fun e he => (List.mem_filter.mp he).1⟩
    · exact ⟨[], _, rfl, fun e he => (List.mem_filter.mp he).1⟩
  · exact ⟨[], _, rfl, fun e he => he⟩

/-- What the steps visit or use, `c` leads to. -/
def Spreads (P : Kind → Prop) (c : Cursor) (s : List Step) : Prop :=
  ∀ x ∈ s, ∀ d, x.cursor? = some d → c.Leads P d

namespace Spreads

variable {P Q : Kind → Prop} {s t : List Step}

theorem append (hs : Spreads P c s) (ht : Spreads P c t) : Spreads P c (s ++ t) := fun x hx =>
  (List.mem_append.mp hx).elim (hs x) (ht x)

theorem emit {e : Event} (he : (Step.emit e).cursor? = none) : Spreads P c [.emit e] :=
  fun x hx d hd => by
    obtain rfl := List.mem_singleton.mp hx
    rw [he] at hd
    cases hd

theorem bracket {kind : ScopeKind} {n : Node} (h : Spreads P c s) :
    Spreads P c (bracket kind n s) :=
  ((emit rfl).append h).append (emit rfl)

theorem ofReaches (h : Reaches P c s) : Spreads P c s := fun x hx d hd => by
  obtain ⟨e, he, hl⟩ := h x hx
  rw [hd] at he
  obtain rfl := Option.some.inj he
  exact hl

theorem ofDeclares {V : Cursor → Prop} (h : Declares V s) (hV : ∀ d, V d → c.Leads P d) :
    Spreads P c s := fun x hx d hd => by
  rcases h x hx with ⟨e, rfl⟩ | ⟨e, rfl, hv⟩
  · cases hd
  · obtain rfl := Option.some.inj hd
    exact hV _ hv

theorem declares (ds : List Declaration) : Spreads P c (declares ds) :=
  ofDeclares (V := fun _ => False) (.declares ds) fun _ h => h.elim

theorem mono (h : Spreads P c s) (hPQ : ∀ k, P k → Q k) : Spreads Q c s := fun x hx d hd =>
  (h x hx d hd).mono hPQ

end Spreads

theorem spreads_catch (src : Source) (c : Cursor) :
    Spreads (Through c) c ((c.child? .parameter).elim [] (parameterSteps src)) := by
  cases hp : c.child? .parameter with
  | none => exact .ofReaches .nil
  | some param =>
    exact .ofDeclares (declares_parameterSteps src param) fun d hd =>
      (leads_child (Cursor.mem_children_of_child? hp)).trans (hd.mono fun _ => Or.inr)

/-- Outside of functions, a step goes through patterns, declarators and parentheses only. -/
theorem spreads_plan_of_not_function (src : Source) (hc : c.kind.isFunction = false) :
    Spreads (Through c) c (plan src c) := by
  unfold plan
  split
  · exact .ofReaches (.use .refl)
  · next hr =>
    rw [isFunction_iff_role.mpr hr] at hc
    cases hc
  · exact .bracket ((Spreads.declares _).append (.ofReaches (reaches_children c)))
  · exact .bracket ((Spreads.declares _).append (.ofReaches (reaches_children c)))
  · exact .bracket ((Spreads.declares _).append (.ofReaches (reaches_forIn src c)))
  · refine .bracket ((spreads_catch src c).append (.ofReaches (.elim fun e he => ?_)))
    exact .visit (leads_child (Cursor.mem_children_of_child? he))
  · obtain ⟨ds, cs, heq, hcs⟩ := classPlan_eq src c
    rw [heq]
    exact .bracket ((Spreads.declares ds).append
      (.ofReaches (.visits fun e he => leads_child (hcs e he))))
  · exact .ofReaches (reaches_declaration src c)
  · exact .ofReaches (reaches_assignmentPlan src c)
  · exact .ofReaches (reaches_updatePlan c)
  · exact (Spreads.emit rfl).append (.ofReaches (reaches_children c))
  · exact .ofReaches (reaches_tagPlan src c)
  · exact .ofReaches .nil
  · exact .ofReaches (reaches_children c)

theorem leads_true_child (h : d ∈ c.children) : c.Leads (fun _ => True) d :=
  .mem_children trivial h

theorem spreads_functionPlan (src : Source) (c : Cursor) :
    Spreads (fun _ => True) c (functionPlan src c) := by
  refine .append ?_ (.bracket (.append (.append ?_ ?_) ?_))
  · unfold methodNameSteps
    split
    · split
      · next name hn =>
        split
        · exact .ofReaches (.visit (leads_true_child (Cursor.mem_children_of_child? hn)))
        · exact .ofReaches .nil
      · exact .ofReaches .nil
    · exact .ofReaches .nil
  · exact .ofDeclares (V := fun _ => False) (declares_ownNameSteps src c) fun _ h => h.elim
  · refine .ofDeclares (declares_parameterListSteps src c) fun d hd => ?_
    obtain ⟨params, hmem, -, hd⟩ := hd.leads
    exact (leads_true_child hmem).trans hd
  · unfold bodySteps
    split
    · next body hb =>
      have hbody := leads_true_child (Cursor.mem_children_of_child? hb)
      split
      · exact (Spreads.declares _).append
          (.ofReaches (.visits fun e he => hbody.trans (leads_true_child he)))
      · exact .ofReaches (.visit hbody)
    · exact .ofReaches .nil

/-- **Where one step leads.**  What a step of the walk visits or uses lies below its node. -/
theorem spreads_plan (src : Source) (c : Cursor) : Spreads (fun _ => True) c (plan src c) := by
  cases hc : c.kind.isFunction with
  | false => exact (spreads_plan_of_not_function src hc).mono fun _ _ => trivial
  | true =>
    have heq : plan src c = functionPlan src c := by
      unfold plan
      rw [isFunction_iff_role.mp hc]
    rw [heq]
    exact spreads_functionPlan src c

/-- A call is met by the step of its own node. -/
theorem node_of_call_mem_plan {n : Node} (h : .emit (.call n) ∈ plan src c) :
    n = c.node ∧ n.kind = .callExpression := by
  rcases plan_eq_call_or_shaped src c with ⟨hkind, hcall⟩ | hshaped
  · rw [hcall] at h
    rcases List.mem_cons.mp h with h | h
    · obtain rfl := Event.call.inj (Step.emit.inj h)
      exact ⟨rfl, hkind⟩
    · obtain ⟨d, -, hd⟩ := List.mem_map.mp h
      cases hd
  · exact absurd h (hshaped.not_call n)

end Spreads

/-! ### Where events come from -/

section Events

variable {src : Source} {e : Event} {steps : List Step}

theorem exists_step_of_mem_unfoldSteps (h : e ∈ unfoldSteps src steps) :
    .emit e ∈ steps ∨ ∃ d, .visit d ∈ steps ∧ e ∈ events src d := by
  obtain ⟨x, hx, he⟩ := List.mem_flatMap.mp h
  cases x with
  | emit f =>
    obtain rfl := List.mem_singleton.mp he
    exact Or.inl hx
  | visit d => exact Or.inr ⟨d, hx, he⟩

/-- **Every event is emitted by the step of a node below.** -/
theorem exists_plan_of_mem_events {c : Cursor} (h : e ∈ events src c) :
    ∃ d, c.Leads (fun _ => True) d ∧ .emit e ∈ plan src d := by
  rw [events_eq] at h
  rcases exists_step_of_mem_unfoldSteps h with h | ⟨d, hd, h⟩
  · exact ⟨c, .refl, h⟩
  · have hsize := plan_below d hd
    obtain ⟨d', hd', he⟩ := exists_plan_of_mem_events h
    exact ⟨d', (spreads_plan src c _ hd d rfl).trans hd', he⟩
termination_by sizeOf c.node

/-- A name that is used in a part of a tree lies in that part. -/
theorem leads_of_use_mem_events {c d : Cursor} {a : Access} (h : .use d a ∈ events src c) :
    c.Leads (fun _ => True) d := by
  obtain ⟨e, he, hplan⟩ := exists_plan_of_mem_events h
  exact he.trans (spreads_plan src e _ hplan d rfl)

/-- The first step into a program visits the children of its root. -/
theorem exists_of_visit_mem_modulePlan {root : Node} {c : Cursor}
    (h : .visit c ∈ modulePlan src root) : ∃ n ∈ root.children, c = ⟨n, [root]⟩ := by
  unfold modulePlan bracket declares visits at h
  simp only [List.mem_append, List.mem_cons, List.mem_map, List.not_mem_nil, reduceCtorEq,
    and_false, exists_false, or_false, false_or, Step.visit.injEq, exists_eq_right] at h
  obtain ⟨n, hn, rfl⟩ := List.mem_map.mp h
  exact ⟨n, hn, rfl⟩

/-- The calls of a program are nodes of it. -/
theorem all_of_call_mem_moduleEvents {root n : Node} {P : Node → Prop} (hroot : root.All P)
    (h : .call n ∈ moduleEvents src root) : n.All P := by
  rcases exists_step_of_mem_unfoldSteps h with h | ⟨c, hc, h⟩
  · exact absurd h ((shaped_modulePlan src root).not_call n)
  · obtain ⟨d, hd, hplan⟩ := exists_plan_of_mem_events h
    obtain ⟨rfl, -⟩ := node_of_call_mem_plan hplan
    obtain ⟨m, hm, rfl⟩ := exists_of_visit_mem_modulePlan hc
    exact hd.all (hroot.child hm)

theorem kind_of_call_mem_moduleEvents {root n : Node} (h : .call n ∈ moduleEvents src root) :
    n.kind = .callExpression := by
  rcases exists_step_of_mem_unfoldSteps h with h | ⟨c, -, h⟩
  · exact absurd h ((shaped_modulePlan src root).not_call n)
  · obtain ⟨d, -, hplan⟩ := exists_plan_of_mem_events h
    exact (node_of_call_mem_plan hplan).2

end Events

end HookLint.Scope
