import HookLint.Proofs.Scope.Arrival
import HookLint.Proofs.Scope.Reassignment
import HookLint.Proofs.Scope.Resolution

/-!
# Proofs.Scope.VariableEntries — a variable that is used stays the entry of its name

A later declaration of a name in one scope takes over the entry of an earlier one.  That can happen
to a parameter after it was used: in `function f(a, b = () => a) { var a }` the default value reads
the parameter before the body declares the name again.  It does not happen to a variable
(`Tree.Intact`).

A scope declares in three stages.  First come the own name of a function and its parameters, with
visits in between, but no variable (`Preface`).  Then all the rest is declared in one go, with
nothing used in between.  What follows declares nothing in the scope.  So as long as the table of a
scope can still change, no use means a variable of the scope (`Tree.Untouched`).
-/

namespace HookLint.Scope

open Syntax

/-- Whether a name stands for a variable. -/
def BindingKind.isVariable : BindingKind → Bool
  | .value | .hookResult => true
  | _ => false

/-- There is no variable in a scope. -/
def Store.NoVariables (s : Store) (x : Nat) : Prop :=
  ∀ b ∈ s.bindings, b.scope = x → b.kind.isVariable = false

namespace Tree

/-- No use means a variable of a scope. -/
def Untouched (t : Tree) (x : Nat) : Prop :=
  ∀ u ∈ t.uses, ∀ b, t.bindingOf? u = some b → b.scope = x → b.kind.isVariable = false

/-- A variable that a use means is the last binding of its name in its scope. -/
def Intact (t : Tree) : Prop :=
  ∀ u ∈ t.uses, ∀ b, t.bindingOf? u = some b → b.kind.isVariable = true →
    t.store.Latest b.name b.scope b.id

theorem untouched_of_noVariables {t : Tree} {x : Nat} (h : t.store.NoVariables x) :
    t.Untouched x := by
  intro u _ b hb hscope
  obtain ⟨k, -, hk⟩ := Option.bind_eq_some_iff.mp hb
  exact h b (Array.mem_of_getElem? hk) hscope

/-! ### One event -/

section Step

variable {src : Source} {t : Tree} {x : Nat} {e : Event}

/-- Only a declaration makes a binding. -/
theorem alike_step (src : Source) (t : Tree) (he : ∀ d, e ≠ .declare d) :
    t.store.Alike (t.step src e).store := by
  rcases step_cases src t e with ⟨kind, n, -, heq⟩ | heq | ⟨x, -, hcase⟩
  · rw [heq]
    exact .of_bindings_eq rfl
  · rw [heq]
    exact .of_bindings_eq rfl
  · rcases hcase with ⟨-, heq⟩ | ⟨d, hd, -⟩ | ⟨c, a, -, heq⟩ | ⟨n, -, heq⟩
    · rw [heq]
      exact .of_bindings_eq rfl
    · exact absurd hd (he d)
    · rw [heq]
      show t.store.Alike (t.storeAfterUse src x c a)
      unfold storeAfterUse
      cases (t.useIn src x c a).binding with
      | none => exact .of_bindings_eq rfl
      | some k => exact .noteUse _ _ _ _
    · rw [heq]
      exact .of_bindings_eq rfl

/-- What a use means is the last binding of its name, in the scope where it is found. -/
theorem latest_useIn (h : t.store.Consistent) {c : Cursor} {a : Access} {b : Binding}
    (hb : t.bindingOf? (t.useIn src x c a) = some b) : t.store.Latest b.name b.scope b.id := by
  obtain ⟨k, hk, hbk⟩ := Option.bind_eq_some_iff.mp hb
  have hfound : t.store.resolveFrom (src.textOf c.node) x = some k := hk
  rw [Store.resolveFrom_eq_findSome?] at hfound
  obtain ⟨i, -, hl⟩ := List.exists_of_findSome?_eq_some hfound
  have hlatest := (h.latest _ i k).mp hl
  obtain ⟨b', hb', hname, hscope⟩ := hlatest.declared
  obtain rfl : b' = b := Option.some.inj (hb'.symm.trans hbk)
  rw [h.binding_id hbk, hname, hscope]
  exact hlatest

theorem Intact.step (src : Source) (h : t.Intact) (hc : t.store.Consistent)
    (he : ∀ d, e ≠ .declare d) : (t.step src e).Intact := by
  have halike := alike_step src t he
  -- what is the last binding before the event is the last one after it
  have hkeep : ∀ {u : Use} {b : Binding}, (t.step src e).bindingOf? u = some b →
      (∀ c, t.bindingOf? u = some c → c.kind.isVariable = true →
        t.store.Latest c.name c.scope c.id) →
      b.kind.isVariable = true → (t.step src e).store.Latest b.name b.scope b.id := by
    intro u b hb hlatest hkind
    obtain ⟨k, hk, hbk⟩ := Option.bind_eq_some_iff.mp hb
    obtain ⟨c, hck, hd, hid, hs⟩ := halike.back hbk
    have hcu : t.bindingOf? u = some c := Option.bind_eq_some_iff.mpr ⟨k, hk, hck⟩
    rw [← hd] at hkind ⊢
    rw [← hid, ← hs]
    exact halike.latest (hlatest c hcu hkind)
  intro u hu b hb
  rcases uses_step_cases src t e with heq | ⟨c, a, y, -, -, heq⟩
  · rw [heq] at hu
    exact hkeep hb (h u hu)
  · rw [heq] at hu
    rcases Array.mem_push.mp hu with hu | rfl
    · exact hkeep hb (h u hu)
    · exact hkeep hb fun _ hc' _ => latest_useIn hc hc'

/-- A declaration in a scope none of whose variables is used. -/
theorem Intact.declare (src : Source) (h : t.Intact) (ha : t.Accounted)
    (hx : t.store.current = some x) (hout : t.Untouched x) (d : Declaration) :
    (t.step src (.declare d)).Intact ∧ (t.step src (.declare d)).Untouched x := by
  rw [step_declare src d hx]
  -- the recorded uses mean what they meant
  have hold : ∀ {u : Use} {b : Binding}, u ∈ t.uses →
      bindingOf? { t with store := t.store.declareIn d x } u = some b →
      t.bindingOf? u = some b := by
    intro u b hu hb
    obtain ⟨k, hk, hbk⟩ := Option.bind_eq_some_iff.mp hb
    have hlt := ha.bound u hu k hk
    simp only [binding?, Store.declareIn, Array.getElem?_push] at hbk
    rw [if_neg (by omega)] at hbk
    exact Option.bind_eq_some_iff.mpr ⟨k, hk, hbk⟩
  refine ⟨fun u hu b hb hkind => ?_, fun u hu b hb => hout u hu b (hold hu hb)⟩
  have hb' := hold hu hb
  rw [Store.latest_declareIn_iff, if_neg]
  · exact h u hu b hb' hkind
  · rintro ⟨hscope, -⟩
    rw [hout u hu b hb' hscope.symm] at hkind
    cases hkind

theorem noVariables_step (src : Source) (h : t.store.NoVariables x)
    (he : ∀ d, e = .declare d → t.store.current ≠ some x ∨ d.kind.isVariable = false) :
    (t.step src e).store.NoVariables x := by
  by_cases hdeclare : ∃ d, e = .declare d
  · obtain ⟨d, rfl⟩ := hdeclare
    cases hy : t.store.current with
    | none =>
      rcases step_of_current_none src hy (.declare d) with ⟨_, _, hcase⟩ | heq
      · cases hcase
      · rw [heq]
        exact h
    | some y =>
      rw [step_declare src d hy]
      intro b hb hscope
      simp only [Store.declareIn, Array.mem_push] at hb
      rcases hb with hb | rfl
      · exact h b hb hscope
      · rcases he d rfl with hne | hkind
        · exact absurd (hy.trans (congrArg some hscope)) hne
        · exact hkind
  · have halike := alike_step src t fun d hd => hdeclare ⟨d, hd⟩
    intro b hb hscope
    obtain ⟨k, hk⟩ := Array.mem_iff_getElem?.mp hb
    obtain ⟨c, hc, hd, -, hs⟩ := halike.back hk
    rw [← hd]
    exact h c (Array.mem_of_getElem? hc) (hs.trans hscope)

end Step

/-! ### Nested events -/

/-- Nested events declare no variable in an older scope, if it is not the open one. -/
theorem noVariables_nested (src : Source) {t : Tree} {x : Nat} {b : Bool} {es : List Event}
    (hes : Nested b es) (hx : x < t.store.scopes.size)
    (hopen : b = true → t.store.current ≠ some x) (h : t.store.NoVariables x) :
    (es.foldl (step src) t).store.NoVariables x := by
  induction hes generalizing t with
  | nil => exact h
  | @use b c a _ => exact noVariables_step src (e := .use c a) h (by simp)
  | @call b n => exact noVariables_step src (e := .call n) h (by simp)
  | @declare d =>
    exact noVariables_step src (e := .declare d) h fun _ _ => Or.inl (hopen rfl)
  | @append b es fs hes _ ihs iht =>
    rw [List.foldl_append]
    have hsize := (grows_foldl src t es).size_le
    refine iht (by omega) (fun hb => ?_) (ihs hx hopen h)
    rw [current_nested src hes]
    exact hopen hb
  | @scope b kind n es _ ih =>
    rw [List.foldl_cons, List.foldl_append]
    have henter : (t.step src (.enter kind n)).store.NoVariables x :=
      noVariables_step src h (by simp)
    have hbody := ih (t := t.step src (.enter kind n))
      (by simp only [step, Store.enter, Array.size_push]; omega)
      (fun _ hcur => by
        obtain rfl : t.store.scopes.size = x := Option.some.inj hcur
        exact absurd hx (Nat.lt_irrefl _)) henter
    exact noVariables_step src (e := .leave) hbody (by simp)

end Tree
/-! ### Events that keep the entries of used variables -/

/-- Whatever was used before, the events keep the entries of used variables. -/
def Sparing (src : Source) (es : List Event) : Prop :=
  ∀ t : Tree, t.Accounted → t.Intact → (es.foldl (Tree.step src) t).Intact

section Sparing

variable {src : Source} {es fs : List Event} {s : List Step}

theorem Sparing.append (hes : Sparing src es) (hfs : Sparing src fs) : Sparing src (es ++ fs) := by
  intro t ha hi
  rw [List.foldl_append]
  exact hfs _ (ha.foldl src es) (hes t ha hi)

theorem sparing_singleton {e : Event} (he : ∀ d, e ≠ .declare d) : Sparing src [e] :=
  fun _ ha hi => hi.step src ha.consistent he

/-- Flat steps declare nothing themselves. -/
theorem sparing_flat (h : Flat s) (hv : ∀ d, .visit d ∈ s → Sparing src (events src d)) :
    Sparing src (unfoldSteps src s) := by
  induction s with
  | nil => exact fun _ _ hi => hi
  | cons step s ih =>
    have hrest := ih (fun y hy => h y (List.mem_cons_of_mem _ hy))
      fun d hd => hv d (List.mem_cons_of_mem _ hd)
    cases step with
    | visit d => exact (hv d List.mem_cons_self).append hrest
    | emit e =>
      have hflat := h (.emit e) List.mem_cons_self
      have hfirst : Sparing src [e] := sparing_singleton fun d hd => by
        subst hd
        cases hflat
      exact hfirst.append hrest

end Sparing

/-! ### The stages of a scope -/

/-- Declarations that are no variables, and visits between them. -/
structure Preface (s : List Step) : Prop where
  steps : Declares (fun _ => True) s
  kinds : ∀ d, .emit (.declare d) ∈ s → d.kind.isVariable = false

section Stages

variable {src : Source} {t : Tree} {x : Nat} {s : List Step}

/-- **The first stage.**  The scope has no variable at the end of a preface, and the entries of used
variables are kept, since none of them is in the scope. -/
theorem Preface.run (h : Preface s) (hv : ∀ d, .visit d ∈ s → Sparing src (events src d))
    (ha : t.Accounted) (hi : t.Intact) (hx : t.store.current = some x)
    (hn : t.store.NoVariables x) :
    (t.after src s).Intact ∧ (t.after src s).store.NoVariables x := by
  induction s generalizing t with
  | nil => exact ⟨hi, hn⟩
  | cons step s ih =>
    have hrest : Preface s := ⟨fun y hy => h.steps y (List.mem_cons_of_mem _ hy),
      fun d hd => h.kinds d (List.mem_cons_of_mem _ hd)⟩
    have hv' : ∀ d, .visit d ∈ s → Sparing src (events src d) := fun d hd =>
      hv d (List.mem_cons_of_mem _ hd)
    rcases h.steps step List.mem_cons_self with ⟨d, rfl⟩ | ⟨d, rfl, -⟩
    · have hkind := h.kinds d List.mem_cons_self
      have hcur : (t.step src (.declare d)).store.current = some x := by
        rw [Tree.step_declare src d hx]
        exact hx
      refine ih hrest hv' (ha.step src _) ?_ hcur ?_
      · exact (hi.declare src ha hx (Tree.untouched_of_noVariables hn) d).1
      · exact Tree.noVariables_step src hn fun d' hd => by
          obtain rfl := Event.declare.inj hd
          exact Or.inr hkind
    · have hcur : ((events src d).foldl (Tree.step src) t).store.current = some x := by
        rw [Tree.current_nested src (nested_events src d), hx]
      have hlt : x < t.store.scopes.size := ha.consistent.current_lt hx
      have hnested := Tree.noVariables_nested src (nested_events src d) hlt (by simp) hn
      have happ : t.after src (.visit d :: s) =
          Tree.after src ((events src d).foldl (Tree.step src) t) s := by
        unfold Tree.after
        rw [unfoldSteps_visit, List.foldl_append]
      rw [happ]
      exact ih hrest hv' (ha.foldl src _) (hv d List.mem_cons_self t ha hi) hcur hnested

/-- **The second stage.**  Declarations in one go. -/
theorem intact_declares (ds : List Declaration) (ha : t.Accounted) (hi : t.Intact)
    (hx : t.store.current = some x) (hout : t.Untouched x) :
    (t.after src (declares ds)).Intact := by
  induction ds generalizing t with
  | nil => exact hi
  | cons d ds ih =>
    obtain ⟨hi', hout'⟩ := hi.declare src ha hx hout d
    have hcur : (t.step src (.declare d)).store.current = some x := by
      rw [Tree.step_declare src d hx]
      exact hx
    exact ih (ha.step src _) hi' hcur hout'

/-- A scope that declares in stages keeps the entries of used variables, if the parts that it visits
do. -/
theorem sparing_bracket {kind : ScopeKind} {n : Node} {ds : List Declaration} {rest : List Step}
    (hpreface : Preface s) (hrest : Flat rest)
    (hv : ∀ d, .visit d ∈ s ++ rest → Sparing src (events src d)) :
    Sparing src (unfoldSteps src (bracket kind n (s ++ (declares ds ++ rest)))) := by
  intro t ha hi
  let entered := t.step src (.enter kind n)
  have ha₁ : entered.Accounted := ha.step src (.enter kind n)
  have hi₁ : entered.Intact := hi.step src ha.consistent (by simp)
  -- the scope is new, so nothing is declared in it
  have hnew : entered.store.NoVariables t.store.scopes.size := by
    intro b hb hscope
    obtain ⟨k, hk⟩ := Array.mem_iff_getElem?.mp hb
    have hlt := ha.consistent.scope_lt hk
    omega
  obtain ⟨hi₂, hn₂⟩ := hpreface.run (fun d hd => hv d (List.mem_append_left _ hd)) ha₁ hi₁ rfl hnew
  have ha₂ : (entered.after src s).Accounted := ha₁.foldl src _
  have hcur : (entered.after src s).store.current = some t.store.scopes.size :=
    Tree.current_nested src (hpreface.steps.inner.nested src)
  have hi₃ : ((entered.after src s).after src (declares ds)).Intact :=
    intact_declares ds ha₂ hi₂ hcur (Tree.untouched_of_noVariables hn₂)
  have hi₄ := sparing_flat hrest (fun d hd => hv d (List.mem_append_right _ hd)) _
    (ha₂.foldl src _) hi₃
  have hi₅ := hi₄.step src (((ha₂.foldl src _).foldl src _).consistent) (e := .leave) (by simp)
  rw [unfoldSteps_bracket, List.foldl_cons, List.foldl_append, unfoldSteps_append,
    unfoldSteps_append, List.foldl_append, List.foldl_append]
  exact hi₅

end Stages

/-! ### One step of the walk -/

section Plan

variable {src : Source} {c : Cursor}

theorem Preface.append {s s' : List Step} (h : Preface s) (h' : Preface s') : Preface (s ++ s') :=
  ⟨h.steps.append h'.steps, fun d hd => (List.mem_append.mp hd).elim (h.kinds d) (h'.kinds d)⟩

theorem preface_nil : Preface [] := ⟨.nil, fun _ hd => nomatch hd⟩

theorem preface_parameterSteps (src : Source) (p : Cursor) : Preface (parameterSteps src p) := by
  refine ⟨(declares_parameterSteps src p).mono fun _ _ => trivial, fun d hd => ?_⟩
  obtain ⟨part, -, heq⟩ := List.mem_map.mp hd
  cases part with
  | target name slot =>
    obtain rfl := Event.declare.inj (Step.emit.inj heq)
    rfl
  | expression e => cases heq

theorem preface_ownNameSteps (src : Source) (c : Cursor) : Preface (ownNameSteps src c) := by
  refine ⟨declares_ownNameSteps src c, fun d hd => ?_⟩
  unfold ownNameSteps at hd
  split at hd
  · cases hd
  · cases hd
  · cases hd
  · split at hd
    · obtain rfl := Event.declare.inj (Step.emit.inj (List.mem_singleton.mp hd))
      rfl
    · cases hd

theorem preface_parameterListSteps (src : Source) (c : Cursor) :
    Preface (parameterListSteps src c) := by
  unfold parameterListSteps
  split
  · next params _ =>
    split
    · exact preface_parameterSteps src params
    · refine ⟨fun x hx => ?_, fun d hd => ?_⟩
      · obtain ⟨e, -, hx⟩ := List.mem_flatMap.mp hx
        exact (preface_parameterSteps src e).steps x hx
      · obtain ⟨e, -, hd⟩ := List.mem_flatMap.mp hd
        exact (preface_parameterSteps src e).kinds d hd
  · exact preface_nil

/-- **One step of the walk** is flat, or it opens one scope that declares in stages. -/
theorem plan_flat_or_stages (src : Source) (c : Cursor) : Flat (plan src c) ∨
    ∃ kind before preface ds rest, Flat before ∧ Preface preface ∧ Flat rest ∧
      plan src c = before ++ bracket kind c.node (preface ++ (declares ds ++ rest)) := by
  have hblock : ∀ {ds : List Declaration} {rest : List Step}, Flat rest →
      ∃ kind before preface ds' rest', Flat before ∧ Preface preface ∧ Flat rest' ∧
        bracket .block c.node (declares ds ++ rest) =
          before ++ bracket kind c.node (preface ++ (declares ds' ++ rest')) :=
    fun hr => ⟨.block, [], [], _, _, flat_visits [], preface_nil, hr, rfl⟩
  unfold plan
  split
  · next hr =>
    refine Or.inl fun x hx => ?_
    obtain rfl := List.mem_singleton.mp hx
    exact isName_of_role_name hr
  · refine Or.inr ⟨.function, methodNameSteps c, ownNameSteps src c ++ parameterListSteps src c,
      bodyDeclarations src c, visits (bodyVisits c), flat_methodNameSteps c,
      (preface_ownNameSteps src c).append (preface_parameterListSteps src c), flat_visits _, ?_⟩
    unfold functionPlan
    rw [bodySteps_eq]
  · exact Or.inr (hblock (flat_visits _))
  · exact Or.inr (hblock (flat_visits _))
  · exact Or.inr (hblock
      ((reaches_forIn src c).flat (Shaped.flatMap fun d _ => shaped_forInChild src c d)))
  · refine Or.inr ⟨.block, [], (c.child? .parameter).elim [] (parameterSteps src), [], _,
      flat_visits [], ?_, flat_elim_visit (c.child? .body), rfl⟩
    cases c.child? .parameter with
    | none => exact preface_nil
    | some p => exact preface_parameterSteps src p
  · obtain ⟨ds, cs, heq, -⟩ := classPlan_eq src c
    rw [heq]
    exact Or.inr (hblock (flat_visits cs))
  · exact Or.inl ((reaches_declaration src c).flat
      (Shaped.flatMap fun d _ => shaped_declaratorSteps src d))
  · exact Or.inl ((reaches_assignmentPlan src c).flat (shaped_assignmentPlan src c))
  · exact Or.inl ((reaches_updatePlan c).flat (shaped_updatePlan c))
  · refine Or.inl fun x hx => ?_
    rcases List.mem_cons.mp hx with rfl | hx
    · rfl
    · exact flat_visits _ x hx
  · exact Or.inl ((reaches_tagPlan src c).flat (shaped_tagPlan src c))
  · exact Or.inl (flat_visits [])
  · exact Or.inl (flat_visits _)

end Plan

/-! ### The whole walk -/

theorem sparing_events (src : Source) (c : Cursor) : Sparing src (events src c) := by
  have hv : ∀ d, .visit d ∈ plan src c → Sparing src (events src d) := by
    intro d hd
    have hsize := plan_below d hd
    exact sparing_events src d
  rw [events_eq]
  rcases plan_flat_or_stages src c with
    hflat | ⟨kind, before, preface, ds, rest, hbefore, hpreface, hrest, heq⟩
  · exact sparing_flat hflat hv
  · rw [heq] at hv ⊢
    rw [unfoldSteps_append]
    refine (sparing_flat hbefore fun d hd => hv d (List.mem_append_left _ hd)).append
      (sparing_bracket hpreface hrest fun d hd => hv d (List.mem_append_right _ ?_))
    rcases List.mem_append.mp hd with hd | hd <;> simp [bracket, hd]
termination_by sizeOf c.node

/-- **A variable that is used anywhere in a program is the last binding of its name in its
scope.** -/
theorem intact_ofProgram (src : Source) (root : Node) : (Tree.ofProgram src root).Intact := by
  have hmodule : Sparing src (moduleEvents src root) :=
    sparing_bracket preface_nil (flat_visits _) fun d _ => sparing_events src d
  exact hmodule {} Tree.accounted_empty fun u hu => by simp at hu

end HookLint.Scope
