import HookLint.Proofs.Scope.Arrival
import HookLint.Proofs.Scope.Resolution

/-!
# Proofs.Scope.Hoisting — declarations are in force when the walk comes to them

A declaration is met twice: its region declares it when its scope opens, and the walk visits it
later.  Both descend in their own ways.  A region lists its own statements and what they export
(`Listed`), and the `var` names below it, short of functions and classes (`Owned`).

Where the two agree, the names of a declaration are in the right table when the walk comes to it,
and no use looks past them (`declared_on_arrival`).  They do not agree everywhere: the cases of a
`switch` are no statements of its body, so the block-scoped names of a case are declared nowhere
(`case_declaration_skipped`).
-/

namespace HookLint.Syntax.Cursor

theorem down_inj {p q : Cursor} {m n : Node} (h : p.down m = q.down n) : p = q ∧ m = n := by
  obtain ⟨pn, pa⟩ := p
  obtain ⟨qn, qa⟩ := q
  simp only [down, Cursor.mk.injEq, List.cons.injEq] at h
  obtain ⟨hm, hp, ha⟩ := h
  exact ⟨by rw [hp, ha], hm⟩

theorem down_mem_children {p c : Cursor} {n : Node} (h : p.down n ∈ c.children) : p = c := by
  obtain ⟨m, -, hm⟩ := List.mem_map.mp h
  exact (down_inj hm).1.symm

/-- The last step of a way. -/
theorem Leads.eq_or_parent {P : Kind → Prop} {c p : Cursor} {n : Node} (h : c.Leads P (p.down n)) :
    c = p.down n ∨ c.Leads P p ∧ P p.kind ∧ n ∈ p.node.children := by
  generalize hd : p.down n = d at h
  cases h with
  | refl => exact Or.inl rfl
  | down hq hk hn =>
    obtain ⟨rfl, rfl⟩ := down_inj hd
    exact Or.inr ⟨hq, hk, hn⟩

end HookLint.Syntax.Cursor

namespace HookLint.Scope

open Syntax

/-! ### Which step visits a part -/

section Visits

variable {src : Source} {c d p : Cursor} {n : Node} {s later : List Step}

theorem plan_eq_functionPlan (hd : d.kind.isFunction = true) : plan src d = functionPlan src d := by
  unfold plan
  rw [isFunction_iff_role.mp hd]

theorem mem_bodyVisits (h : c ∈ bodyVisits d) :
    (∃ body, d.child? .body = some body ∧ body.kind = .statementBlock ∧ c ∈ body.children) ∨
      d.child? .body = some c ∧ c.kind ≠ .statementBlock := by
  unfold bodyVisits at h
  split at h
  · next body hb =>
    split at h
    · next hk => exact Or.inl ⟨body, hb, hk, h⟩
    · next hk =>
      obtain rfl := List.mem_singleton.mp h
      exact Or.inr ⟨hb, hk⟩
  · cases h

theorem bodyDeclarations_of_block {body : Cursor} (hb : d.child? .body = some body)
    (hk : body.kind = .statementBlock) :
    bodyDeclarations src d = hoistBlock src body.children ++ hoistVars src body := by
  unfold bodyDeclarations
  rw [hb]
  exact if_pos hk

theorem computedName_of_methodNameSteps (h : .visit c ∈ methodNameSteps d) :
    c ∈ d.children ∧ c.kind = .computedName := by
  unfold methodNameSteps at h
  split at h
  · split at h
    · next name hname =>
      split at h
      · next hk =>
        obtain rfl := Step.visit.inj (List.mem_singleton.mp h)
        exact ⟨Cursor.mem_children_of_child? hname, hk⟩
      · cases h
    · cases h
  · cases h

/-- A function visits the computed name of a method, its parameters, and at last its body. -/
theorem function_split (hd : d.kind.isFunction = true) (h : plan src d = s ++ .visit c :: later) :
    (c ∈ d.children ∧ c.kind = .computedName) ∨ LeadsFromParameters d c ∨
      c ∈ bodyVisits d ∧ ∃ s₁, Flat s₁ ∧
        s = methodNameSteps d ++
          .emit (.enter .function d.node) :: (functionHeads src d ++ s₁) := by
  rw [plan_eq_functionPlan hd, functionPlan_eq] at h
  by_cases hname : .visit c ∈ methodNameSteps d
  · exact Or.inl (computedName_of_methodNameSteps hname)
  · by_cases hheads : .visit c ∈ functionHeads src d
    · rcases declares_functionHeads src d _ hheads with ⟨e, he⟩ | ⟨e, he, hlead⟩
      · cases he
      · obtain rfl := Step.visit.inj he
        exact Or.inr (Or.inl hlead)
    · exact Or.inr (Or.inr (region_split h hname hheads))

/-- What encloses a part that parameters lead to. -/
theorem LeadsFromParameters.parent (h : LeadsFromParameters d (p.down n)) :
    isPassed p.kind = true ∨ (isParameterList p.node = true ∧ p ∈ d.children) ∨
      (p = d ∧ isParameterList n = true) := by
  obtain ⟨params, hparams, hlist, hd | ⟨e, he, hd⟩⟩ := h
  · rcases hd.eq_or_parent with rfl | ⟨-, hk, -⟩
    · exact Or.inr (Or.inr ⟨Cursor.down_mem_children hparams, hlist⟩)
    · exact Or.inl hk
  · rcases hd.eq_or_parent with rfl | ⟨-, hk, -⟩
    · obtain rfl := Cursor.down_mem_children he
      exact Or.inr (Or.inl ⟨hlist, hparams⟩)
    · exact Or.inl hk

/-- Statements are visited by a step of the kind of what encloses them, or by the function whose
body that is. -/
theorem visitor_of_statement (h : plan src d = s ++ .visit (p.down n) :: later)
    (hpass : isPassed p.kind = false) (hlist : isParameterList p.node = false)
    (hp : p.kind.isFunction = false) :
    d.kind = p.kind ∨
      d.child? .body = some p ∧ p.kind = .statementBlock ∧ p.down n ∈ p.children ∧
        ∃ s₁, Flat s₁ ∧ s =
          methodNameSteps d ++ .emit (.enter .function d.node) :: (functionHeads src d ++ s₁) := by
  have hmem : .visit (p.down n) ∈ plan src d := by simp [h]
  cases hd : d.kind.isFunction with
  | false =>
    rcases (spreads_plan_of_not_function src hd _ hmem _ rfl).eq_or_parent with rfl | ⟨-, hk, -⟩
    · exact absurd (plan_below _ hmem) (Nat.lt_irrefl _)
    · rcases hk with hk | hk
      · exact Or.inl hk.symm
      · rw [hpass] at hk
        cases hk
  | true =>
    have hno : p ≠ d := by
      rintro rfl
      rw [hd] at hp
      cases hp
    rcases function_split hd h with ⟨hc, -⟩ | hlead | ⟨hbody, hs⟩
    · exact absurd (Cursor.down_mem_children hc) hno
    · rcases hlead.parent with hk | ⟨hk, -⟩ | ⟨hk, -⟩
      · rw [hpass] at hk
        cases hk
      · rw [hlist] at hk
        cases hk
      · exact absurd hk hno
    · rcases mem_bodyVisits hbody with ⟨body, hb, hk, hc⟩ | ⟨hb, -⟩
      · obtain rfl := Cursor.down_mem_children hc
        exact Or.inr ⟨hb, hk, hc, hs⟩
      · exact absurd (Cursor.down_mem_children (Cursor.mem_children_of_child? hb)) hno

end Visits

/-! ### Block-scoped declarations -/

/-- A statement that the region around it lists: it stands in a block or at the top level, it heads
a loop, or such a statement exports it. -/
inductive Listed : Cursor → Prop where
  | program {root n : Node} : Listed ⟨n, [root]⟩
  | block {p : Cursor} {n : Node} : p.kind = .statementBlock ∨ p.kind = .switchBody →
      isParameterList p.node = false → Listed (p.down n)
  | loop {p : Cursor} {n : Node} : p.kind = .forStatement → isParameterList p.node = false →
      loopHead? p = some (p.down n) → Listed (p.down n)
  | exported {p : Cursor} {n : Node} : p.kind = .exportStatement → isParameterList p.node = false →
      p.node.child? .declaration = some n → Listed p → Listed (p.down n)

section Listed

variable {src : Source} {root : Node} {met : List Event} {c d p : Cursor} {n : Node}
  {s later : List Step}

/-- The names that `ds` declare are in the table of the open scope. -/
def Tree.Declared (t : Tree) (ds : List Declaration) : Prop :=
  ∃ x, t.store.current = some x ∧ ∀ d ∈ ds, (t.store.lookup d.name x).isSome

theorem mem_hoistBlock {cs : List Cursor} {e : Declaration} (hc : c ∈ cs)
    (he : e ∈ hoistStatement src c) : e ∈ hoistBlock src cs := List.mem_flatMap.mpr ⟨c, hc, he⟩

theorem hoistStatement_exported (hk : p.kind = .exportStatement)
    (hn : p.node.child? .declaration = some n) :
    hoistStatement src (p.down n) = hoistStatement src p := by
  have hchild : p.child? .declaration = some (p.down n) := by
    unfold Cursor.child?
    rw [hn]
    rfl
  conv => rhs; rw [hoistStatement, hk]
  simp only
  split
  · next e he =>
    rw [hchild] at he
    rw [Option.some.inj he]
  · next he =>
    rw [hchild] at he
    cases he

/-- After the declarations of a region, its statements are declared. -/
theorem declared_of_region {t : Tree} (hvalid : t.store.Valid) (kind : ScopeKind)
    (before : List Step) {heads rest : List Step} (hheads : Inner heads) (hrest : Flat rest)
    {ds : List Declaration} (hds : ∀ e ∈ ds, .emit (.declare e) ∈ heads) :
    (t.after src (before ++ .emit (.enter kind n) :: (heads ++ rest))).Declared ds := by
  obtain ⟨x, hx, hlookup, -⟩ := Tree.declared_region src hvalid kind n before hheads hrest
  exact ⟨x, hx, fun e he => hlookup e (hds e he)⟩

theorem emit_mem_declares {ds : List Declaration} {e : Declaration} (he : e ∈ ds) :
    .emit (.declare e) ∈ declares ds := List.mem_map.mpr ⟨e, he, rfl⟩

/-- **Listed statements are declared when the walk comes to them.** -/
theorem declared_of_listed (h : Arrives src root met c) (hl : Listed c) :
    (Tree.ofEvents src met).Declared (hoistStatement src c) := by
  induction h with
  | @first s later c h =>
    obtain ⟨hc, s₁, hs₁, rfl⟩ := block_split h
    refine declared_of_region Store.valid_empty .module [] (inner_declares _) hs₁ fun e he => ?_
    exact emit_mem_declares (List.mem_append_left _ (mem_hoistBlock hc he))
  | @next met d c s later hd h ih =>
    rw [Tree.ofEvents_append]
    have hvalid := Tree.valid_ofEvents src met
    cases hl with
    | @program root n =>
      obtain ⟨p, m, hpm, hlead⟩ := exists_parent_of_plan h
      have hnil : p.ancestors = [] := (List.cons.inj (congrArg Cursor.ancestors hpm)).2.symm
      exact absurd hnil (hlead.ancestors_ne_nil hd.ancestors_ne_nil)
    | @block p n hk hlist =>
      have hpass : isPassed p.kind = false := by rcases hk with hk | hk <;> rw [hk] <;> rfl
      have hp : p.kind.isFunction = false := by rcases hk with hk | hk <;> rw [hk] <;> rfl
      rcases visitor_of_statement h hpass hlist hp with
        hd | ⟨hb, hk, hc, s₁, hs₁, rfl⟩
      · have hplan : plan src d = blockPlan src d := by
          unfold plan
          rcases hk with hk | hk <;> rw [hd, hk] <;> rfl
        obtain ⟨hc, s₁, hs₁, rfl⟩ := block_split (hplan ▸ h)
        refine declared_of_region hvalid .block [] (inner_declares _) hs₁ fun e he => ?_
        exact emit_mem_declares (mem_hoistBlock hc he)
      · refine declared_of_region hvalid .function _ (declares_functionHeads src d).inner hs₁
          fun e he => List.mem_append_right _ (emit_mem_declares ?_)
        rw [bodyDeclarations_of_block hb hk]
        exact List.mem_append_left _ (mem_hoistBlock hc he)
    | @loop p n hk hlist hhead =>
      rcases visitor_of_statement h (by rw [hk]; rfl) hlist (by rw [hk]; rfl) with
        hd | ⟨-, hblock, -⟩
      · have hplan : plan src d = forPlan src d := by
          unfold plan
          rw [hd, hk]
          rfl
        obtain ⟨hc, s₁, hs₁, rfl⟩ := block_split (hplan ▸ h)
        obtain rfl := Cursor.down_mem_children hc
        refine declared_of_region hvalid .block [] (inner_declares _) hs₁ fun e he => ?_
        rw [hhead]
        exact emit_mem_declares he
      · rw [hk] at hblock
        cases hblock
    | @exported p n hk hlist hn hp =>
      rcases visitor_of_statement h (by rw [hk]; rfl) hlist (by rw [hk]; rfl) with
        hd | ⟨-, hblock, -⟩
      · have hplan : plan src d = visits d.children := by
          unfold plan
          rw [hd, hk]
          rfl
        have hmem : .visit (p.down n) ∈ visits d.children := by
          rw [← hplan, h]
          simp
        obtain ⟨e, he, heq⟩ := List.mem_map.mp hmem
        obtain rfl := Step.visit.inj heq
        obtain rfl := Cursor.down_mem_children he
        have hflat : Flat s := fun x hx => flat_visits p.children x (by rw [← hplan, h]; simp [hx])
        obtain ⟨x, hx, hlookup⟩ := ih hp
        refine ⟨x, ?_, fun e he => ?_⟩
        · rw [← hx]
          exact Tree.current_nested src (hflat.nested src)
        · rw [hoistStatement_exported hk hn] at he
          exact (Tree.keeps_foldl src _ _).lookup (hlookup e he)
      · rw [hk] at hblock
        cases hblock

end Listed

/-! ### Function-scoped declarations -/

/-- A part whose `var` names belong to the module, or to the function whose body it is in: on the
way out of it, no class comes first. -/
inductive Owned : Cursor → Prop where
  | program {root n : Node} : Owned ⟨n, [root]⟩
  | body {f : Cursor} {n : Node} : f.kind.isFunction = true → isParameterList f.node = false →
      f.node.child? .body = some n → n.kind = .statementBlock → Owned (f.down n)
  | inside {p : Cursor} {n : Node} : closesVars p.kind = false → Owned p → Owned (p.down n)

section Owned

variable {src : Source} {root : Node} {met : List Event} {c d p : Cursor} {n : Node}

theorem closesVars_of_isFunction {k : Kind} (h : k.isFunction = true) : closesVars k = true := by
  unfold closesVars
  rw [h]
  rfl

theorem not_closesVars_of_isPassed {k : Kind} (h : isPassed k = true) : closesVars k = false := by
  cases k <;> first | rfl | cases h

/-- What encloses an owned part, below the top level. -/
theorem Owned.parent (h : Owned (p.down n)) (hp : p.ancestors ≠ []) :
    (p.kind.isFunction = true ∧ isParameterList p.node = false ∧
      p.node.child? .body = some n ∧ n.kind = .statementBlock) ∨
    closesVars p.kind = false ∧ Owned p := by
  generalize hc : p.down n = c at h
  cases h with
  | @program root m =>
    have hnil : p.ancestors = [] := (List.cons.inj (congrArg Cursor.ancestors hc)).2
    exact absurd hnil hp
  | body hf hlist hbody hk =>
    obtain ⟨rfl, rfl⟩ := Cursor.down_inj hc
    exact Or.inl ⟨hf, hlist, hbody, hk⟩
  | inside hk ho =>
    obtain ⟨rfl, rfl⟩ := Cursor.down_inj hc
    exact Or.inr ⟨hk, ho⟩

/-- Ownership goes up a way that passes no function and no class. -/
theorem Owned.of_leads (ho : Owned c) {P : Kind → Prop} (hP : ∀ k, P k → closesVars k = false)
    (h : d.Leads P c) (hd : d.ancestors ≠ []) : Owned d := by
  induction h with
  | refl => exact ho
  | @down p n hlead hk _ ih =>
    rcases ho.parent (hlead.ancestors_ne_nil hd) with ⟨hf, -⟩ | ⟨-, hp⟩
    · have hclosed := hP _ hk
      rw [closesVars_of_isFunction hf] at hclosed
      cases hclosed
    · exact ih hp

/-- What parameters lead to is not owned. -/
theorem LeadsFromParameters.not_owned (h : LeadsFromParameters d c) (hd : d.ancestors ≠ [])
    (hf : d.kind.isFunction = true) : ¬ Owned c := by
  have hup : ∀ {a b : Cursor}, Passes a b → a.ancestors ≠ [] → Owned b → Owned a :=
    fun hab ha hb => hb.of_leads (fun _ hk => not_closesVars_of_isPassed hk) hab ha
  obtain ⟨params, hmem, hlist, hc⟩ := h
  obtain ⟨m, -, rfl⟩ := List.mem_map.mp hmem
  -- the list itself is no body
  have hparams : ¬ Owned (d.down m) := by
    intro ho
    rcases ho.parent hd with ⟨-, -, hbody, -⟩ | ⟨hk, -⟩
    · have hfield := Node.field_of_child? hbody
      rw [Cursor.node_down] at hlist
      unfold isParameterList at hlist
      rw [hfield] at hlist
      cases hlist
    · rw [closesVars_of_isFunction hf] at hk
      cases hk
  intro ho
  rcases hc with hpass | ⟨e, he, hpass⟩
  · exact hparams (hup hpass (List.cons_ne_nil _ _) ho)
  · obtain ⟨k, -, rfl⟩ := List.mem_map.mp he
    rcases (hup hpass (List.cons_ne_nil _ _) ho).parent (List.cons_ne_nil _ _) with
      ⟨-, hno, -⟩ | ⟨-, hp⟩
    · rw [hlist] at hno
      cases hno
    · exact hparams hp

/-- What stands directly in a class is not owned. -/
theorem not_owned_of_class (hclosed : closesVars d.kind = true) (hf : d.kind.isFunction = false)
    (hd : d.ancestors ≠ []) (h : d.Leads (Through d) p) (hk : Through d p.kind) :
    ¬ Owned (p.down n) := by
  induction h generalizing n with
  | refl =>
    intro ho
    rcases ho.parent hd with ⟨hno, -⟩ | ⟨hno, -⟩
    · rw [hf] at hno
      cases hno
    · rw [hclosed] at hno
      cases hno
  | @down q m hlead hq _ ih =>
    intro ho
    rcases ho.parent (List.cons_ne_nil _ _) with ⟨hno, -⟩ | ⟨-, hp⟩
    · rcases hk with hk | hk
      · rw [hk, hf] at hno
        cases hno
      · have hopen := not_closesVars_of_isPassed hk
        rw [closesVars_of_isFunction hno] at hopen
        cases hopen
    · exact ih hq hp

/-- A part contributes to the `var` names of what encloses it. -/
theorem mem_hoistVars_of_child {e : Declaration} (hc : c ∈ d.children)
    (hk : closesVars c.kind = false) (he : e ∈ ownVars src c ++ hoistVars src c) :
    e ∈ hoistVars src d := by
  rw [hoistVars_eq]
  exact List.mem_flatMap.mpr ⟨c, List.mem_filter.mpr ⟨hc, by rw [hk]; rfl⟩, he⟩

theorem mem_hoistVars_of_leads {P : Kind → Prop} (hP : ∀ k, P k → closesVars k = false)
    (h : d.Leads P c) (hk : closesVars c.kind = false) {e : Declaration}
    (he : e ∈ ownVars src c ++ hoistVars src c) : e ∈ ownVars src d ++ hoistVars src d := by
  induction h with
  | refl => exact he
  | @down p n _ hp hn ih =>
    have hmem : p.down n ∈ p.children := List.mem_map_of_mem hn
    exact ih (hP _ hp) (List.mem_append_right _ (mem_hoistVars_of_child hmem hk he))

/-- The names that `ds` declare are in the table of the nearest function or module. -/
def Tree.DeclaredOuter (t : Tree) (ds : List Declaration) : Prop :=
  ∃ x y, t.store.current = some x ∧ t.store.Within x y ∧ ∀ d ∈ ds, (t.store.lookup d.name y).isSome

/-- After its declarations, a function or a module has its `var` names. -/
theorem declaredOuter_of_region {t : Tree} (hvalid : t.store.Valid) {kind : ScopeKind}
    (hkind : kind ≠ .block) (before : List Step) {heads rest : List Step} (hheads : Inner heads)
    (hrest : Flat rest) {ds : List Declaration} (hds : ∀ e ∈ ds, .emit (.declare e) ∈ heads) :
    (t.after src (before ++ .emit (.enter kind n) :: (heads ++ rest))).DeclaredOuter ds := by
  obtain ⟨x, hx, hlookup, hself⟩ := Tree.declared_region src hvalid kind n before hheads hrest
  exact ⟨x, x, hx, hself hkind, fun e he => hlookup e (hds e he)⟩

/-- **Owned `var` names are declared when the walk comes to them.** -/
theorem declaredOuter_of_owned (h : Arrives src root met c) (ho : Owned c)
    (hk : closesVars c.kind = false) :
    (Tree.ofEvents src met).DeclaredOuter (ownVars src c ++ hoistVars src c) := by
  induction h with
  | @first s later c h =>
    obtain ⟨hc, s₁, hs₁, rfl⟩ := block_split h
    have hmodule : ScopeKind.module ≠ .block := by simp
    refine declaredOuter_of_region Store.valid_empty hmodule [] (inner_declares _) hs₁
      fun e he => ?_
    exact emit_mem_declares (List.mem_append_right _ (mem_hoistVars_of_child hc hk he))
  | @next met d c s later hd h ih =>
    rw [Tree.ofEvents_append]
    have houter := hd.ancestors_ne_nil
    have hvalid := Tree.valid_ofEvents src met
    cases hf : d.kind.isFunction with
    | true =>
      -- neither the name nor the parameters nor an expression body are owned
      have hclosed := closesVars_of_isFunction hf
      rcases function_split hf h with ⟨hc, hname⟩ | hlead | ⟨hbody, s₁, hs₁, rfl⟩
      · obtain ⟨m, -, rfl⟩ := List.mem_map.mp hc
        rcases ho.parent houter with ⟨-, -, -, hblock⟩ | ⟨hopen, -⟩
        · cases hblock.symm.trans hname
        · cases hopen.symm.trans hclosed
      · exact absurd ho (hlead.not_owned houter hf)
      · rcases mem_bodyVisits hbody with ⟨body, hb, hblock, hc⟩ | ⟨hb, hblock⟩
        · have hfunction : ScopeKind.function ≠ .block := by simp
          refine declaredOuter_of_region hvalid hfunction _ (declares_functionHeads src d).inner hs₁
            fun e he => List.mem_append_right _ (emit_mem_declares ?_)
          rw [bodyDeclarations_of_block hb hblock]
          exact List.mem_append_right _ (mem_hoistVars_of_child hc hk he)
        · obtain ⟨m, -, rfl⟩ := Option.map_eq_some_iff.mp hb
          rcases ho.parent houter with ⟨-, -, -, hno⟩ | ⟨hopen, -⟩
          · exact absurd hno hblock
          · cases hopen.symm.trans hclosed
    | false =>
      have hmem : .visit c ∈ plan src d := by simp [h]
      have hlead := spreads_plan_of_not_function src hf _ hmem c rfl
      cases hclosed : closesVars d.kind with
      | true =>
        obtain ⟨p, n, rfl, -⟩ := exists_parent_of_plan h
        rcases hlead.eq_or_parent with rfl | ⟨hp, hthrough, -⟩
        · cases hk.symm.trans hclosed
        · exact absurd ho (not_owned_of_class hclosed hf houter hp hthrough)
      | false =>
        have hP : ∀ k, Through d k → closesVars k = false := by
          rintro k (rfl | hpass)
          · exact hclosed
          · exact not_closesVars_of_isPassed hpass
        obtain ⟨w, y, hw, hwithin, hlookup⟩ := ih (ho.of_leads hP hlead houter) hclosed
        obtain ⟨x, hx, hxy⟩ := Tree.within_plan hvalid hw hwithin houter hf h
        refine ⟨x, y, hx, hxy, fun e he => ?_⟩
        exact (Tree.keeps_foldl src _ _).lookup (hlookup e (mem_hoistVars_of_leads hP hlead hk he))

end Owned

/-! ### Uses do not look past a declared name -/

namespace Store

variable {s : Store} {name : String} {y z : Nat}

/-- The chain of a scope on a chain is the rest of that chain. -/
theorem ancestors_suffix {l₁ l₂ : List Nat} (h : s.ancestors z = l₁ ++ y :: l₂) :
    s.ancestors y = y :: l₂ := by
  induction z using Nat.strongRecOn generalizing l₁ with
  | ind z ih =>
    cases l₁ with
    | nil =>
      obtain ⟨rest, hrest⟩ := exists_ancestors_eq_cons s z
      obtain rfl : z = y := by
        rw [hrest] at h
        exact (List.cons.inj h).1
      exact h
    | cons i l₁ =>
      rw [ancestors] at h
      split at h
      · next p _ =>
        split at h
        · next hlt => exact ih p hlt (List.cons.inj h).2
        · simp at h
      · simp at h

/-- A name that the scope `y` has means, inside of `y`, a declaration in `y` or further inside. -/
theorem resolveFrom_inside (hvalid : s.Valid) (hname : (s.lookup name y).isSome)
    (hy : y ∈ s.ancestors z) : ∃ k b, s.resolveFrom name z = some k ∧ s.bindings[k]? = some b ∧
      b.name = name ∧ b.scope ∈ s.ancestors z ∧ y ∈ s.ancestors b.scope := by
  have hsome : (s.resolveFrom name z).isSome := by
    rw [resolveFrom_eq_findSome?]
    exact List.findSome?_isSome_iff.mpr ⟨y, hy, hname⟩
  obtain ⟨k, hk⟩ := Option.isSome_iff_exists.mp hsome
  have hfirst := hk
  rw [resolveFrom_eq_findSome?] at hfirst
  obtain ⟨l₁, i, l₂, hl, hi, hnone⟩ := List.findSome?_eq_some_iff.mp hfirst
  obtain ⟨f, hf, hget⟩ := Option.bind_eq_some_iff.mp hi
  obtain ⟨b, hb, hn, rfl⟩ := hvalid.entry hf hget
  refine ⟨k, b, hk, hb, hn, by simp [hl], ?_⟩
  rw [ancestors_suffix hl]
  rw [hl] at hy
  rcases List.mem_append.mp hy with hy | hy
  · rw [hnone y hy] at hname
    cases hname
  · exact hy

end Store

/-- In the scope `y` and further inside, the use does not look past `y` for the name. -/
def Tree.StopsAt (t : Tree) (name : String) (y : Nat) (u : Use) : Prop :=
  u.name = name → y ∈ t.store.ancestors u.scope →
    ∃ k b, u.binding = some k ∧ t.store.bindings[k]? = some b ∧ b.name = name ∧
      b.scope ∈ t.store.ancestors u.scope ∧ y ∈ t.store.ancestors b.scope

section Uses

variable {src : Source} {root : Node} {t : Tree} {es met : List Event} {c : Cursor} {u : Use}
  {name : String} {y : Nat}

/-- A use that is met after a name was declared stops there. -/
theorem stopsAt_of_meets (hvalid : t.store.Valid) (hname : (t.store.lookup name y).isSome)
    (hu : t.Meets src es u) : (es.foldl (Tree.step src) t).StopsAt name y u := by
  obtain ⟨before, after, c, a, x, rfl, hcur, rfl⟩ := hu
  have hvalid₁ : (before.foldl (Tree.step src) t).store.Valid := Tree.valid_foldl hvalid before
  have hname₁ := (Tree.keeps_foldl src t before).lookup hname
  rw [List.foldl_append]
  generalize before.foldl (Tree.step src) t = now at hcur hvalid₁ hname₁ ⊢
  have hgrows := Tree.grows_foldl src now (.use c a :: after)
  have hchain := hgrows.ancestors (hvalid₁.current_lt hcur)
  intro heq hy
  replace hy : y ∈ now.store.ancestors x := hchain ▸ hy
  obtain ⟨k, b, hk, hb, hn, hscope, hinside⟩ := Store.resolveFrom_inside hvalid₁ hname₁ hy
  obtain ⟨b', hb', hn', hscope'⟩ := hgrows.binding hb
  have hbinding : (now.useIn src x c a).binding = some k := by
    rw [← hk, ← heq]
    rfl
  refine ⟨k, b', hbinding, hb', hn'.trans hn, ?_, ?_⟩
  · rw [hscope']
    exact hchain.symm ▸ hscope
  · rw [hscope', hgrows.ancestors (hvalid₁.scope_lt hb)]
    exact hinside

/-- A use outside of parameters stops at every name of the finished tables. -/
theorem stopsAt_of_final (hu : u ∈ (Tree.ofProgram src root).uses)
    (hparam : inParameters u.cursor = false)
    (hname : ((Tree.ofProgram src root).store.lookup name y).isSome) :
    (Tree.ofProgram src root).StopsAt name y u := by
  rintro rfl hy
  rw [binding_eq_resolveFrom hu hparam]
  exact Store.resolveFrom_inside (Tree.valid_ofProgram src root) hname hy

/-- Once a name is declared, later uses stop there, and so do all uses outside of parameters. -/
theorem stopsAt_of_declared (h : Arrives src root met c)
    (hname : ((Tree.ofEvents src met).store.lookup name y).isSome)
    (hu : u ∈ (Tree.ofProgram src root).uses.toList.drop (Tree.ofEvents src met).uses.size ∨
      u ∈ (Tree.ofProgram src root).uses ∧ inParameters u.cursor = false) :
    (Tree.ofProgram src root).StopsAt name y u := by
  obtain ⟨rest, hevents⟩ := h.exists_moduleEvents
  have hrun : Tree.ofProgram src root =
      (events src c ++ rest).foldl (Tree.step src) (Tree.ofEvents src met) := by
    unfold Tree.ofProgram Tree.ofEvents
    rw [hevents, List.foldl_append]
  rcases hu with hu | ⟨hu, hparam⟩
  · obtain ⟨recorded, hrecorded, hmeets⟩ :=
      Tree.exists_met_uses src (Tree.ofEvents src met) (events src c ++ rest)
    rw [hrun, hrecorded, ← Array.length_toList, List.drop_left] at hu
    rw [hrun]
    exact stopsAt_of_meets (Tree.valid_ofEvents src met) hname (hmeets u hu)
  · refine stopsAt_of_final hu hparam ?_
    rw [hrun]
    exact (Tree.keeps_foldl src _ _).lookup hname

end Uses

/-! ### Declarations on arrival -/

/-- The names that a pattern binds. -/
def patternNames (src : Source) (pattern : Cursor) : List String :=
  (parts src pattern none).filterMap fun
    | .target name _ => some (src.textOf name.node)
    | .expression _ => none

/-- The names that the declarators of a variable declaration bind. -/
def boundNames (src : Source) (declaration : Cursor) : List String :=
  (declaration.namedChildren.filter fun d => d.kind = .variableDeclarator).flatMap fun d =>
    (d.child? .name).elim [] (patternNames src)

section Arrival

variable {src : Source} {root : Node} {met : List Event} {c : Cursor} {name : String}

theorem exists_mem_declarePattern {pattern : Cursor} (h : name ∈ patternNames src pattern)
    (kind : BindingKind) (keyword : Option Keyword) (init : Option Node) (node : Node) :
    ∃ e ∈ declarePattern src pattern kind keyword init node, e.name = name := by
  obtain ⟨q, hq, hname⟩ := List.mem_filterMap.mp h
  cases q with
  | expression e => cases hname
  | target n slot =>
    obtain rfl := Option.some.inj hname
    exact ⟨_, List.mem_filterMap.mpr ⟨_, hq, rfl⟩, rfl⟩

/-- Every bound name is hoisted. -/
theorem exists_mem_hoistDeclarators (h : name ∈ boundNames src c) (keyword : Keyword) :
    ∃ e ∈ hoistDeclarators src c keyword, e.name = name := by
  obtain ⟨d, hd, hname⟩ := List.mem_flatMap.mp h
  obtain ⟨hmem, hk⟩ := List.mem_filter.mp hd
  cases hp : d.child? .name with
  | none =>
    rw [hp] at hname
    cases hname
  | some pattern =>
    rw [hp] at hname
    obtain ⟨e, he, hn⟩ := exists_mem_declarePattern hname (initialKind src (d.child? .value))
      (some keyword) ((d.child? .value).map (·.node)) d.node
    refine ⟨e, List.mem_flatMap.mpr ⟨d, hmem, ?_⟩, hn⟩
    rw [if_pos (of_decide_eq_true hk), hp]
    exact he

theorem lookup_of_listed (h : Arrives src root met c) (hk : c.kind = .lexicalDeclaration)
    (hl : Listed c) {x : Nat} (hx : (Tree.ofEvents src met).store.current = some x)
    (hname : name ∈ boundNames src c) :
    ((Tree.ofEvents src met).store.lookup name x).isSome := by
  obtain ⟨x', hx', hlookup⟩ := declared_of_listed h hl
  obtain rfl : x' = x := Option.some.inj (hx'.symm.trans hx)
  have hhoist : hoistStatement src c =
      hoistDeclarators src c ((keyword? c.node).getD .letWord) := by rw [hoistStatement, hk]
  obtain ⟨e, he, rfl⟩ := exists_mem_hoistDeclarators hname ((keyword? c.node).getD .letWord)
  exact hlookup e (by rw [hhoist]; exact he)

theorem lookup_of_owned (h : Arrives src root met c) (hk : c.kind = .variableDeclaration)
    (ho : Owned c) {x : Nat} (hx : (Tree.ofEvents src met).store.current = some x)
    (hname : name ∈ boundNames src c) :
    ((Tree.ofEvents src met).store.lookup name
      ((Tree.ofEvents src met).store.component x)).isSome := by
  obtain ⟨x', y, hx', hwithin, hlookup⟩ := declaredOuter_of_owned h ho (by rw [hk]; rfl)
  obtain rfl : x' = x := Option.some.inj (hx'.symm.trans hx)
  have hown : ownVars src c = hoistDeclarators src c .varWord := by
    unfold ownVars
    rw [hk]
  obtain ⟨e, he, rfl⟩ := exists_mem_hoistDeclarators hname .varWord
  rw [hwithin.component_eq]
  exact hlookup e (List.mem_append_left _ (by rw [hown]; exact he))

/-- **Declarations are in force on arrival.**  When the walk comes to a block-scoped declaration
that its region lists, its names are in the table of the open scope; when it comes to a `var`
declaration that is owned, they are in the table of the nearest function or module.  From then on no
use looks past that table for them, and outside of parameters no use of the program does. -/
theorem declared_on_arrival (h : Arrives src root met c) :
    let t := Tree.ofEvents src met
    let program := Tree.ofProgram src root
    ∃ x, t.store.current = some x ∧ ∀ name ∈ boundNames src c, ∀ y,
      (c.kind = .lexicalDeclaration ∧ Listed c ∧ y = x ∨
        c.kind = .variableDeclaration ∧ Owned c ∧ y = t.store.component x) →
      (t.store.lookup name y).isSome ∧
      ∀ u, (u ∈ program.uses.toList.drop t.uses.size ∨
          u ∈ program.uses ∧ inParameters u.cursor = false) → program.StopsAt name y u := by
  intro t program
  obtain ⟨x, hx⟩ := h.exists_current
  refine ⟨x, hx, fun name hname y hcase => ?_⟩
  have hlookup : (t.store.lookup name y).isSome := by
    rcases hcase with ⟨hk, hl, rfl⟩ | ⟨hk, ho, rfl⟩
    · exact lookup_of_listed h hk hl hx hname
    · exact lookup_of_owned h hk ho hx hname
  exact ⟨hlookup, fun u hu => stopsAt_of_declared h hlookup hu⟩

/-- Where a region comes to one of its statements. -/
theorem bracket_visits (kind : ScopeKind) (n : Node) (ds : List Declaration) (l r : List Cursor)
    (c : Cursor) : bracket kind n (declares ds ++ visits (l ++ c :: r)) =
      (.emit (.enter kind n) :: (declares ds ++ visits l)) ++
        .visit c :: (visits r ++ [.emit .leave]) := by
  simp [bracket, visits]

/-- The second declaration of `let a;{a;let a}`, which the block declares when it opens. -/
def shadowInner : Cursor :=
  ⟨shadowDeclaration 9 14, [shadowBlock, shadowProgram]⟩

theorem declared_on_arrival_shadow : ∃ met, Arrives shadowText shadowProgram met shadowInner ∧
    Listed shadowInner ∧
    ∃ x, (Tree.ofEvents shadowText met).store.current = some x ∧
      ((Tree.ofEvents shadowText met).store.lookup "a" x).isSome := by
  have hblock : Arrives shadowText shadowProgram _ ⟨shadowBlock, [shadowProgram]⟩ :=
    .first (bracket_visits .module shadowProgram _ [⟨shadowDeclaration 0 6, [shadowProgram]⟩] []
      ⟨shadowBlock, [shadowProgram]⟩)
  have harrives : Arrives shadowText shadowProgram _ shadowInner :=
    .next hblock (bracket_visits .block shadowBlock _
      [⟨tokenAt "\x7b" 6, [shadowBlock, shadowProgram]⟩, ⟨shadowUse, [shadowBlock, shadowProgram]⟩]
      [⟨tokenAt "\x7d" 14, [shadowBlock, shadowProgram]⟩] shadowInner)
  have hlisted : Listed shadowInner := .block (p := ⟨shadowBlock, [shadowProgram]⟩) (Or.inl rfl) rfl
  have hname : "a" ∈ boundNames shadowText shadowInner := by decide +kernel
  obtain ⟨x, hx, hdeclared⟩ := declared_on_arrival harrives
  exact ⟨_, harrives, hlisted, x, hx, (hdeclared "a" hname x (Or.inl ⟨rfl, hlisted, rfl⟩)).1⟩

/-! ### Where declaring and visiting differ -/

/-- A case that declares a name of its own: `let a;switch(0){case 0:let a;a}`. -/
def caseText : Source := ⟨"let a;switch(0)\x7bcase 0:let a;a\x7d"⟩

def caseDeclaration : Node := { shadowDeclaration 23 29 with field := some .body }

def caseLabel : Node := { kind := .number, field := some .value, start := 21, stop := 22 }

def caseRead : Node :=
  { kind := .other "expression_statement", start := 29, stop := 30
    children := [{ kind := .identifier, start := 29, stop := 30 }] }

def caseNode : Node :=
  { kind := .other "switch_case", start := 16, stop := 30
    children := [tokenAt "case" 16, caseLabel, tokenAt ":" 22, caseDeclaration, caseRead] }

def caseBody : Node :=
  { kind := .switchBody, field := some .body, start := 15, stop := 31
    children := [tokenAt "\x7b" 15, caseNode, tokenAt "\x7d" 30] }

def caseValue : Node :=
  { kind := .parenthesized, field := some .value, start := 12, stop := 15
    children := [tokenAt "(" 12, { kind := .number, start := 13, stop := 14 }, tokenAt ")" 14] }

def caseSwitch : Node :=
  { kind := .other "switch_statement", start := 6, stop := 31
    children := [tokenAt "switch" 6, caseValue, caseBody] }

def caseProgram : Node :=
  { kind := .other "program", start := 0, stop := 31
    children := [shadowDeclaration 0 6, caseSwitch] }

/-- **The declarations of a case are declared nowhere.**  The body of a `switch` lists its cases and
not the statements in them.  So when the walk comes to the declaration in the case, the open scope
does not have its name, and the use after it means the outer declaration, the first one. -/
theorem case_declaration_skipped : ∃ met c, Arrives caseText caseProgram met c ∧
    c.kind = .lexicalDeclaration ∧ "a" ∈ boundNames caseText c ∧
    (∃ x, (Tree.ofEvents caseText met).store.current = some x ∧
      (Tree.ofEvents caseText met).store.lookup "a" x = none) ∧
    ∃ u ∈ (Tree.ofProgram caseText caseProgram).uses, u.name = "a" ∧ u.node.start = 29 ∧
      u.binding = some 0 := by
  let switchAt : Cursor := ⟨caseSwitch, [caseProgram]⟩
  let bodyAt := switchAt.down caseBody
  let caseAt := bodyAt.down caseNode
  have hswitch : Arrives caseText caseProgram _ switchAt :=
    .first (bracket_visits .module caseProgram _ [⟨shadowDeclaration 0 6, [caseProgram]⟩] []
      switchAt)
  have hswitchPlan : plan caseText switchAt =
      visits [switchAt.down (tokenAt "switch" 6), switchAt.down caseValue] ++
        .visit bodyAt :: [] := rfl
  have hcase : Arrives caseText caseProgram _ caseAt :=
    .next (.next hswitch hswitchPlan) (bracket_visits .block caseBody _
      [bodyAt.down (tokenAt "\x7b" 15)] [bodyAt.down (tokenAt "\x7d" 30)] caseAt)
  have hcasePlan : plan caseText caseAt =
      visits [caseAt.down (tokenAt "case" 16), caseAt.down caseLabel,
        caseAt.down (tokenAt ":" 22)] ++
        .visit (caseAt.down caseDeclaration) :: [.visit (caseAt.down caseRead)] := rfl
  have harrives := Arrives.next hcase hcasePlan
  have huse : (Tree.ofProgram caseText caseProgram).uses.any (fun u =>
      decide (u.name = "a") && decide (u.node.start = 29) &&
        decide (u.binding = some 0)) = true := by decide +kernel
  refine ⟨_, _, harrives, rfl, by decide +kernel, ⟨1, by decide +kernel, by decide +kernel⟩, ?_⟩
  obtain ⟨i, hi, hu⟩ := Array.any_eq_true.mp huse
  simp only [Bool.and_eq_true, decide_eq_true_eq] at hu
  exact ⟨_, Array.getElem_mem hi, hu.1.1, hu.1.2, hu.2⟩

end Arrival

end HookLint.Scope
