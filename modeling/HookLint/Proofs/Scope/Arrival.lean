import HookLint.Proofs.Scope.Frame
import HookLint.Proofs.Scope.Region

/-!
# Proofs.Scope.Arrival — what is open when the walk comes to a part

`Arrives src root met c` says that the walk of a program comes to the part `c` after the events
`met`.  One step of the walk leads from a part to the next: the open scope stays the same, or it is
the scope of the step, which has its declarations then (`Tree.declared_region`).

What was declared stays declared, in scopes that keep their kinds (`Store.Keeps`), so what holds of
the tables at one arrival still holds at the next.
-/

namespace HookLint.Scope

open Syntax

/-! ### What is declared stays declared -/

namespace Store

/-- Scopes keep their kinds, and the names that their tables have. -/
structure Keeps (s t : Store) : Prop where
  frame : ∀ {i : Nat} {f : Frame}, s.scopes[i]? = some f →
    ∃ g, t.scopes[i]? = some g ∧ g.kind = f.kind ∧
      ∀ name, (Assoc.get? f.names name).isSome → (Assoc.get? g.names name).isSome

namespace Keeps

variable {s t r : Store}

theorem refl (s : Store) : Keeps s s := ⟨fun h => ⟨_, h, rfl, fun _ h => h⟩⟩

theorem trans (h₁ : Keeps s t) (h₂ : Keeps t r) : Keeps s r := by
  refine ⟨fun hf => ?_⟩
  obtain ⟨g, hg, hkind, hnames⟩ := h₁.frame hf
  obtain ⟨k, hk, hkind', hnames'⟩ := h₂.frame hg
  exact ⟨k, hk, hkind'.trans hkind, fun name h => hnames' name (hnames name h)⟩

theorem enter (s : Store) (kind : ScopeKind) (n : Node) : Keeps s (s.enter kind n) := by
  refine ⟨fun {i f} hf => ⟨f, ?_, rfl, fun _ h => h⟩⟩
  have hlt := lt_of_getElem? hf
  simp only [Store.enter, Array.getElem?_push]
  rw [if_neg (by omega), hf]

theorem declareIn (s : Store) (d : Declaration) (scope : Nat) : Keeps s (s.declareIn d scope) := by
  refine ⟨fun {i f} hf => ?_⟩
  simp only [Store.declareIn, Array.getElem?_modify, hf]
  split
  · refine ⟨_, rfl, rfl, fun name h => ?_⟩
    rw [Assoc.get?_put]
    split
    · rfl
    · exact h
  · exact ⟨_, rfl, rfl, fun _ h => h⟩

theorem of_scopes_eq (h : t.scopes = s.scopes) : Keeps s t :=
  ⟨fun {_ f} hf => ⟨f, by rw [h]; exact hf, rfl, fun _ h => h⟩⟩

theorem lookup (h : Keeps s t) {name : String} {i : Nat} (hi : (s.lookup name i).isSome) :
    (t.lookup name i).isSome := by
  obtain ⟨k, hk⟩ := Option.isSome_iff_exists.mp hi
  obtain ⟨f, hf, hget⟩ := Option.bind_eq_some_iff.mp hk
  obtain ⟨g, hg, -, hnames⟩ := h.frame hf
  unfold Store.lookup
  rw [hg]
  exact hnames name (by rw [hget]; rfl)

theorem isComponent (h : Keeps s t) {i : Nat} (hi : i < s.scopes.size) :
    t.isComponent i = s.isComponent i := by
  obtain ⟨f, hf⟩ := exists_getElem? hi
  obtain ⟨g, hg, hkind, -⟩ := h.frame hf
  unfold Store.isComponent
  rw [hf, hg]
  simp only [hkind]

end Keeps

/-- A declaration puts its name into the table. -/
theorem lookup_declareIn (s : Store) (d : Declaration) {x : Nat} (hx : x < s.scopes.size) :
    ((s.declareIn d x).lookup d.name x).isSome := by
  obtain ⟨f, hf⟩ := exists_getElem? hx
  simp [lookup, declareIn, Array.getElem?_modify, hf]

end Store

namespace Tree

variable {src : Source} {t : Tree}

theorem keeps_step (src : Source) (t : Tree) (e : Event) : t.store.Keeps (t.step src e).store := by
  rcases step_cases src t e with ⟨kind, n, -, heq⟩ | heq | ⟨x, -, hcase⟩
  · rw [heq]
    exact Store.Keeps.enter _ _ _
  · rw [heq]
    exact Store.Keeps.refl _
  · rcases hcase with ⟨-, heq⟩ | ⟨d, -, heq⟩ | ⟨c, a, -, heq⟩ | ⟨n, -, heq⟩
    · rw [heq]
      exact Store.Keeps.of_scopes_eq rfl
    · rw [heq]
      exact Store.Keeps.declareIn _ _ _
    · rw [heq]
      exact Store.Keeps.of_scopes_eq (scopes_storeAfterUse src t x c a).1
    · rw [heq]
      exact Store.Keeps.refl _

theorem keeps_foldl (src : Source) (t : Tree) (es : List Event) :
    t.store.Keeps (es.foldl (step src) t).store := by
  induction es generalizing t with
  | nil => exact Store.Keeps.refl _
  | cons e es ih => exact (keeps_step src t e).trans (ih _)

/-- At the end of nested events, the same scope is open as at the beginning. -/
theorem current_nested (src : Source) {b : Bool} {es : List Event} (hes : Nested b es) :
    (es.foldl (step src) t).store.current = t.store.current :=
  (scopes_nested src hes (Nat.zero_le _) fun _ _ _ => Nat.zero_le _).2

/-- The tree after the events of steps. -/
def after (src : Source) (t : Tree) (s : List Step) : Tree := (unfoldSteps src s).foldl (step src) t

theorem after_append (src : Source) (t : Tree) (s₁ s₂ : List Step) :
    t.after src (s₁ ++ s₂) = (t.after src s₁).after src s₂ := by
  unfold after
  rw [unfoldSteps_append, List.foldl_append]

theorem after_emit (src : Source) (t : Tree) (e : Event) (s : List Step) :
    t.after src (.emit e :: s) = (t.step src e).after src s := rfl

/-- What steps declare is in the table of the open scope after them. -/
theorem lookup_declares (src : Source) {s : List Step} (hs : Inner s) {x : Nat}
    (hcur : t.store.current = some x) (hvalid : t.store.Valid) {d : Declaration}
    (hd : .emit (.declare d) ∈ s) : ((t.after src s).store.lookup d.name x).isSome := by
  obtain ⟨s₁, s₂, rfl⟩ := List.append_of_mem hd
  have hfirst : Inner s₁ := fun y hy => hs y (List.mem_append_left _ hy)
  have hcur₁ : (t.after src s₁).store.current = some x := by
    rw [← hcur]
    exact current_nested src (hfirst.nested src)
  have hlt : x < (t.after src s₁).store.scopes.size := (valid_foldl hvalid _).current_lt hcur₁
  have hdeclared : (((t.after src s₁).step src (.declare d)).store.lookup d.name x).isSome := by
    rw [step_declare src d hcur₁]
    exact Store.lookup_declareIn _ d hlt
  rw [after_append, after_emit]
  exact (keeps_foldl src _ _).lookup hdeclared

end Tree

/-! ### The nearest function or module -/

namespace Store

/-- The nearest function or module around the scope `x` is `y`. -/
def Within (s : Store) (x y : Nat) : Prop := (s.ancestors x).find? s.isComponent = some y

section Within

variable {s t : Store} {x y : Nat}

theorem Within.component_eq (h : s.Within x y) : s.component x = y := by
  unfold component
  rw [h]
  rfl

theorem Within.mono (h : s.Within x y) (hgrows : s.Grows t) (hkeeps : s.Keeps t)
    (hx : x < s.scopes.size) : t.Within x y := by
  have hsame : ∀ i ∈ s.ancestors x, t.isComponent i = s.isComponent i := by
    intro i hi
    have hle := le_of_mem_ancestors hi
    exact hkeeps.isComponent (by omega)
  unfold Within at h ⊢
  rw [hgrows.ancestors hx, ← List.head?_filter, List.filter_congr hsame, List.head?_filter, h]

theorem exists_ancestors_eq_cons (s : Store) (x : Nat) : ∃ rest, s.ancestors x = x :: rest := by
  rw [ancestors]
  split
  · split
    · exact ⟨_, rfl⟩
    · exact ⟨_, rfl⟩
  · exact ⟨_, rfl⟩

/-- A function or module is the nearest one to itself. -/
theorem within_self (h : s.isComponent x = true) : s.Within x x := by
  obtain ⟨rest, hrest⟩ := exists_ancestors_eq_cons s x
  unfold Within
  rw [hrest, List.find?_cons_of_pos h]

theorem isComponent_enter (s : Store) (kind : ScopeKind) (n : Node) :
    (s.enter kind n).isComponent s.scopes.size = (kind = .function || kind = .module) := by
  simp [isComponent, enter]

/-- A block is within what it is opened in. -/
theorem Within.enter (h : s.Within x y) (hvalid : s.Valid) (hcur : s.current = some x) (n : Node) :
    (s.enter .block n).Within s.scopes.size y := by
  have hnot : (s.enter .block n).isComponent s.scopes.size = false := isComponent_enter s .block n
  unfold Within
  rw [ancestors_enter hvalid hcur, List.find?_cons_of_neg (by rw [hnot]; exact Bool.false_ne_true)]
  have hsame := h.mono (Grows.enter s .block n) (Keeps.enter s .block n) (hvalid.current_lt hcur)
  unfold Within at hsame
  rwa [(Grows.enter s .block n).ancestors (hvalid.current_lt hcur)] at hsame

end Within

end Store

/-! ### The scope of a step -/

section Split

variable {src : Source} {kind : ScopeKind} {n : Node} {c d : Cursor}
  {before heads body rest s later : List Step}

theorem bracket_split (h : bracket kind n body = s ++ .visit c :: later) :
    ∃ s₁ s₂, s = .emit (.enter kind n) :: s₁ ∧ body = s₁ ++ .visit c :: s₂ := by
  cases s with
  | nil => cases h
  | cons x s =>
    obtain ⟨rfl, hrest⟩ := List.cons.inj h
    have happ : body ++ [.emit .leave] = s ++ .visit c :: later := hrest
    rcases append_cons_cases happ with ⟨m, hm, -⟩ | ⟨m, -, hm⟩
    · exact ⟨s, m, rfl, hm⟩
    · have hmem : Step.visit c ∈ [Step.emit .leave] := by simp [hm]
      cases List.mem_singleton.mp hmem

/-- What a step did before it comes to a part: it opened no scope, or its own. -/
theorem plan_split (houter : d.ancestors ≠ []) (h : plan src d = s ++ .visit c :: later) :
    Flat s ∨ ∃ kind before inner, Flat before ∧ Inner inner ∧
      (d.kind.isFunction = false → kind = .block) ∧
      s = before ++ .emit (.enter kind d.node) :: inner := by
  rcases plan_flat_or_region src houter with hflat | ⟨kind, before, heads, rest, hr, hkind, heq⟩
  · exact Or.inl fun x hx => hflat x (by simp [h, hx])
  · rw [heq] at h
    rcases append_cons_cases h with ⟨m, hm, -⟩ | ⟨m, rfl, hm⟩
    · exact Or.inl fun x hx => hr.before x (by simp [hm, hx])
    · obtain ⟨s₁, s₂, rfl, hbody⟩ := bracket_split hm
      have hinner : Inner s₁ := fun x hx =>
        (hr.heads.inner.append hr.rest.inner) x (by simp [hbody, hx])
      exact Or.inr ⟨kind, before, s₁, hr.before, hinner, hkind, rfl⟩

/-- A part that is visited after the declarations of a scope. -/
theorem region_split {cs : List Cursor}
    (h : before ++ bracket kind n (heads ++ visits cs) = s ++ .visit c :: later)
    (hbefore : .visit c ∉ before) (hheads : .visit c ∉ heads) :
    c ∈ cs ∧ ∃ s₁, Flat s₁ ∧ s = before ++ .emit (.enter kind n) :: (heads ++ s₁) := by
  rcases append_cons_cases h with ⟨m, rfl, -⟩ | ⟨m, rfl, hm⟩
  · simp at hbefore
  · obtain ⟨s₁, s₂, rfl, hbody⟩ := bracket_split hm
    rcases append_cons_cases hbody with ⟨m, rfl, -⟩ | ⟨m, rfl, hrest⟩
    · simp at hheads
    · refine ⟨?_, m, fun x hx => flat_visits cs x (by simp [hrest, hx]), rfl⟩
      have hmem : .visit c ∈ visits cs := by simp [hrest]
      obtain ⟨e, he, heq⟩ := List.mem_map.mp hmem
      exact Step.visit.inj heq ▸ he

theorem visit_notMem_declares (c : Cursor) (ds : List Declaration) : .visit c ∉ declares ds := by
  intro h
  obtain ⟨d, -, hd⟩ := List.mem_map.mp h
  cases hd

/-- A part of a region without parameters. -/
theorem block_split {cs : List Cursor} {ds : List Declaration}
    (h : bracket kind n (declares ds ++ visits cs) = s ++ .visit c :: later) :
    c ∈ cs ∧ ∃ s₁, Flat s₁ ∧ s = .emit (.enter kind n) :: (declares ds ++ s₁) := by
  have happ : [] ++ bracket kind n (declares ds ++ visits cs) = s ++ .visit c :: later := h
  exact region_split happ List.not_mem_nil (visit_notMem_declares c ds)

end Split

namespace Tree

variable {src : Source} {t : Tree} {w y : Nat} {heads inner rest : List Step}

/-- After steps inside of a scope, it is open. -/
theorem current_inner (src : Source) (t : Tree) (kind : ScopeKind) (n : Node) (h : Inner inner) :
    (t.after src (.emit (.enter kind n) :: inner)).store.current = some t.store.scopes.size := by
  rw [after_emit]
  exact current_nested src (h.nested src)

theorem within_after (src : Source) (hvalid : t.store.Valid) (hcur : t.store.current = some w)
    (hw : t.store.Within w y) (s : List Step) : (t.after src s).store.Within w y :=
  hw.mono (grows_foldl src t _) (keeps_foldl src t _) (hvalid.current_lt hcur)

/-- **One step out of functions.**  On the way to a part, the nearest function or module stays the
same. -/
theorem within_plan (hvalid : t.store.Valid) (hcur : t.store.current = some w)
    (hw : t.store.Within w y) {c d : Cursor} {s later : List Step} (houter : d.ancestors ≠ [])
    (hd : d.kind.isFunction = false) (h : plan src d = s ++ .visit c :: later) :
    ∃ x, (t.after src s).store.current = some x ∧ (t.after src s).store.Within x y := by
  rcases plan_split houter h with hflat | ⟨kind, before, inner, hbefore, hinner, hkind, rfl⟩
  · refine ⟨w, ?_, within_after src hvalid hcur hw s⟩
    rw [← hcur]
    exact current_nested src (hflat.nested src)
  · obtain rfl := hkind hd
    have hvalid₁ : (t.after src before).store.Valid := valid_foldl hvalid _
    have hcur₁ : (t.after src before).store.current = some w := by
      rw [← hcur]
      exact current_nested src (hbefore.nested src)
    have henter := (within_after src hvalid hcur hw before).enter hvalid₁ hcur₁ d.node
    rw [after_append]
    refine ⟨_, current_inner src _ .block d.node hinner, ?_⟩
    rw [after_emit]
    exact within_after src (hvalid₁.enter .block d.node) rfl henter inner

/-- **The tables of a region.**  After its declarations, the scope of a region is open and its table
has all their names. -/
theorem declared_region (src : Source) (hvalid : t.store.Valid) (kind : ScopeKind) (n : Node)
    (before : List Step) (hheads : Inner heads) (hrest : Flat rest) :
    let now := t.after src (before ++ .emit (.enter kind n) :: (heads ++ rest))
    ∃ x, now.store.current = some x ∧
      (∀ d, .emit (.declare d) ∈ heads → (now.store.lookup d.name x).isSome) ∧
      (kind ≠ .block → now.store.Within x x) := by
  intro now
  let start := t.after src before
  have hvalid₁ : (start.store.enter kind n).Valid := (valid_foldl hvalid _).enter kind n
  have hnow : now = ((start.step src (.enter kind n)).after src heads).after src rest := by
    rw [← after_append, ← after_emit, ← after_append]
  refine ⟨start.store.scopes.size, ?_, fun d hd => ?_, fun hk => ?_⟩
  · rw [show now = start.after src _ from after_append src t before _]
    exact current_inner src start kind n (hheads.append hrest.inner)
  · rw [hnow]
    exact (keeps_foldl src _ _).lookup
      (lookup_declares src hheads (t := start.step src (.enter kind n)) rfl hvalid₁ hd)
  · have hcomponent : (start.store.enter kind n).isComponent start.store.scopes.size = true := by
      rw [Store.isComponent_enter]
      cases kind <;> simp_all
    rw [hnow, ← after_append]
    exact within_after src (t := start.step src (.enter kind n)) hvalid₁ rfl
      (Store.within_self hcomponent) _

/-- The tree after events from the beginning. -/
def ofEvents (src : Source) (es : List Event) : Tree := es.foldl (step src) {}

theorem ofEvents_append (src : Source) (es : List Event) (s : List Step) :
    ofEvents src (es ++ unfoldSteps src s) = (ofEvents src es).after src s := by
  unfold ofEvents after
  rw [List.foldl_append]

theorem valid_ofEvents (src : Source) (es : List Event) : (ofEvents src es).store.Valid :=
  valid_foldl Store.valid_empty es

end Tree

/-! ### Arrivals -/

/-- The walk of a program comes to the part `c` after the events `met`. -/
inductive Arrives (src : Source) (root : Node) : List Event → Cursor → Prop where
  | first {s later : List Step} {c : Cursor} : modulePlan src root = s ++ .visit c :: later →
      Arrives src root (unfoldSteps src s) c
  | next {met : List Event} {d c : Cursor} {s later : List Step} : Arrives src root met d →
      plan src d = s ++ .visit c :: later → Arrives src root (met ++ unfoldSteps src s) c

section Arrives

variable {src : Source} {root : Node} {met : List Event} {c d : Cursor} {s later : List Step}

/-- A step goes down. -/
theorem exists_parent_of_plan (h : plan src d = s ++ .visit c :: later) :
    ∃ p n, c = p.down n ∧ d.Leads (fun _ => True) p := by
  have hmem : .visit c ∈ plan src d := by simp [h]
  have hsize := plan_below c hmem
  cases spreads_plan src d _ hmem c rfl with
  | refl => exact absurd hsize (Nat.lt_irrefl _)
  | @down p n hp _ _ => exact ⟨p, n, rfl, hp⟩

theorem Arrives.ancestors_ne_nil (h : Arrives src root met c) : c.ancestors ≠ [] := by
  cases h with
  | first h =>
    have hmem : .visit c ∈ modulePlan src root := by simp [h]
    obtain ⟨n, -, rfl⟩ := exists_of_visit_mem_modulePlan hmem
    exact List.cons_ne_nil _ _
  | next _ h =>
    obtain ⟨p, n, rfl, -⟩ := exists_parent_of_plan h
    exact List.cons_ne_nil _ _

/-- The events of a part come where the walk arrives at it. -/
theorem Arrives.exists_moduleEvents (h : Arrives src root met c) :
    ∃ rest, moduleEvents src root = met ++ (events src c ++ rest) := by
  induction h with
  | @first s later c h =>
    refine ⟨unfoldSteps src later, ?_⟩
    unfold moduleEvents
    rw [h, unfoldSteps_append, unfoldSteps_visit]
  | @next met d c s later _ h ih =>
    obtain ⟨rest, hrest⟩ := ih
    refine ⟨unfoldSteps src later ++ rest, ?_⟩
    rw [hrest, events_eq, h, unfoldSteps_append, unfoldSteps_visit]
    simp only [List.append_assoc]

/-- On arrival at a part, some scope is open. -/
theorem Arrives.exists_current (h : Arrives src root met c) :
    ∃ x, (Tree.ofEvents src met).store.current = some x := by
  induction h with
  | @first s later c h =>
    obtain ⟨s₁, s₂, rfl, hbody⟩ := bracket_split h
    have hinner : Inner s₁ := fun x hx =>
      ((inner_declares _).append (flat_visits _).inner) x (by rw [hbody]; simp [hx])
    exact ⟨_, Tree.current_inner src {} .module root hinner⟩
  | @next met d c s later hd h ih =>
    rw [Tree.ofEvents_append]
    rcases plan_split hd.ancestors_ne_nil h with hflat | ⟨kind, before, inner, -, hinner, -, rfl⟩
    · obtain ⟨x, hx⟩ := ih
      refine ⟨x, ?_⟩
      rw [← hx]
      exact Tree.current_nested src (hflat.nested src)
    · rw [Tree.after_append]
      exact ⟨_, Tree.current_inner src _ kind d.node hinner⟩

end Arrives

end HookLint.Scope
