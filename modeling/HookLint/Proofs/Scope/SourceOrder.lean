import HookLint.Proofs.Dependency.References
import HookLint.Proofs.Scope.CallSpan
import HookLint.Proofs.Scope.Reach

/-!
# Proofs.Scope.SourceOrder — the walk goes through the text once, from left to right

A part of a tree is *spread* if the nodes below its parts come in the order of the text.  Spreading
is a division (`division_spread`), so it holds of every step of the walk; hence the names that the
walk uses and the calls that it meets are a sublist of the nodes of the tree in preorder
(`marks_moduleEvents`).  No node is met twice, and a call is met before what it encloses.

For names there is more.  They do not overlap and are not empty, so in preorder the start of each is
strictly behind the start of the one before (`pairwise_useNodes`).  What is recorded in the order of
the walk is then in the order of the text: the uses, the uses within a node, and the dependencies of
a callback by their first use (`offsets_noteAll`).
-/

namespace HookLint.Scope

open Syntax Syntax.Node Hook Dependency

/-! ### Spread parts -/

/-- Parts of a node, the nodes below which come in the order of the text, with their own fields in
order as well. -/
structure Spread (outer : Node) (ns : List Node) : Prop where
  sublist : (ns.flatMap preorder).Sublist outer.preorder
  ordered : ∀ n ∈ ns, n.All FieldsInOrder

/-- Spreading is a division of trees whose fields are in order. -/
theorem division_spread : Division fun n ns => n.All FieldsInOrder → Spread n ns where
  self n h := by
    refine ⟨by simp, fun m hm => ?_⟩
    obtain rfl := List.mem_singleton.mp hm
    exact h
  children n h := ⟨children_sublist_preorder n, fun c hc => h.child hc⟩
  row n h := by
    have hrow := fieldRow_sublist h.self
    exact ⟨(hrow.flatMap preorder).trans (children_sublist_preorder n),
      fun c hc => h.child (hrow.subset hc)⟩
  sublist h hs hn :=
    ⟨(hs.flatMap preorder).trans (h hn).sublist, fun m hm => (h hn).ordered m (hs.subset hm)⟩
  flatMap {α outer l g f} h hf hn := by
    -- a part comes from a place
    have hplace : ∀ a ∈ l, f a = [] ∨ ∃ n, g a = some n ∧ Spread n (f a) := by
      intro a ha
      rcases hf a ha with hnil | ⟨n, hg, ht⟩
      · exact Or.inl hnil
      · exact Or.inr ⟨n, hg, ht ((h hn).ordered n (List.mem_filterMap.mpr ⟨a, ha, hg⟩))⟩
    have hnodes : ((l.flatMap f).flatMap preorder).Sublist ((l.filterMap g).flatMap preorder) := by
      rw [List.flatMap_assoc, List.filterMap_eq_flatMap_toList, List.flatMap_assoc]
      refine List.Sublist.flatMap_right l fun a ha => ?_
      rcases hplace a ha with hnil | ⟨n, hg, ht⟩
      · rw [hnil]
        exact List.nil_sublist _
      · rw [hg]
        simpa using ht.sublist
    refine ⟨hnodes.trans (h hn).sublist, fun m hm => ?_⟩
    obtain ⟨a, ha, hm⟩ := List.mem_flatMap.mp hm
    rcases hplace a ha with hnil | ⟨n, -, ht⟩
    · rw [hnil] at hm
      cases hm
    · exact ht.ordered m hm

/-! ### What the walk meets -/

/-- The name that an event uses, or the call that it meets. -/
def Event.mark? : Event → Option Node
  | .use c _ => some c.node
  | .call n => some n
  | _ => none

/-- The names that events use and the calls that they meet. -/
def marks (es : List Event) : List Node := es.filterMap Event.mark?

/-- The calls that events meet. -/
def callNodes (es : List Event) : List Node :=
  es.filterMap fun
    | .call n => some n
    | _ => none

section Marks

variable {src : Source} {es fs : List Event} {steps : List Step}

theorem filterMap_sublist_filterMap {α β : Type} {f g : α → Option β} {l : List α}
    (h : ∀ a ∈ l, f a = none ∨ f a = g a) : (l.filterMap f).Sublist (l.filterMap g) := by
  rw [List.filterMap_eq_flatMap_toList, List.filterMap_eq_flatMap_toList]
  refine List.Sublist.flatMap_right l fun a ha => ?_
  rcases h a ha with hnone | heq
  · rw [hnone]
    exact List.nil_sublist _
  · rw [heq]

theorem useNodes_sublist_marks (es : List Event) : (useNodes es).Sublist (marks es) := by
  refine filterMap_sublist_filterMap fun e _ => ?_
  cases e with
  | use c a => exact Or.inr rfl
  | enter kind n => exact Or.inl rfl
  | leave => exact Or.inl rfl
  | declare d => exact Or.inl rfl
  | call n => exact Or.inl rfl

theorem callNodes_sublist_marks (es : List Event) : (callNodes es).Sublist (marks es) := by
  refine filterMap_sublist_filterMap fun e _ => ?_
  cases e with
  | call n => exact Or.inr rfl
  | enter kind n => exact Or.inl rfl
  | leave => exact Or.inl rfl
  | declare d => exact Or.inl rfl
  | use c a => exact Or.inl rfl

theorem callNodes_append : callNodes (es ++ fs) = callNodes es ++ callNodes fs :=
  List.filterMap_append

/-- What steps without a call meet lies below their places, in the same order. -/
theorem marks_unfoldSteps (hno : ∀ n, Step.emit (.call n) ∉ steps)
    (hv : ∀ d, .visit d ∈ steps → (marks (events src d)).Sublist d.node.preorder) :
    (marks (unfoldSteps src steps)).Sublist ((places steps).flatMap preorder) := by
  unfold marks unfoldSteps places
  rw [List.filterMap_flatMap, List.filterMap_eq_flatMap_toList Step.place?, List.flatMap_assoc]
  refine List.Sublist.flatMap_right steps fun s hs => ?_
  cases s with
  | visit d => simpa [Step.place?, marks] using hv d hs
  | emit e =>
    cases e with
    | use c a => simpa [Step.place?, Event.mark?] using singleton_sublist_preorder c.node
    | call n => exact absurd hs (hno n)
    | enter kind n => exact List.nil_sublist _
    | leave => exact List.nil_sublist _
    | declare d => exact List.nil_sublist _

/-- What the walk meets in a part of the tree is met in preorder. -/
theorem marks_events (src : Source) {c : Cursor} (h : c.node.All FieldsInOrder) :
    (marks (events src c)).Sublist c.node.preorder := by
  have hspread := division_spread.plan src c h
  have hv : ∀ d, .visit d ∈ plan src c → (marks (events src d)).Sublist d.node.preorder := by
    intro d hd
    have hsize := plan_below d hd
    exact marks_events src (hspread.ordered _ (List.mem_filterMap.mpr ⟨_, hd, rfl⟩))
  rw [events_eq]
  rcases plan_eq_call_or_shaped src c with ⟨-, hcall⟩ | hshaped
  · -- a call comes before its children
    rw [hcall] at hv ⊢
    have hchildren : (marks (unfoldSteps src (visits c.children))).Sublist
        ((places (visits c.children)).flatMap preorder) :=
      marks_unfoldSteps (Shaped.visits (b := false)).not_call
        fun d hd => hv d (List.mem_cons_of_mem _ hd)
    rw [places_visits, Cursor.map_node_children] at hchildren
    rw [preorder_eq]
    exact hchildren.cons_cons c.node
  · exact (marks_unfoldSteps hshaped.not_call hv).trans hspread.sublist
termination_by sizeOf c.node

/-- **The walk meets names and calls in preorder.** -/
theorem marks_moduleEvents (src : Source) {root : Node} (h : root.All FieldsInOrder) :
    (marks (moduleEvents src root)).Sublist root.preorder := by
  have hspread := division_spread.modulePlan src root h
  refine (marks_unfoldSteps (shaped_modulePlan src root).not_call fun d hd => ?_).trans
    hspread.sublist
  exact marks_events src (hspread.ordered _ (List.mem_filterMap.mpr ⟨_, hd, rfl⟩))

/-- The names that a program uses start one behind the other. -/
theorem pairwise_useNodes (src : Source) {root : Node} (hwf : root.WellFormed)
    (hord : root.All FieldsInOrder) :
    (useNodes (moduleEvents src root)).Pairwise fun a b => a.start < b.start := by
  have hpreorder := hwf.pairwise_preorder.sublist
    ((useNodes_sublist_marks _).trans (marks_moduleEvents src hord))
  have htiles := tiles_moduleEvents src hwf
  refine (hpreorder.and htiles.apart).imp_of_mem ?_
  rintro a b ha hb ⟨horder, hapart⟩
  have ha' := start_lt_stop_of_mem_useNodes src hwf ha
  have hb' := start_lt_stop_of_mem_useNodes src hwf hb
  rw [contains_iff] at horder
  unfold Apart at hapart
  omega

end Marks

/-! ### What the tree records -/

namespace Tree

theorem calls_step (src : Source) (t : Tree) (e : Event) :
    ∃ met, (t.step src e).calls.toList = t.calls.toList ++ met ∧
      (met.map CallSite.node).Sublist (callNodes [e]) := by
  rcases calls_step_cases src t e with heq | ⟨n, x, rfl, -, heq⟩
  · exact ⟨[], by rw [heq, List.append_nil], List.nil_sublist _⟩
  · rw [heq]
    exact ⟨[⟨n, x⟩], Array.toList_push, List.Sublist.refl _⟩

/-- The calls that a run adds are those that its events meet, in their order and each once. -/
theorem calls_foldl (src : Source) (t : Tree) (es : List Event) :
    ∃ met, (es.foldl (step src) t).calls.toList = t.calls.toList ++ met ∧
      (met.map CallSite.node).Sublist (callNodes es) :=
  appended_foldl (fun t => t.calls.toList) (fun _ _ => callNodes_append) (calls_step src) t es

end Tree

section Recorded

variable {src : Source} {root : Node}

/-- The recorded uses start one behind the other. -/
theorem pairwise_uses (src : Source) (hwf : root.WellFormed) (hord : root.All FieldsInOrder) :
    (Tree.ofProgram src root).uses.toList.Pairwise fun u v => u.node.start < v.node.start := by
  obtain ⟨met, heq, hnodes⟩ := Tree.uses_foldl src {} (moduleEvents src root)
  have huses : (Tree.ofProgram src root).uses.toList = met := heq
  rw [huses]
  have hordered := (pairwise_useNodes src hwf hord).sublist hnodes
  rw [List.pairwise_map] at hordered
  exact hordered

/-- The recorded calls are calls of the tree, in preorder. -/
theorem calls_sublist_preorder (src : Source) (hord : root.All FieldsInOrder) :
    ((Tree.ofProgram src root).calls.toList.map CallSite.node).Sublist
      (root.preorder.filter fun n => n.kind = .callExpression) := by
  obtain ⟨met, heq, hnodes⟩ := Tree.calls_foldl src {} (moduleEvents src root)
  have hcalls : (Tree.ofProgram src root).calls.toList = met := heq
  have hkind : ∀ n ∈ callNodes (moduleEvents src root), n.kind = .callExpression := by
    intro n hn
    obtain ⟨e, he, hcall⟩ := List.mem_filterMap.mp hn
    cases e with
    | call m =>
      obtain rfl := Option.some.inj hcall
      exact kind_of_call_mem_moduleEvents he
    | enter kind m => cases hcall
    | leave => cases hcall
    | declare d => cases hcall
    | use c a => cases hcall
  have hfilter : (callNodes (moduleEvents src root)).filter (fun n => n.kind = .callExpression) =
      callNodes (moduleEvents src root) :=
    List.filter_eq_self.mpr fun n hn => decide_eq_true (hkind n hn)
  rw [hcalls]
  refine hnodes.trans ?_
  rw [← hfilter]
  exact ((callNodes_sublist_marks _).trans (marks_moduleEvents src hord)).filter _

/-- The relevant uses of a site are uses inside of its callback, in their order. -/
theorem relevantUses_sublist (t : Tree) (site : Site) :
    ((relevantUses t site).map Prod.fst).Sublist (t.usesWithin site.callback) := by
  unfold relevantUses
  rw [List.map_filterMap]
  nth_rewrite 2 [← List.filterMap_some (l := t.usesWithin site.callback)]
  refine filterMap_sublist_filterMap fun u _ => ?_
  cases relevant? t site u with
  | none => exact Or.inl rfl
  | some b => exact Or.inr rfl

/-- The dependencies of a site come in the order of their first uses. -/
theorem pairwise_offsets (src : Source) {t : Tree}
    (h : t.uses.toList.Pairwise fun u v => u.node.start < v.node.start) (site : Site) :
    ((Assoc.values (references src t site).dependencies).map Path.offset).Pairwise (· < ·) := by
  have hkept : (Assoc.values (references src t site).dependencies).Sublist
      (Assoc.values (noteAll src (relevantUses t site)).dependencies) := by
    rw [dependencies_eq]
    exact List.filter_sublist.map _
  have hrelevant : ((relevantUses t site).map fun e => e.1.node.start).Sublist
      (t.uses.toList.map fun u => u.node.start) := by
    have hfst := ((relevantUses_sublist t site).trans List.filter_sublist).map fun u => u.node.start
    rwa [List.map_map] at hfst
  have hoffsets := (hkept.map Path.offset).trans
    ((offsets_noteAll src (relevantUses t site)).trans hrelevant)
  exact (List.pairwise_map.mpr h).sublist hoffsets

/-- **The walk is single and in the order of the text.**  In a well-formed program with its fields in
order, the uses start strictly one behind the other; so none is recorded twice and each is found
under its node, the uses within a node come in the order of the text, and so do the dependencies of
every site.  The calls are calls of the tree in preorder, each node at most once: a later one lies
inside of an earlier one or behind it. -/
theorem walk_in_source_order (src : Source) (hwf : root.WellFormed)
    (hord : root.All FieldsInOrder) :
    let t := Tree.ofProgram src root
    (t.uses.toList.Pairwise fun u v => u.node.start < v.node.start) ∧
    (∀ u ∈ t.uses.toList, t.useAt? u.node = some u) ∧
    (∀ n, (t.usesWithin n).Pairwise fun u v => u.node.start < v.node.start) ∧
    (∀ site, ((Assoc.values (references src t site).dependencies).map Path.offset).Pairwise
      (· < ·)) ∧
    (t.calls.toList.map CallSite.node).Sublist
      (root.preorder.filter fun n => n.kind = .callExpression) ∧
    t.calls.toList.Pairwise fun a b =>
      a.node.contains b.node = true ∨ a.node.stop ≤ b.node.start := by
  intro t
  have huses := pairwise_uses src hwf hord
  have hcalls := calls_sublist_preorder src hord
  refine ⟨huses, fun u hu => useAt?_of_mem hwf hu, fun n => huses.sublist List.filter_sublist,
    pairwise_offsets src huses, hcalls, ?_⟩
  have hordered := hwf.pairwise_preorder.sublist (hcalls.trans List.filter_sublist)
  rw [List.pairwise_map] at hordered
  exact hordered

end Recorded

/-! ### Calls inside of calls

A component whose effect calls a function inside of a method with a computed name, which is inside
of an argument: `function C(p,q){useEffect(()=>f({[q](x){p(x)}}),[])}`. -/

def nestedText : Source :=
  ⟨"function C(p,q)\x7buseEffect(()=>f(\x7b[q](x)\x7bp(x)\x7d\x7d),[])\x7d"⟩

def nestedMethod : Node :=
  { kind := .methodDefinition, start := 33, stop := 45
    children := [
      { kind := .computedName, field := some .name, start := 33, stop := 36
        children := [{ kind := .identifier, start := 34, stop := 35 }] },
      { kind := .other "formal_parameters", field := some .parameters, start := 36, stop := 39
        children := [{ kind := .identifier, start := 37, stop := 38 }] },
      { kind := .statementBlock, field := some .body, start := 39, stop := 45
        children := [
          { kind := .callExpression, start := 40, stop := 44
            children := [
              { kind := .identifier, field := some .function, start := 40, stop := 41 },
              { kind := .arguments, field := some .arguments, start := 41, stop := 44
                children := [{ kind := .identifier, start := 42, stop := 43 }] }] }] }] }

def nestedCall : Node :=
  { kind := .callExpression, start := 16, stop := 51
    children := [
      { kind := .identifier, field := some .function, start := 16, stop := 25 },
      { kind := .arguments, field := some .arguments, start := 25, stop := 51
        children := [
          { kind := .arrowFunction, start := 26, stop := 47
            children := [
              { kind := .callExpression, field := some .body, start := 30, stop := 47
                children := [
                  { kind := .identifier, field := some .function, start := 30, stop := 31 },
                  { kind := .arguments, field := some .arguments, start := 31, stop := 47
                    children := [
                      { kind := .object, start := 32, stop := 46
                        children := [nestedMethod] }] }] }] },
          { kind := .array, start := 48, stop := 50 }] }] }

def nestedProgram : Node :=
  { kind := .other "program", start := 0, stop := 52
    children := [
      { kind := .functionDeclaration, start := 0, stop := 52
        children := [
          { kind := .identifier, field := some .name, start := 9, stop := 10 },
          { kind := .other "formal_parameters", field := some .parameters, start := 10, stop := 15
            children := [
              { kind := .identifier, start := 11, stop := 12 },
              { kind := .identifier, start := 13, stop := 14 }] },
          { kind := .statementBlock, field := some .body, start := 15, stop := 52
            children := [nestedCall] }] }] }

/-- The calls come from the outside in, and the effect depends on `q` before `p`. -/
theorem walk_in_source_order_nested :
    nestedProgram.WellFormed ∧ nestedProgram.All FieldsInOrder ∧
    (let t := Tree.ofProgram nestedText nestedProgram
    (t.calls.toList.map fun call => call.node.start) = [16, 30, 40] ∧
    (t.calls.toList.Pairwise fun a b =>
      a.node.contains b.node = true ∨ a.node.stop ≤ b.node.start) ∧
    ∃ site ∈ Assoc.values ((Registry.mk builtinHooks none).sites nestedText t),
      ((Assoc.values (references nestedText t site).dependencies).map fun d => d.binding.name) =
        ["q", "p"] ∧
      ((Assoc.values (references nestedText t site).dependencies).map Path.offset).Pairwise
        (· < ·)) := by
  have hwf : nestedProgram.WellFormed := by decide +kernel
  have hord : nestedProgram.All FieldsInOrder := by decide +kernel
  have hany : ((Assoc.values ((Registry.mk builtinHooks none).sites nestedText
      (Tree.ofProgram nestedText nestedProgram))).any fun site =>
        ((Assoc.values (references nestedText (Tree.ofProgram nestedText nestedProgram)
          site).dependencies).map fun d => d.binding.name) = ["q", "p"]) = true := by decide +kernel
  obtain ⟨site, hsite, hnames⟩ := List.any_eq_true.mp hany
  obtain ⟨-, -, -, hoffsets, -, hcalls⟩ := walk_in_source_order nestedText hwf hord
  exact ⟨hwf, hord, by decide +kernel, hcalls, site, hsite, of_decide_eq_true hnames,
    hoffsets site⟩

end HookLint.Scope
