import HookLint.Proofs.Dependency.Comparison
import HookLint.Proofs.Dependency.Hygiene
import HookLint.Proofs.Dependency.MemberPath
import HookLint.Proofs.Scope.Resolution

/-!
# Proofs.Dependency.ElementUse — what the elements of an array name

Between a call and the root of an element of its array, the walk opens no scope that it does not
close again (`OnLevel`).  So the root is a use in the scope of the site, and the tables around it
are those that the walk had when it met the call.

A reference of the callback means the same there (`Proofs.Dependency.Hygiene`).  So an element whose
root is written like a reference names the binding of the reference (`bindingOf?_element`).
-/

namespace HookLint.Scope

open Syntax Dependency

section Level

variable {src : Source} {es : List Event} {c d r : Cursor}

/-- The events of a part come among `es`, and the scopes that open before them are closed again. -/
def OnLevel (src : Source) (es : List Event) (c : Cursor) : Prop :=
  ∃ before after, es = before ++ (events src c ++ after) ∧ Nested false before

theorem onLevel_visits {cs : List Cursor} (h : c ∈ cs) :
    OnLevel src (unfoldSteps src (visits cs)) c := by
  obtain ⟨l₁, l₂, rfl⟩ := List.append_of_mem h
  refine ⟨unfoldSteps src (visits l₁), unfoldSteps src (visits l₂), ?_, nested_visits src l₁⟩
  rw [visits, List.map_append, unfoldSteps_append, List.map_cons, unfoldSteps_visit]
  rfl

theorem OnLevel.trans (h₁ : OnLevel src es c) (h₂ : OnLevel src (events src c) d) :
    OnLevel src es d := by
  obtain ⟨before₁, after₁, rfl, hn₁⟩ := h₁
  obtain ⟨before₂, after₂, he, hn₂⟩ := h₂
  refine ⟨before₁ ++ before₂, after₂ ++ after₁, ?_, Nested.append hn₁ hn₂⟩
  rw [he]
  simp only [List.append_assoc]

/-- A plain node is visited child by child. -/
theorem OnLevel.child (h : OnLevel src es c) (hc : Role.ofKind c.kind = .plain)
    (hd : d ∈ c.children) : OnLevel src es d := by
  refine h.trans ?_
  rw [events_eq, plan, hc]
  exact onLevel_visits hd

theorem OnLevel.unwrap (h : OnLevel src es c) : OnLevel src es c.unwrap := by
  fun_induction Cursor.unwrap c with
  | case1 c hk inner hin ih =>
    have hmem : inner ∈ c.elements := by simp [hin]
    exact ih (h.child (by rw [hk]; rfl) (Cursor.mem_children_of_mem_elements hmem))
  | case2 => exact h
  | case3 => exact h

/-- The root of a chain is on the level of the chain. -/
theorem OnLevel.root {path : List String} (h : OnLevel src es c) (hr : Chain src c r path) :
    OnLevel src es r := by
  induction hr with
  | name _ => exact h
  | member hk ho _ _ _ ih =>
    exact ih (h.child (by rw [hk]; rfl) (Cursor.mem_children_of_child? ho))
  | @paren c inner r path hk hin _ ih =>
    have hmem : inner ∈ c.elements := by simp [hin]
    exact ih (h.child (by rw [hk]; rfl) (Cursor.mem_children_of_mem_elements hmem))

theorem OnLevel.use (h : OnLevel src es c) (hk : c.kind = .identifier) :
    ∃ before after, es = before ++ .use c .read :: after ∧ Nested false before := by
  obtain ⟨before, after, rfl, hn⟩ := h
  refine ⟨before, after, ?_, hn⟩
  rw [events_eq, plan, hk]
  rfl

end Level

/-! ### Recorded uses -/

section Recorded

variable {src : Source} {root n : Node} {before after : List Event} {c r : Cursor} {x : Nat}

/-- A name that is used while a scope is open is recorded as it resolves then. -/
theorem Tree.mem_uses_of_split {a : Access}
    (he : moduleEvents src root = before ++ .use c a :: after)
    (hx : (before.foldl (Tree.step src) {}).store.current = some x) :
    (before.foldl (Tree.step src) {}).useIn src x c a ∈
      (Tree.ofProgram src root).uses.toList := by
  let met := before.foldl (Tree.step src) {}
  have hrun : Tree.ofProgram src root = after.foldl (Tree.step src) (met.step src (.use c a)) := by
    unfold Tree.ofProgram
    rw [he, List.foldl_append, List.foldl_cons]
  obtain ⟨later, hlater, -⟩ := Tree.uses_foldl src (met.step src (.use c a)) after
  rw [hrun, hlater, Tree.step_use src c a hx]
  simp

/-- **A name on the level of a call is a use in the scope of the call**, and it is resolved with the
tables that the call was met with. -/
theorem exists_use_of_onLevel (h : root.WellFormed)
    (he : moduleEvents src root = before ++ .call n :: after)
    (hx : (before.foldl (Tree.step src) {}).store.current = some x) {cs : List Event}
    {rest : List Event} (hafter : after = cs ++ rest) (hr : OnLevel src cs r)
    (hk : r.kind = .identifier) :
    ∃ u, (Tree.ofProgram src root).useAt? r.node = some u ∧
      u.binding = (before.foldl (Tree.step src) {}).store.resolveFrom (src.textOf r.node) x := by
  obtain ⟨inner, later, rfl, hnested⟩ := hr.use hk
  let met := before.foldl (Tree.step src) {}
  let now := (before ++ .call n :: inner).foldl (Tree.step src) {}
  have hnow : now = (.call n :: inner).foldl (Tree.step src) met := List.foldl_append
  have hpart : Nested false (.call n :: inner) := Nested.append Nested.call hnested
  obtain ⟨hscopes, hcur⟩ :=
    Tree.scopes_nested src hpart (Nat.le_refl met.store.scopes.size) (by simp)
  have hopen : now.store.current = some x := by
    rw [hnow, hcur]
    exact hx
  have hsplit : moduleEvents src root =
      (before ++ .call n :: inner) ++ .use r .read :: (later ++ rest) := by
    rw [he, hafter]
    simp
  have hmem := Tree.mem_uses_of_split hsplit hopen
  refine ⟨_, useAt?_of_mem h hmem, ?_⟩
  have hlt : x < met.store.scopes.size :=
    (Tree.valid_foldl Store.valid_empty before).current_lt hx
  show now.store.resolveFrom _ x = met.store.resolveFrom _ x
  refine Store.resolveFrom_congr (fun i hi => ?_) _
  rw [hnow]
  exact hscopes i (by omega)

end Recorded

end HookLint.Scope

namespace HookLint.Dependency

open Syntax Scope Hook

variable {registry : Registry} {src : Source} {root array e name : Node} {site : Site} {b : Binding}
  {path : List String}

/-- The elements of the array of a site are on the level of its call. -/
theorem onLevel_element {call : CallSite} (hclass : registry.classify? src call = some site)
    (hcompared : Compared site array) (he : e ∈ array.elements) {c : Cursor}
    (hc : c.node = site.node) :
    ∃ d : Cursor, d.node = e ∧ OnLevel src (unfoldSteps src (visits c.children)) d := by
  obtain ⟨i, -, hdeps, hnode, -⟩ := exists_index_of_classify? hclass
  obtain ⟨argument, hargument, rfl⟩ := Option.map_eq_some_iff.mp hcompared.array_eq
  rw [hargument] at hdeps
  obtain ⟨list, hlist, hlistKind, hmem⟩ :=
    exists_list_of_mem_arguments (List.mem_of_getElem? hdeps)
  rw [← hnode, ← hc] at hlist
  have hfirst : OnLevel src (unfoldSteps src (visits c.children)) (c.down list) :=
    onLevel_visits (List.mem_map_of_mem (Node.mem_children_of_child? hlist))
  have hlevel : OnLevel src (unfoldSteps src (visits c.children))
      ((c.down list).down argument).unwrap :=
    (hfirst.child (by rw [Cursor.kind, Cursor.node_down, hlistKind]; rfl)
      (List.mem_map_of_mem (Node.mem_children_of_mem_elements hmem))).unwrap
  have hunwrap : ((c.down list).down argument).unwrap.node = argument.unwrap := node_unwrap _
  refine ⟨((c.down list).down argument).unwrap.down e, rfl, hlevel.child ?_ ?_⟩
  · rw [Cursor.kind, hunwrap, hcompared.is_array]
    rfl
  · refine List.mem_map_of_mem (Node.mem_children_of_mem_elements ?_)
    rw [hunwrap]
    exact he

/-- **An element that is written like a reference names its binding.** -/
theorem bindingOf?_element (hroot : root.WellFormed)
    (hsite : site ∈ Assoc.values (registry.sites src (Tree.ofProgram src root)))
    (hcompared : Compared site array) (he : e ∈ array.elements)
    (hm : memberChain? src e = some (name, path))
    (hb : (references src (Tree.ofProgram src root) site).Mentions b)
    (htext : src.textOf name = b.name) :
    ((Tree.ofProgram src root).useAt? name).bind (Tree.ofProgram src root).bindingOf? =
      some b := by
  obtain ⟨call, -, hclass⟩ := exists_call_of_mem_sites hsite
  obtain ⟨s, before, after, hsplit, rfl, hcur⟩ := exists_meetsCall hsite
  have hres := resolveFrom_of_mentions hroot hsite ⟨before, after, hsplit, rfl, hcur⟩ hb
  obtain ⟨-, -, c, rest, hc, hafter, -⟩ := callSpan_moduleEvents src hroot hsplit
  obtain ⟨d, rfl, hd⟩ := onLevel_element hclass hcompared he hc
  obtain ⟨r, rfl, hchain⟩ := exists_chain_of_memberChain? hm d rfl
  obtain ⟨u, hu, hbinding⟩ :=
    exists_use_of_onLevel hroot hsplit hcur hafter (hd.root hchain) hchain.root_kind
  rw [htext, hres] at hbinding
  -- the binding of a reference is one of the finished tree
  obtain ⟨-, v, -, hv⟩ := exists_use_of_mentions hb
  have hfinal := (Tree.id_of_bindingOf? (Tree.valid_ofProgram src root) hv).2
  rw [hu, Option.bind_some, Tree.bindingOf?, hbinding, Option.bind_some, hfinal]

end HookLint.Dependency
