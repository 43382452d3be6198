import HookLint.Proofs.Dependency.MemberPath
import HookLint.Proofs.Lint.ArrayAccount
import HookLint.Proofs.Scope.Resolution

/-!
# Proofs.Lint.ElementPath — an element against the same expression in the callback

An element of a dependency array names a path that is read downwards; what the callback needs is
read upwards from its uses.  Where the chain is bare inside of its parentheses, both readings give
the same path (`Proofs.Dependency.MemberPath`), so an element is enough for a callback that uses the
binding in the same expression (`settles_of_soleUse`).

In `(p).a` the readings differ: the element `(p).a` is `p` narrowed by `a`, the use of it is a use
of all of `p`, and the array is reported (`parenthesized_object_reported`).
-/

namespace HookLint.Scope

open Syntax

/-- The uses of a program stand where the ways through its tree lead. -/
theorem Tree.leads_of_mem_uses {src : Source} {root : Node} {u : Use}
    (h : u ∈ (Tree.ofProgram src root).uses.toList) :
    Cursor.Leads (fun _ => True) ⟨root, []⟩ u.cursor := by
  obtain ⟨before, after, c, a, x, hsplit, -, rfl⟩ := Tree.meets_of_mem_uses h
  have hc : .use c a ∈ moduleEvents src root := by simp [hsplit]
  rcases exists_step_of_mem_unfoldSteps hc with hemit | ⟨d, hd, he⟩
  · simp [modulePlan, bracket, declares, visits] at hemit
  · obtain ⟨n, hn, rfl⟩ := exists_of_visit_mem_modulePlan hd
    have hfirst : Cursor.Leads (fun _ => True) ⟨root, []⟩ ⟨n, [root]⟩ := .down .refl trivial hn
    exact hfirst.trans (leads_of_use_mem_events he)

end HookLint.Scope

namespace HookLint.Lint

open Syntax Scope Hook Stability Dependency Report

section Coverage

variable {p : Program} {reportStatic : Bool} {cache : Cache} {site : Site} {array : Node}
  {b : Binding} {u : Use} {x : Cursor} {path : List String}

/-- `u` is the only use of a binding in the callback of a site, and it stands at the root of the
bare chain `x`, which is not called or written. -/
structure SoleUse (p : Program) (site : Site) (b : Binding) (u : Use) (x : Cursor)
    (path : List String) : Prop where
  within : u ∈ p.tree.usesWithin site.callback
  bound : p.tree.bindingOf? u = some b
  only : ∀ v ∈ p.tree.usesWithin site.callback, p.tree.bindingOf? v = some b → v = u
  bare : Bare p.source x u.cursor path
  passive : ∀ parent rest, x.ancestors = parent :: rest → isCalledOrWritten parent x.node = false

/-- What it means that an element settles a binding: it covers what is required of the binding,
nothing of the binding is missing, and the element is not unnecessary, if there is a need. -/
structure Settles (d : Diff) (e : Declared) (b : Binding) : Prop where
  covers : ∀ r ∈ d.required, r.binding = b → e.covers r = true
  not_missing : ∀ r ∈ d.missing, r.binding ≠ b
  not_unnecessary : (∃ r ∈ d.required, r.binding = b) → e ∉ d.unnecessary

theorem mem_values_of_required {r : Path} (hr : r ∈ (needsOf p reportStatic cache site).required) :
    r ∈ Assoc.values (references p.source p.tree site).dependencies :=
  (splitByLabel_sublist p cache _).subset hr

/-- An element with the path of the only use settles the binding. -/
theorem settles_of_soleUse (hv : p.tree.store.Valid) (hu : SoleUse p site b u x path)
    {e root : Node} (he : e ∈ array.elements) (hm : memberChain? p.source e = some (root, path))
    (hroot : (p.tree.useAt? root).bind p.tree.bindingOf? = some b) :
    Settles (diff (needsOf p reportStatic cache site) (declaredIn p array))
      (declaredOf p.source p.tree e) b := by
  have hdeclared : declaredOf p.source p.tree e ∈ declaredIn p array := List.mem_map_of_mem he
  have hcovers : ∀ r ∈ (needsOf p reportStatic cache site).required, r.binding = b →
      (declaredOf p.source p.tree e).covers r = true := by
    rintro r hr rfl
    refine (covers_declaredOf_iff hv hu.bound).mpr ⟨root, path, hm, hroot, ?_⟩
    refine (prefix_path_iff hv (mem_values_of_required hr) path).mpr fun v hvu hvb _ => ?_
    rw [hu.only v hvu hvb]
    exact hu.bare.prefix_accessPath hu.passive
  refine ⟨hcovers, fun r hr hb => ?_, ?_⟩
  · obtain ⟨hreq, hno⟩ := mem_missing_iff.mp hr
    have hyes := hcovers r hreq hb
    rw [hno _ hdeclared] at hyes
    cases hyes
  · rintro ⟨r, hr, hb⟩ hun
    have hyes := hcovers r hr hb
    rw [covers_eq_false_of_unnecessary hun hr] at hyes
    cases hyes

end Coverage

/-- **Declared and used paths.**  Every element of a dependency array that is not complex is a chain
on the cursor of its root.  The path that a use at the root has is a beginning of the declared path,
and it is the declared path exactly if the chain has no parentheses inside, whatever parentheses
are around it.

So if the callback of a site uses the binding of such an element once, in a bare chain with the same
path that is not called or written, then the element covers what is required of the binding, nothing
of it is missing, and the element is not unnecessary. -/
theorem element_path_exact (p : Program) {root : Node} (ht : p.tree = Tree.ofProgram p.source root)
    {array e : Cursor} (ha : array.kind = .array) (he : e ∈ array.elements) {name : Node}
    {path : List String} (hm : memberChain? p.source e.node = some (name, path)) :
    (∃ r, r.node = name ∧ Chain p.source e r path) ∧
    (∀ r, Chain p.source e r path → accessPath p.source r <+: path ∧
      (accessPath p.source r = path ↔ Bare p.source e.unwrap r path)) ∧
    ∀ reportStatic cache site, Compared site array.node → ∀ b u x,
      (p.tree.useAt? name).bind p.tree.bindingOf? = some b → SoleUse p site b u x path →
      Settles (reconcile p reportStatic cache site).1.diff
        (declaredOf p.source p.tree e.node) b := by
  refine ⟨exists_chain_of_memberChain? hm e rfl, fun r hr => hr.accessPath_of_element ha he, ?_⟩
  intro reportStatic cache site hcompared b u x hb hu
  have hv : p.tree.store.Valid := by
    rw [ht]
    exact Tree.valid_ofProgram p.source root
  have hnode : e.node ∈ array.node.elements := by
    obtain ⟨n, hn, rfl⟩ := List.mem_map.mp he
    exact hn
  rw [reconcile_of_compared hcompared]
  exact settles_of_soleUse hv hu hnode hm hb

/-! ### One expression in the callback and in the array

`function C(p){useEffect(()=>E,[E])}` for an expression `E` of five letters: parentheses around the
chain in `(p.a)`, and inside of it in `(p).a`. -/

/-- The chain `.a` on an object. -/
def memberA (start stop : Nat) (object : Node) (field : Option Field := none) : Node :=
  { kind := .memberExpression, field, start, stop
    children := [
      object,
      { kind := .propertyIdentifier, field := some .property, start := stop - 1, stop }] }

/-- An expression in parentheses. -/
def inBrackets (inner : Node) (field : Option Field := none) : Node :=
  { kind := .parenthesized, field, start := inner.start - 1, stop := inner.stop + 1
    children := [inner] }

def nameP (start : Nat) (field : Option Field := none) : Node :=
  { kind := .identifier, field, start, stop := start + 1 }

/-- `(p.a)` at an offset. -/
def wrappedChain (start : Nat) (field : Option Field) : Node :=
  inBrackets (memberA (start + 1) (start + 4) (nameP (start + 1) (some .object))) field

/-- `(p).a` at an offset. -/
def wrappedObject (start : Nat) (field : Option Field) : Node :=
  memberA start (start + 5) (inBrackets (nameP (start + 1)) (some .object)) field

section Twice

variable (expression : Nat → Option Field → Node)

def twiceCallback : Node :=
  { kind := .arrowFunction, start := 24, stop := 33, children := [expression 28 (some .body)] }

def twiceArray : Node :=
  { kind := .array, start := 34, stop := 41, children := [expression 35 none] }

def twiceCall : Node :=
  { kind := .callExpression, start := 14, stop := 42
    children := [
      { kind := .identifier, field := some .function, start := 14, stop := 23 },
      { kind := .arguments, field := some .arguments, start := 23, stop := 42
        children := [twiceCallback expression, twiceArray expression] }] }

def twiceBlock : Node :=
  { kind := .statementBlock, field := some .body, start := 13, stop := 43
    children := [twiceCall expression] }

def twiceProgram : Node :=
  { kind := .other "program", start := 0, stop := 43
    children := [
      { kind := .functionDeclaration, start := 0, stop := 43
        children := [
          { kind := .identifier, field := some .name, start := 9, stop := 10 },
          { kind := .other "formal_parameters", field := some .parameters, start := 10, stop := 13
            children := [nameP 11] },
          twiceBlock expression] }] }

def twiceSite : Site where
  name := "useEffect"
  kind := .effect
  node := twiceCall expression
  callback := twiceCallback expression
  dependencies := some (twiceArray expression)
  scope := 1

end Twice

def wrappedChainText : Source := ⟨"function C(p)\x7buseEffect(()=>(p.a),[(p.a)])\x7d"⟩

def wrappedObjectText : Source := ⟨"function C(p)\x7buseEffect(()=>(p).a,[(p).a])\x7d"⟩

def wrappedChainRun : Program :=
  (Rule.ofOptions {}).program wrappedChainText (twiceProgram wrappedChain)

theorem compared_twiceSite {expression : Nat → Option Field → Node}
    (h : (expression 35 none).kind ≠ .spreadElement) :
    Compared (twiceSite expression) (twiceArray expression) := by
  refine ⟨rfl, ?_, rfl, fun e he => ?_⟩
  · show some (twiceArray expression).unwrap = some (twiceArray expression)
    rw [Node.unwrap, if_neg (by simp [twiceArray])]
  · obtain rfl := List.mem_singleton.mp (Node.mem_children_of_mem_elements he)
    exact h

/-- The only child with a field is the one that is found under it. -/
theorem child?_of_field {n c : Node} {f : Field} (hc : c ∈ n.children) (hf : c.field = some f)
    (hone : (n.children.filter fun m => m.field = some f).length = 1) : n.child? f = some c := by
  obtain ⟨m, hm⟩ := List.length_eq_one_iff.mp hone
  have hmem : c ∈ n.children.filter fun m => m.field = some f :=
    List.mem_filter.mpr ⟨hc, decide_eq_true hf⟩
  rw [hm, List.mem_singleton] at hmem
  rw [Node.child?, ← List.head?_filter, hm, hmem]
  rfl

/-- The object of the only step of a chain `.a`, which is in parentheses. -/
def standsInChain (src : Source) (c : Cursor) : Bool :=
  match c.ancestors with
  | m :: w :: _ =>
    decide (c.kind = .identifier ∧ c.node.field = some .object ∧
      m.kind = .memberExpression ∧ w.kind = .parenthesized ∧
      (m.children.filter fun n => n.field = some .object).length = 1) &&
      (m.child? .property).any fun q => q.kind = .propertyIdentifier && src.textOf q = "a"
  | _ => false

theorem bare_of_standsInChain {src : Source} {root : Node} {c : Cursor}
    (hc : Cursor.Leads (fun _ => True) ⟨root, []⟩ c) (h : standsInChain src c = true) :
    ∃ x, Bare src x c ["a"] ∧
      ∀ parent rest, x.ancestors = parent :: rest → isCalledOrWritten parent x.node = false := by
  cases hc with
  | refl => simp [standsInChain] at h
  | @down d n _ _ hn =>
    unfold standsInChain at h
    split at h
    · next m w rest hup =>
      obtain ⟨rfl, hrest⟩ := List.cons.inj hup
      simp only [Bool.and_eq_true, decide_eq_true_eq, Option.any_eq_true] at h
      obtain ⟨⟨hk, hf, hm, hw, hone⟩, q, hq, hqk, htext⟩ := h
      refine ⟨d, ?_, fun parent rest' hparent => ?_⟩
      · have ho : d.child? .object = some (d.down n) := by
          rw [Cursor.child?, child?_of_field hn hf hone]
          rfl
        have hp : d.child? .property = some (d.down q) := by
          rw [Cursor.child?, hq]
          rfl
        rw [← htext]
        exact Bare.member hm ho hp hqk (.name hk)
      · rw [hrest] at hparent
        rw [← (List.cons.inj hparent).1, isCalledOrWritten, hw]
    · cases h

/-- The effect over `(p.a)` uses its parameter once, in a chain that is bare. -/
theorem soleUse_wrappedChain : ∃ b u x, b.id = 1 ∧
    (wrappedChainRun.tree.useAt? (nameP 36 (some .object))).bind
      wrappedChainRun.tree.bindingOf? = some b ∧
    SoleUse wrappedChainRun (twiceSite wrappedChain) b u x ["a"] := by
  have hone : (wrappedChainRun.tree.usesWithin (twiceCallback wrappedChain)).length = 1 := by
    decide +kernel
  obtain ⟨u, hu⟩ := List.length_eq_one_iff.mp hone
  have hmem : u ∈ wrappedChainRun.tree.usesWithin (twiceCallback wrappedChain) := by simp [hu]
  have hstands : ((wrappedChainRun.tree.usesWithin (twiceCallback wrappedChain)).all fun u =>
      standsInChain wrappedChainText u.cursor) = true := by decide +kernel
  have hbound : ((wrappedChainRun.tree.usesWithin (twiceCallback wrappedChain)).all fun u =>
      (wrappedChainRun.tree.bindingOf? u).any fun b => b.id = 1) = true := by decide +kernel
  have hroot : (((wrappedChainRun.tree.useAt? (nameP 36 (some .object))).bind
      wrappedChainRun.tree.bindingOf?).any fun c => c.id = 1) = true := by decide +kernel
  have hleads := Tree.leads_of_mem_uses (List.mem_of_mem_filter hmem)
  obtain ⟨x, hbare, hpassive⟩ := bare_of_standsInChain hleads (List.all_eq_true.mp hstands u hmem)
  obtain ⟨b, hb, hid⟩ := (Option.any_eq_true _ _).mp (List.all_eq_true.mp hbound u hmem)
  obtain ⟨c, hc, hid'⟩ := (Option.any_eq_true _ _).mp hroot
  obtain ⟨v, -, hv⟩ := Option.bind_eq_some_iff.mp hc
  have hvalid := Tree.valid_ofProgram wrappedChainText (twiceProgram wrappedChain)
  have hids : c.id = b.id := (of_decide_eq_true hid').trans (of_decide_eq_true hid).symm
  obtain rfl : c = b := Tree.bindingOf?_inj hvalid hv hb hids
  refine ⟨c, u, x, of_decide_eq_true hid', hc, hmem, hb, fun w hw _ => ?_, hbare, hpassive⟩
  have hw' : w ∈ [u] := hu ▸ hw
  exact List.mem_singleton.mp hw'

theorem plain_wrappedChain :
    Plain wrappedChainRun (twiceSite wrappedChain) (twiceArray wrappedChain) where
  compared := compared_twiceSite (by decide)
  labelled := by
    have hall : ((Assoc.values (references wrappedChainRun.source wrappedChainRun.tree
        (twiceSite wrappedChain)).dependencies).all fun d =>
          (ownLabel? wrappedChainRun d.binding.id).isSome) = true := by decide +kernel
    exact List.all_eq_true.mp hall

/-- The element `(p.a)`, with its array and nothing around it. -/
def wrappedElement : Cursor := ⟨wrappedChain 35 none, [twiceArray wrappedChain]⟩

/-- The chain inside of its parentheses. -/
def wrappedInside : Cursor := wrappedElement.down (memberA 36 39 (nameP 36 (some .object)))

theorem bare_wrappedInside :
    Bare wrappedChainText wrappedInside (wrappedInside.down (nameP 36 (some .object))) ["a"] := by
  have htext : wrappedChainText.textOf
      { kind := .propertyIdentifier, field := some .property, start := 38, stop := 39 } = "a" := by
    decide +kernel
  have hbare : Bare wrappedChainText wrappedInside
      (wrappedInside.down (nameP 36 (some .object))) _ := .member rfl rfl rfl rfl (.name rfl)
  rwa [Cursor.node_down, htext] at hbare

/-- With `(p.a)` in both places, the paths agree, the parameter is required, and the element settles
it. -/
theorem element_path_exact_wrapped :
    (∃ r, r.node = nameP 36 (some .object) ∧ accessPath wrappedChainText r = ["a"]) ∧
    ∃ b, (∃ d ∈ (reconcile wrappedChainRun false [] (twiceSite wrappedChain)).1.diff.required,
        d.binding.id = b.id) ∧
      Settles (reconcile wrappedChainRun false [] (twiceSite wrappedChain)).1.diff
        (declaredOf wrappedChainText wrappedChainRun.tree (wrappedChain 35 none)) b := by
  have hin : wrappedElement.elements = [wrappedInside] := rfl
  have hchain : Chain wrappedChainText wrappedElement _ ["a"] :=
    .paren rfl hin bare_wrappedInside.toChain
  have hunwrap : wrappedElement.unwrap = wrappedInside := by
    rw [unwrap_of_elements rfl hin, unwrap_of_kind_ne (by decide)]
  have hmem : wrappedElement ∈ Cursor.elements ⟨twiceArray wrappedChain, []⟩ :=
    List.mem_singleton.mpr rfl
  have hm : memberChain? wrappedChainRun.source wrappedElement.node =
      some (nameP 36 (some .object), ["a"]) := hchain.memberChain?_eq
  obtain ⟨-, hpaths, hsettles⟩ := element_path_exact wrappedChainRun rfl rfl hmem hm
  obtain ⟨b, u, x, hone, hb, hu⟩ := soleUse_wrappedChain
  refine ⟨⟨_, rfl, (hpaths _ hchain).2.mpr (hunwrap ▸ bare_wrappedInside)⟩, b, ?_,
    hsettles false [] _ plain_wrappedChain.compared b u x hb hu⟩
  rw [plain_wrappedChain.reconcile_eq false]
  have hrequired : ((plainReconciliation wrappedChainRun false (twiceSite wrappedChain)
      (twiceArray wrappedChain)).diff.required.any fun d => d.binding.id = 1) = true := by
    decide +kernel
  obtain ⟨d, hd, hid⟩ := List.any_eq_true.mp hrequired
  exact ⟨d, hd, (of_decide_eq_true hid).trans hone.symm⟩

/-- In `(p).a` the element is `p` narrowed by `a`, the use is a use of `p`, and the effect over it
is reported: `p` is missing, and the element is unnecessary. -/
theorem parenthesized_object_reported :
    (∃ e ∈ Cursor.elements ⟨twiceArray wrappedObject, []⟩, ∃ r,
      memberChain? wrappedObjectText e.node = some (r.node, ["a"]) ∧
      Chain wrappedObjectText e r ["a"] ∧ accessPath wrappedObjectText r = []) ∧
    ((Rule.ofOptions {}).check wrappedObjectText (twiceProgram wrappedObject)).map
        (fun d => (d.kind, d.names)) =
      [(.missingDependency, ["p"]), (.unnecessaryDependency, ["(p).a"])] := by
  have htext : wrappedObjectText.textOf
      { kind := .propertyIdentifier, field := some .property, start := 39, stop := 40 } = "a" := by
    decide +kernel
  refine ⟨?_, ?_⟩
  · have hchain : Chain wrappedObjectText
        ⟨wrappedObject 35 none, [twiceArray wrappedObject]⟩ _ _ :=
      .member rfl rfl rfl rfl (.paren rfl rfl (.name rfl))
    rw [← htext]
    exact ⟨_, List.mem_singleton.mpr rfl, _, hchain.memberChain?_eq, hchain, rfl⟩
  · cases hfound : (Rule.ofOptions {}).plainCheck? wrappedObjectText (twiceProgram wrappedObject)
        ["a", "b", "p"] with
    | none =>
      have hsome : ((Rule.ofOptions {}).plainCheck? wrappedObjectText (twiceProgram wrappedObject)
          ["a", "b", "p"]).isSome = true := by decide +kernel
      rw [hfound] at hsome
      cases hsome
    | some found =>
      have hmap : ((Rule.ofOptions {}).plainCheck? wrappedObjectText (twiceProgram wrappedObject)
          ["a", "b", "p"]).map (fun ds => ds.map fun d => (d.kind, d.names)) =
          some [(.missingDependency, ["p"]), (.unnecessaryDependency, ["(p).a"])] := by
        decide +kernel
      rw [check_of_plainCheck? isExpressible_letter hfound]
      rw [hfound] at hmap
      exact Option.some.inj hmap

end HookLint.Lint
