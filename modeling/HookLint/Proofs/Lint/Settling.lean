import HookLint.Proofs.Dependency.ElementUse
import HookLint.Proofs.Lint.ElementPath
import HookLint.Proofs.Lint.Remaining
import HookLint.Proofs.Syntax.Preorder

/-!
# Proofs.Lint.Settling — when repeated fixing settles

A finding has a fix because an element of its array is to go, or because a path is missing.  If the
text that the fix writes stood in the array already, then each element would stand for one that is
kept or for a missing path.  Either all elements are kept and nothing is missing, or a missing path
is written where an element stands that is not kept; such an element is read as a chain, so it names
the binding of the path and covers it (`texts_ne_wanted`).

So a text is stable exactly if its report has no fix, and fixing settles exactly if one of the
passes comes to such a text (`fixText_settles_iff`).  That all passes are used up on texts with
fixes is a case that occurs: a pass may undo what the last one did (`fixText_swings`).
-/

namespace HookLint.Lint

open Syntax Scope Hook Stability Dependency Report Report.Fix

/-! ### How arrays are read -/

/-- A chain of names as it is written. -/
abbrev dotted (name : String) (path : List String) : String := ".".intercalate (name :: path)

/-- The parts of a chain are written in a tree as a name and as properties. -/
structure Spelled (src : Source) (root : Node) (name : String) (path : List String) : Prop where
  name : ∃ n ∈ root.preorder, n.kind.isName = true ∧ src.textOf n = name
  path : ∀ x ∈ path, ∃ n ∈ root.preorder, n.kind = .propertyIdentifier ∧ src.textOf n = x

/-- Arrays are read as they are written. -/
structure ReadsArrays (src : Source) (root : Node) : Prop where
  /-- If an array begins as a list of texts, each of which is that of an element or a chain of names
  of the program, then these are its elements. -/
  elements : ∀ n ∈ root.preorder, n.kind = .array → ∀ ws : List String,
    (∀ w ∈ ws, w ∈ n.elements.map src.textOf ∨
      ∃ name path, Spelled src root name path ∧ w = dotted name path) →
    bytesOf (arrayText ws) <+: (bytesOf src.text).drop n.start → n.elements.map src.textOf = ws
  /-- An element that is a chain has the parts that it is written with. -/
  chains : ∀ n ∈ root.preorder, n.kind = .array → ∀ e ∈ n.elements, ∀ r path,
    memberChain? src e = some (r, path) → ∀ name path', Spelled src root name path' →
      src.textOf e = dotted name path' → src.textOf r = name ∧ path = path'

/-- Where there are no arrays, nothing is to be read. -/
theorem readsArrays_of_no_array {src : Source} {root : Node}
    (h : ∀ n ∈ root.preorder, n.kind ≠ .array) : ReadsArrays src root where
  elements n hn hk := absurd hk (h n hn)
  chains n hn hk := absurd hk (h n hn)

/-- A parser that gives well-formed trees with spans between characters, and reads the arrays of
texts without errors as they are written. -/
structure Grammatical (parse : Parser) : Prop where
  wellFormed : ∀ text, (parse text).WellFormed
  bounded : ∀ text, (parse text).All (Bounded ⟨text⟩)
  readsArrays : ∀ text, Fault.ofTree? ⟨text⟩ (parse text) = none →
    ReadsArrays ⟨text⟩ (parse text)

/-! ### References are spelled -/

section Spelling

variable {src : Source} {root : Node} {site : Site} {c : Cursor}

/-- The properties of a chain are children of the nodes around its root. -/
theorem exists_of_mem_chain {current : Node} {above : List Node} {x : String}
    (h : x ∈ (chain src current above).1) : ∃ a ∈ above, ∃ q ∈ a.children,
      q.kind = .propertyIdentifier ∧ src.textOf q = x := by
  induction above generalizing current with
  | nil => cases h
  | cons parent rest ih =>
    rw [chain] at h
    split at h
    · next property hproperty =>
      split at h
      · next hstep =>
        rcases List.mem_cons.mp h with rfl | h
        · exact ⟨parent, List.mem_cons_self, property,
            Node.mem_children_of_child? hproperty, hstep.2.2, rfl⟩
        · obtain ⟨a, ha, hq⟩ := ih h
          exact ⟨a, List.mem_cons_of_mem _ ha, hq⟩
      · cases h
    · cases h

theorem mem_chain_of_mem_accessPath {x : String} (h : x ∈ accessPath src c) :
    x ∈ (chain src c.node c.ancestors).1 := by
  unfold accessPath at h
  split at h
  · next heq =>
    rw [heq]
    split at h
    · exact List.dropLast_subset _ h
    · exact h
  · next heq =>
    rw [heq]
    exact h

/-- A reference is written with a name and with properties of its program. -/
theorem spelled_of_reference {p : Program} (ht : p.tree = Tree.ofProgram p.source root) {d : Path}
    (hd : d ∈ Assoc.values (references p.source p.tree site).dependencies) :
    Spelled p.source root d.binding.name d.path := by
  have hvalid : p.tree.store.Valid := ht ▸ Tree.valid_ofProgram p.source root
  obtain ⟨⟨u, hu, hb, -⟩, hunwritten, -⟩ := (mem_values_iff hvalid).mp ⟨d, hd, rfl⟩
  have hpath : d.path <+: accessPath p.source u.cursor :=
    (prefix_path_iff hvalid hd d.path).mp List.prefix_rfl u hu hb (hunwritten u hu hb)
  have hmem : u ∈ p.tree.uses.toList := List.mem_of_mem_filter hu
  rw [ht] at hmem hb
  obtain ⟨hnode, habove⟩ := Node.mem_preorder_of_leads (Tree.leads_of_mem_uses hmem)
  refine ⟨⟨u.node, hnode, ?_, (Tree.name_of_bindingOf? hmem hb).symm⟩, fun x hx => ?_⟩
  · obtain ⟨before, after, c, a, y, he, -, rfl⟩ := Tree.meets_of_mem_uses hmem
    refine (nested_moduleEvents p.source root).isName_of_use (c := c) (a := a) ?_
    rw [he]
    simp
  · obtain ⟨a, ha, q, hq, hkind, htext⟩ :=
      exists_of_mem_chain (mem_chain_of_mem_accessPath (hpath.subset hx))
    exact ⟨q, Node.mem_preorder_of_mem_children (habove a ha) hq, hkind, htext⟩

end Spelling

/-! ### Every fix changes its array -/

section Progress

variable {rule : Rule} {src : Source} {root array : Node} {site : Site}

/-- A finding has a fix only if the array is to be changed. -/
theorem needsFix_of_mem_findings {p : Program} {d : Diagnostic} {f : Fix}
    (hcompared : Compared site array) (h : d ∈ rule.findings p site) (hf : d.fix = some f) :
    (diff (needsOf p rule.reportStatic [] site) (declaredIn p array)).needsFix = true := by
  by_contra hno
  unfold Rule.findings diagnostics comparedDiagnostics at h
  rw [reconcile_of_compared hcompared] at h
  simp only [if_neg hno, List.append_nil] at h
  rcases List.mem_append.mp h with h | h
  · obtain ⟨u, -, rfl⟩ := List.mem_map.mp h
    cases hf
  · obtain ⟨e, -, rfl⟩ := List.mem_map.mp h
    cases hf

/-- An element that is written like a missing path is complex: were it read as a chain, it would
cover the path. -/
theorem key?_of_source_eq (hroot : root.WellFormed) (hreads : ReadsArrays src root)
    (hsite : site ∈ Assoc.values (rule.program src root).sites) (hcompared : Compared site array)
    (harray : array ∈ root.preorder) {d : Declared} {m : Path} :
    let p := rule.program src root
    let declared := declaredIn p array
    m ∈ (diff (needsOf p rule.reportStatic [] site) declared).missing → d ∈ declared →
      d.source = m.render → d.key? = none := by
  intro p declared hm hd hsource
  obtain ⟨e, he, rfl⟩ := List.mem_map.mp hd
  obtain ⟨hrequired, huncovered⟩ := mem_missing_iff.mp hm
  have hreference := mem_values_of_required hrequired
  cases hchain : memberChain? src e with
  | none => simp [Declared.key?, declaredOf, targetOf, p, Rule.program, hchain]
  | some chain =>
    obtain ⟨r, path⟩ := chain
    have hspelled : Spelled src root m.binding.name m.path :=
      spelled_of_reference (p := p) rfl hreference
    obtain ⟨htext, rfl⟩ := hreads.chains array harray hcompared.is_array e he r path hchain _ _
      hspelled hsource
    have hbinding := bindingOf?_element hroot hsite hcompared he hchain
      (Or.inl ⟨m, hreference, rfl⟩) htext
    obtain ⟨-, v, -, hv⟩ := exists_use_of_mentions (Or.inl ⟨m, hreference, rfl⟩)
    have hcovers : (declaredOf src p.tree e).covers m = true :=
      (covers_declaredOf_iff (p := p) (Tree.valid_ofProgram src root) hv).mpr
        ⟨r, _, hchain, hbinding, List.prefix_rfl⟩
    have huncovers : (declaredOf src p.tree e).covers m = false := huncovered _ hd
    rw [hcovers] at huncovers
    cases huncovers

/-- **An array that is to be changed does not hold the text that is wanted.** -/
theorem texts_ne_wanted (hroot : root.WellFormed) (hreads : ReadsArrays src root)
    (hsite : site ∈ Assoc.values (rule.program src root).sites) (hcompared : Compared site array)
    (harray : array ∈ root.preorder) :
    let p := rule.program src root
    let d := diff (needsOf p rule.reportStatic [] site) (declaredIn p array)
    d.needsFix = true → array.elements.map src.textOf ≠
      d.kept.map (fun e => src.textOf e.node) ++ d.missing.map Path.render := by
  intro p d hneeds htexts
  have hkept : d.kept.map Declared.source = d.kept.map fun e => src.textOf e.node :=
    sources_kept p _ array
  have hsources : (declaredIn p array).map Declared.source =
      d.kept.map Declared.source ++ d.missing.map Path.render := by
    rw [hkept, ← htexts, declaredIn, List.map_map]
    rfl
  cases hmissing : d.missing with
  | nil =>
    -- each element stands for one that is kept, so all are
    have hlength := congrArg List.length hsources
    rw [hmissing, List.map_nil, List.append_nil, List.length_map, List.length_map] at hlength
    have hno : d.needsFix = false := needsFix_eq_false_of_length hmissing hlength.symm
    rw [hneeds] at hno
    cases hno
  | cons m rest =>
    -- the text of a missing path stands there once more than it is kept
    have hm : m ∈ d.missing := hmissing ▸ List.mem_cons_self
    have hcount : (d.kept.map Declared.source).count m.render =
        ((declaredIn p array).map Declared.source).count m.render := by
      rw [kept_diff]
      exact count_kept fun e he => key?_of_source_eq hroot hreads hsite hcompared harray hm he
    rw [hsources, List.count_append, hmissing, List.map_cons, List.count_cons_self] at hcount
    omega

end Progress

/-! ### Two arrays that depend on each other, read as they are written -/

section Swing

/-- The texts of the names in the program. -/
def swingNames : List String := ["C", "z", "a", "b", "useMemo"]

/-- What its arrays may hold. -/
def swingLists : List (List String) := [[], ["a"], ["b"]]

theorem spelled_swing {i j : Bool} {name : String} {path : List String}
    (h : Spelled ⟨swingText i j⟩ (swingProgram i j) name path) : name ∈ swingNames ∧ path = [] := by
  have hall : ∀ i j, ∀ n ∈ (swingProgram i j).preorder, n.kind ≠ .propertyIdentifier ∧
      (n.kind.isName = true → Source.textOf ⟨swingText i j⟩ n ∈ swingNames) := by decide +kernel
  obtain ⟨n, hn, hname, rfl⟩ := h.name
  refine ⟨(hall i j n hn).2 hname, List.eq_nil_iff_forall_not_mem.mpr fun x hx => ?_⟩
  obtain ⟨q, hq, hkind, -⟩ := h.path x hx
  exact (hall i j q hq).1 hkind

theorem arrays_swing : ∀ i j, ∀ n ∈ (swingProgram i j).preorder, n.kind = .array →
    (∀ e ∈ n.elements, e.kind = .identifier) ∧
    ∃ l ∈ swingLists, n.elements.map (Source.textOf ⟨swingText i j⟩) = l ∧
      bytesOf (arrayText l) <+: (bytesOf (swingText i j)).drop n.start := by decide +kernel

/-- One text does not begin as two of these lists. -/
theorem eq_of_begins {ws l : List String} {data : List UInt8} (hl : l ∈ swingLists)
    (hws : ∀ w ∈ ws, w ∈ swingNames) (h : bytesOf (arrayText ws) <+: data)
    (h' : bytesOf (arrayText l) <+: data) : ws = l := by
  match ws, hws with
  | [], _ =>
    have hnil : ∀ l ∈ swingLists, bytesOf (arrayText []) <+: bytesOf (arrayText l) ∨
        bytesOf (arrayText l) <+: bytesOf (arrayText []) → [] = l := by decide +kernel
    exact hnil l hl (List.prefix_or_prefix_of_prefix h h')
  | [w], hws =>
    have hone : ∀ w ∈ swingNames, ∀ l ∈ swingLists,
        bytesOf (arrayText [w]) <+: bytesOf (arrayText l) ∨
          bytesOf (arrayText l) <+: bytesOf (arrayText [w]) → [w] = l := by decide +kernel
    exact hone w (hws w List.mem_cons_self) l hl (List.prefix_or_prefix_of_prefix h h')
  | w :: v :: rest, hws =>
    -- after the first name there is a comma
    have hfirst : bytesOf ("[" ++ w ++ ", ") <+: bytesOf (arrayText (w :: v :: rest)) := by
      refine ⟨bytesOf (", ".intercalate (v :: rest) ++ "]"), ?_⟩
      rw [← bytesOf_append, arrayText, String.intercalate_cons_cons]
      simp only [String.append_assoc]
    have hcomma : ∀ w ∈ swingNames, ∀ l ∈ swingLists,
        ¬ (bytesOf ("[" ++ w ++ ", ") <+: bytesOf (arrayText l) ∨
          bytesOf (arrayText l) <+: bytesOf ("[" ++ w ++ ", ")) := by decide +kernel
    exact absurd (List.prefix_or_prefix_of_prefix (hfirst.trans h) h')
      (hcomma w (hws w List.mem_cons_self) l hl)

theorem readsArrays_swing (i j : Bool) : ReadsArrays ⟨swingText i j⟩ (swingProgram i j) := by
  constructor
  · intro n hn hkind ws hws hprefix
    obtain ⟨-, l, hl, htexts, hwritten⟩ := arrays_swing i j n hn hkind
    have hnames : ∀ l ∈ swingLists, ∀ w ∈ l, w ∈ swingNames := by decide
    rw [htexts] at hws ⊢
    refine (eq_of_begins hl (fun w hw => ?_) hprefix hwritten).symm
    rcases hws w hw with hmem | ⟨name, path, hspelled, rfl⟩
    · exact hnames l hl w hmem
    · obtain ⟨hname, rfl⟩ := spelled_swing hspelled
      exact hname
  · intro n hn hkind e he r path hchain name path' hspelled htext
    obtain ⟨-, rfl⟩ := spelled_swing hspelled
    have hname := (arrays_swing i j n hn hkind).1 e he
    have hunwrap : e.unwrap = e := by rw [Node.unwrap, if_neg (by rw [hname]; decide)]
    rw [memberChain?, hunwrap, hname] at hchain
    obtain ⟨rfl, rfl⟩ := Prod.mk.inj (Option.some.inj hchain)
    exact ⟨htext, rfl⟩

theorem grammatical_swingParser : Grammatical swingParser where
  wellFormed := faithful_swingParser.wellFormed
  bounded := bounded_swingParser
  readsArrays text _ := by
    rcases swingParser_cases text with ⟨i, j, rfl⟩ | h
    · rw [swingParser_swingText]
      exact readsArrays_swing i j
    · rw [h]
      refine readsArrays_of_no_array fun n hn hk => ?_
      rw [Node.preorder_of_children_nil rfl] at hn
      rw [List.mem_singleton.mp hn] at hk
      cases hk

end Swing

/-! ### Where fixing ends -/

section Ends

variable {parse : Parser} {f : Fix} {fixes : List Fix} {text : String}

/-- The leftmost replacement stands in the new text where its span begins. -/
theorem replacement_stands {data : List UInt8} (hstart : f.start ≤ data.length)
    (h : data = replaceSpans data (f :: fixes)) :
    bytesOf f.replacement <+: data.drop f.start := by
  have hlength : ((data.take f.start).drop 0).length = f.start := by
    rw [List.drop_zero, List.length_take_of_le hstart]
  refine ⟨replaceBetween data f.stop data.length fixes, ?_⟩
  conv_rhs => rw [h]
  rw [replaceSpans, replaceBetween, List.append_assoc, List.drop_left' hlength]

/-- **A text is stable exactly if its report has no fix.** -/
theorem stable_iff (hparse : Grammatical parse) (rule : Rule) (path text : String) :
    Stable rule parse path text ↔ (lintText rule parse path text).fixes = [] := by
  unfold Stable pass?
  constructor
  · intro h
    by_contra hsome
    let src : Source := ⟨text⟩
    let p := rule.program src (parse text)
    have hfit : ∀ f ∈ (lintText rule parse path text).fixes, Fits text f := fun f hf =>
      fits_of_mem_fixes (hparse.bounded text) hf
    obtain ⟨out, hout, hbytes⟩ := patch?_eq_replace hfit
    obtain rfl : out = text := Option.some.inj (hout.symm.trans h)
    -- the leftmost fix that is applied writes what stands there already
    obtain ⟨f, rest, happlied⟩ := List.exists_cons_of_ne_nil (applied_ne_nil hfit hsome)
    have hf : f ∈ (lintText rule parse path out).fixes :=
      mem_of_mem_applied (happlied ▸ List.mem_cons_self)
    have hle : f.start ≤ (bytesOf out).length := (hfit f hf).start_le.trans (hfit f hf).stop_le
    rw [happlied] at hbytes
    have hprefix := replacement_stands hle hbytes
    obtain ⟨hfault, site, hsite, d, hfind, hdf⟩ := exists_finding_of_mem_fixes hf
    obtain ⟨array, _, hcompared, rfl, hstart, -, htext⟩ := setsArray_of_mem_findings hfind hdf
    have hmem : array ∈ (parse out).preorder := by
      exact (all_of_arrayOf? (Node.all_mem_preorder _) hsite (arrayOf?_of_compared hcompared)).self
    have hreads := hparse.readsArrays out hfault
    rw [htext, hstart] at hprefix
    refine texts_ne_wanted (hparse.wellFormed out) hreads hsite hcompared hmem
      (needsFix_of_mem_findings hcompared hfind hdf) ?_
    refine hreads.elements array hmem hcompared.is_array _ (fun w hw => ?_) hprefix
    rcases List.mem_append.mp hw with hw | hw
    · obtain ⟨e, he, rfl⟩ := List.mem_map.mp hw
      rw [kept_diff] at he
      obtain ⟨n, hn, rfl⟩ := List.mem_map.mp (mem_kept he).1
      exact Or.inl (List.mem_map_of_mem hn)
    · obtain ⟨m, hm, rfl⟩ := List.mem_map.mp hw
      refine Or.inr ⟨m.binding.name, m.path, ?_, rfl⟩
      exact spelled_of_reference (p := p) rfl (mem_values_of_required (mem_missing_iff.mp hm).1)
  · intro h
    rw [h]
    exact patch?_nil text

/-- **When fixing settles.**  Let arrays be read as they are written.  A text is stable exactly if
its report has no fix.  Fixing has a result for every text, with the report on it.  The result is
stable exactly if one of the texts that ten passes come to at most has a report without fixes; then
fixing the result again returns it.  Otherwise each of the ten passes changed the text. -/
theorem fixText_settles_iff {parse : Parser} (hparse : Grammatical parse) (rule : Rule)
    (path s : String) :
    (∀ text, Stable rule parse path text ↔ (lintText rule parse path text).fixes = []) ∧
    ∃ t r, fixText rule parse path s = some (t, r) ∧ r = lintText rule parse path t ∧
      (Stable rule parse path t ↔ ∃ n ≤ maxPasses, ∃ u,
        Changes (pass? rule parse path) n s u ∧ (lintText rule parse path u).fixes = []) ∧
      (Stable rule parse path t → fixText rule parse path t = some (t, r)) ∧
      (¬ Stable rule parse path t → Changes (pass? rule parse path) maxPasses s t) := by
  have hstable := stable_iff hparse rule path
  obtain ⟨t, ht⟩ := exists_fixText hparse.bounded rule path s
  have hends := (fixText_eq_some_iff.mp ht).2
  refine ⟨hstable, t, _, ht, rfl, ⟨fun h => ?_, ?_⟩, Stable.fixText_eq, fun h => ?_⟩
  · rcases hends with ⟨k, hk, hc, -⟩ | hc
    · exact ⟨k, hk.le, t, hc, (hstable t).mp h⟩
    · exact ⟨maxPasses, Nat.le_refl _, t, hc, (hstable t).mp h⟩
  · rintro ⟨n, hn, u, hu, hnone⟩
    have hrests : pass? rule parse path u = some u := (hstable u).mpr hnone
    rcases hends with ⟨k, -, -, h⟩ | hc
    · exact h
    · -- the row of all passes goes on from `u`, where it rests
      obtain ⟨-, rfl⟩ := (hu.tail hc hn).eq_of_step_eq hrests
      exact hrests
  · rcases hends with ⟨k, -, -, hrests⟩ | hc
    · exact absurd hrests h
    · exact hc

/-- One pass fills the right array of the program, and the report on the result has no fix. -/
theorem fixText_settles_iff_swing : Grammatical swingParser ∧
    (lintText (swingRule false) swingParser "swing.js" (swingText true true)).fixes = [] ∧
    ∃ r, fixText (swingRule false) swingParser "swing.js" (swingText true false) =
        some (swingText true true, r) ∧
      fixText (swingRule false) swingParser "swing.js" (swingText true true) =
        some (swingText true true, r) := by
  obtain ⟨hstable, t, r, hfix, -, hsettles, hagain, -⟩ :=
    fixText_settles_iff grammatical_swingParser (swingRule false) "swing.js" (swingText true false)
  have hnone := (hstable (swingText true true)).mp swing_rests
  have hchange : Changes (pass? (swingRule false) swingParser "swing.js") 1 (swingText true false)
      (swingText true true) := .succ swing_fills (by decide) .zero
  have hrests := hsettles.mpr ⟨1, by decide, _, hchange, hnone⟩
  have hends := fixText_eq_some_iff.mpr ⟨rfl, Or.inl ⟨1, by decide, hchange, swing_rests⟩⟩
  obtain ⟨rfl, -⟩ := Prod.mk.inj (Option.some.inj (hends.symm.trans hfix))
  exact ⟨grammatical_swingParser, hnone, r, hfix, hagain hrests⟩

/-- **Fixing need not settle.**  If static references are reported, each pass undoes the last one,
so after ten passes the text is the first one again, and it is not stable. -/
theorem fixText_swings : Faithful swingParser ∧ Grammatical swingParser ∧
    ∃ r, fixText (swingRule true) swingParser "swing.js" (swingText true false) =
        some (swingText true false, r) ∧
      ¬ Stable (swingRule true) swingParser "swing.js" (swingText true false) := by
  obtain ⟨hfix, hunstable⟩ := fixText_of_turn swing_right swing_left (by decide)
  exact ⟨faithful_swingParser, grammatical_swingParser, _, hfix, hunstable⟩

end Ends

end HookLint.Lint
