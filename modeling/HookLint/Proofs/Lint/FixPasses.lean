import HookLint.Lint.Linter
import HookLint.Proofs.Lint.FixSpans

/-!
# Proofs.Lint.FixPasses — the passes of repeated fixing

Fixing a text is a row of passes, each of which applies the fixes of the report on the text so far.
Such a loop ends at a state that a step leaves as it is, or when its steps are used up
(`settle_eq_some_iff`).

The rest of the module computes passes by way of `Rule.plainCheck?`, for the texts of one program:
with one rule a pass fills an array and the next one rests, with another rule passes turn two texts
into each other.
-/

namespace HookLint.Lint

open Syntax Scope Hook Stability Dependency Report

/-! ### Steps until nothing changes -/

section Loop

variable {α : Type}

/-- `n` steps in a row lead from one state to another, and each of them changes the state. -/
inductive Changes (step : α → Option α) : Nat → α → α → Prop where
  | zero {s : α} : Changes step 0 s s
  | succ {n : Nat} {s s' t : α} : step s = some s' → s' ≠ s → Changes step n s' t →
      Changes step (n + 1) s t

variable {step : α → Option α} {n m : Nat} {s t u : α}

theorem Changes.append (h₁ : Changes step n s t) (h₂ : Changes step m t u) :
    Changes step (n + m) s u := by
  induction h₁ with
  | zero => rwa [Nat.zero_add]
  | @succ n s s' t hp hne _ ih =>
    rw [Nat.add_right_comm]
    exact succ hp hne (ih h₂)

/-- A state that a step leaves as it is does not change. -/
theorem Changes.eq_of_step_eq (h : Changes step n s t) (hs : step s = some s) : n = 0 ∧ s = t := by
  cases h with
  | zero => exact ⟨rfl, rfl⟩
  | succ hp hne _ => exact absurd (Option.some.inj (hp.symm.trans hs)) hne

/-- Rows of changes from one state go the same way. -/
theorem Changes.tail (h₁ : Changes step n s t) (h₂ : Changes step m s u) (hle : n ≤ m) :
    Changes step (m - n) t u := by
  induction h₁ generalizing m with
  | zero => exact h₂
  | @succ n s s' t hp _ _ ih =>
    cases h₂ with
    | zero => exact absurd hle (Nat.not_succ_le_zero n)
    | @succ m _ s'' _ hp' _ h₂ =>
      obtain rfl := Option.some.inj (hp.symm.trans hp')
      rw [Nat.add_sub_add_right]
      exact ih h₂ (Nat.le_of_succ_le_succ hle)

variable [DecidableEq α]

/-- Steps until one of them leaves the state as it is, at most `n` of them. -/
def settle (step : α → Option α) : Nat → α → Option α
  | 0, s => some s
  | n + 1, s => (step s).bind fun s' => if s' = s then some s else settle step n s'

/-- **Steps end where nothing changes**, or after `n` changes. -/
theorem settle_eq_some_iff : settle step n s = some t ↔
    (∃ k < n, Changes step k s t ∧ step t = some t) ∨ Changes step n s t := by
  induction n generalizing s with
  | zero =>
    constructor
    · intro h
      obtain rfl := Option.some.inj h
      exact Or.inr .zero
    · rintro (⟨k, hk, -⟩ | h)
      · exact absurd hk (Nat.not_lt_zero k)
      · cases h
        rfl
  | succ n ih =>
    rw [settle, Option.bind_eq_some_iff]
    constructor
    · rintro ⟨s', hp, h⟩
      split at h
      · next heq =>
        obtain rfl := Option.some.inj h
        subst heq
        exact Or.inl ⟨0, Nat.succ_pos n, .zero, hp⟩
      · next hne =>
        rcases ih.mp h with ⟨k, hk, hc, hs⟩ | hc
        · exact Or.inl ⟨k + 1, Nat.succ_lt_succ hk, .succ hp hne hc, hs⟩
        · exact Or.inr (.succ hp hne hc)
    · rintro (⟨k, hk, hc, hs⟩ | hc)
      · cases hc with
        | zero => exact ⟨t, hs, if_pos rfl⟩
        | @succ k s s' t hp hne hc =>
          refine ⟨s', hp, ?_⟩
          rw [if_neg hne]
          exact ih.mpr (Or.inl ⟨k, Nat.lt_of_succ_lt_succ hk, hc, hs⟩)
      · cases hc with
        | @succ n s s' t hp hne hc =>
          refine ⟨s', hp, ?_⟩
          rw [if_neg hne]
          exact ih.mpr (Or.inr hc)

/-- If every step has a result, so has the row. -/
theorem exists_settle (h : ∀ s, ∃ s', step s = some s') (n : Nat) (s : α) :
    ∃ t, settle step n s = some t := by
  induction n generalizing s with
  | zero => exact ⟨s, rfl⟩
  | succ n ih =>
    obtain ⟨s', hs'⟩ := h s
    rw [settle, hs', Option.bind_some]
    by_cases hsame : s' = s
    · exact ⟨s, if_pos hsame⟩
    · rw [if_neg hsame]
      exact ih s'

end Loop

/-! ### Passes -/

section Passes

variable (rule : Rule) (parse : Parser) (path : String)

/-- The text after one pass. -/
def pass? (text : String) : Option String :=
  Fix.patch? text (lintText rule parse path text).fixes

/-- A pass leaves the text as it is. -/
def Stable (text : String) : Prop := pass? rule parse path text = some text

variable {rule parse path} {s t : String} {r : FileReport}

/-- The path of a text names its report and decides nothing else. -/
theorem pass?_path (rule : Rule) (parse : Parser) (path path' text : String) :
    pass? rule parse path text = pass? rule parse path' text := by
  have hfixes : (lintText rule parse path text).fixes = (lintText rule parse path' text).fixes := by
    unfold lintText
    dsimp only
    split <;> rfl
  unfold pass?
  rw [hfixes]

/-- Fixing is taking passes until nothing changes; the report is that of the result. -/
theorem fixPasses_eq_settle (rule : Rule) (parse : Parser) (path : String) (n : Nat) (s : String) :
    fixPasses rule parse path n s (lintText rule parse path s) =
      (settle (pass? rule parse path) n s).map fun t => (t, lintText rule parse path t) := by
  induction n generalizing s with
  | zero => rfl
  | succ n ih =>
    rw [fixPasses, settle, pass?]
    cases Fix.patch? s (lintText rule parse path s).fixes with
    | none => rfl
    | some s' =>
      simp only [Option.bind_some]
      split
      · rfl
      · exact ih s'

/-- Fixing ends at a stable text, or where the last pass leads. -/
theorem fixText_eq_some_iff : fixText rule parse path s = some (t, r) ↔
    r = lintText rule parse path t ∧
      ((∃ k < maxPasses, Changes (pass? rule parse path) k s t ∧ Stable rule parse path t) ∨
        Changes (pass? rule parse path) maxPasses s t) := by
  unfold fixText Stable
  rw [fixPasses_eq_settle, ← settle_eq_some_iff, Option.map_eq_some_iff]
  constructor
  · rintro ⟨u, hu, heq⟩
    obtain ⟨rfl, rfl⟩ := Prod.mk.inj heq
    exact ⟨rfl, hu⟩
  · rintro ⟨rfl, ht⟩
    exact ⟨t, ht, rfl⟩

/-- Fixing leaves a stable text as it is. -/
theorem Stable.fixText_eq (h : Stable rule parse path t) :
    fixText rule parse path t = some (t, lintText rule parse path t) :=
  fixText_eq_some_iff.mpr ⟨rfl, Or.inl ⟨0, by decide, .zero, h⟩⟩

/-- Two texts that passes turn into each other are not stable, and fixing returns to where it
began, since the number of passes is even. -/
theorem fixText_of_turn (hthere : pass? rule parse path s = some t)
    (hback : pass? rule parse path t = some s) (hne : t ≠ s) :
    fixText rule parse path s = some (s, lintText rule parse path s) ∧
      ¬ Stable rule parse path s := by
  have hturn : Changes (pass? rule parse path) 2 s s :=
    .succ hthere hne (.succ hback hne.symm .zero)
  have hturns : Changes (pass? rule parse path) maxPasses s s :=
    hturn.append (hturn.append (hturn.append (hturn.append hturn)))
  refine ⟨fixText_eq_some_iff.mpr ⟨rfl, Or.inr hturns⟩, fun hstable => hne ?_⟩
  exact Option.some.inj (hthere.symm.trans hstable)

end Passes

/-! ### Passes that compute -/

section Compute

variable {rule : Rule} {parse : Parser} {path text : String} {paths : List String}
  {fixes : List Fix} {found : List Diagnostic}

/-- The report on a text, computed without the closure of labels. -/
theorem lintText_of_plainCheck? (hpaths : ∀ s ∈ paths, isExpressible s = true)
    (hfault : Fault.ofTree? ⟨text⟩ (parse text) = none)
    (hcheck : rule.plainCheck? ⟨text⟩ (parse text) paths = some found)
    (hsorted : found.Pairwise fun a b => earlier a b = true) :
    lintText rule parse path text = { path, diagnostics := found } := by
  unfold lintText
  simp only [hfault, check_of_plainCheck? hpaths hcheck, List.mergeSort_of_pairwise hsorted]

theorem pass?_of_plainCheck? (hpaths : ∀ s ∈ paths, isExpressible s = true)
    (hfault : Fault.ofTree? ⟨text⟩ (parse text) = none)
    (hfound : (rule.plainCheck? ⟨text⟩ (parse text) paths).any (fun found =>
      found.Pairwise (fun a b => earlier a b = true) ∧ found.filterMap (·.fix) = fixes) = true) :
    pass? rule parse path text = Fix.patch? text fixes := by
  obtain ⟨found, hcheck, hfound⟩ := (Option.any_eq_true _ _).mp hfound
  obtain ⟨hsorted, hfixes⟩ := of_decide_eq_true hfound
  unfold pass?
  rw [lintText_of_plainCheck? hpaths hfault hcheck hsorted, ← hfixes]
  rfl

end Compute

/-! ### Trees of texts -/

/-- The leaves of a tree, in order. -/
def leaves (n : Node) : List Node :=
  if n.children.isEmpty then [n] else n.children.attach.flatMap fun c => leaves c.1
termination_by sizeOf n
decreasing_by exact Node.sizeOf_of_mem_children c.2

/-- The leaves of a tree spell a text: the tokens are written as they are called, and outside of
the leaves there are blanks only. -/
structure Spells (text : String) (root : Node) : Prop where
  token : ∀ n ∈ leaves root, n.named = false → Source.textOf ⟨text⟩ n = n.kind.name
  covered : ∀ i < text.utf8ByteSize,
    (∃ n ∈ leaves root, n.start ≤ i ∧ i < n.stop) ∨ (Fix.bytesOf text)[i]? = some 32

/-- A parser whose trees are well-formed and spell their texts. -/
structure Faithful (parse : Parser) : Prop where
  wellFormed : ∀ text, (parse text).WellFormed
  spells : ∀ text, Spells text (parse text)

/-! ### Two arrays that depend on each other

In `function C(z){const a=useMemo(()=>z=b,[b]),b=useMemo(()=>z=a,[])}` each value reads the other.
Both callbacks write a parameter, so a value is static only if its array is empty. -/

/-- The text, where the arrays hold their name or nothing. -/
def swingText (i j : Bool) : String :=
  "function C(z)\x7bconst a=useMemo(()=>z=b,[" ++ cond i "b" "" ++
    "]),b=useMemo(()=>z=a,[" ++ cond j "a" "" ++ "])\x7d"

def swingName (start : Nat) (field : Option Field := none) : Node :=
  { kind := .identifier, field, start, stop := start + 1 }

/-- The array of a value, with its name or without. -/
def swingArray (start : Nat) (i : Bool) : Node :=
  { kind := .array, start, stop := start + i.toNat + 2
    children := tokenAt "[" start :: cond i [swingName (start + 1)] [] ++
      [tokenAt "]" (start + i.toNat + 1)] }

/-- A callback that writes the parameter. -/
def swingCallback (start : Nat) : Node :=
  { kind := .arrowFunction, start, stop := start + 7
    children := [
      { kind := .other "formal_parameters", field := some .parameters, start, stop := start + 2
        children := [tokenAt "(" start, tokenAt ")" (start + 1)] },
      tokenAt "=>" (start + 2),
      { kind := .assignment, field := some .body, start := start + 4, stop := start + 7
        children := [
          swingName (start + 4) (some .left), tokenAt "=" (start + 5),
          swingName (start + 6) (some .right)] }] }

/-- The declaration of a value. -/
def swingValue (start : Nat) (i : Bool) : Node :=
  { kind := .variableDeclarator, start, stop := start + i.toNat + 21
    children := [
      swingName start (some .name),
      tokenAt "=" (start + 1),
      { kind := .callExpression, field := some .value, start := start + 2
        stop := start + i.toNat + 21
        children := [
          { kind := .identifier, field := some .function, start := start + 2, stop := start + 9 },
          { kind := .arguments, field := some .arguments, start := start + 9
            stop := start + i.toNat + 21
            children := [
              tokenAt "(" (start + 9), swingCallback (start + 10), tokenAt "," (start + 17),
              swingArray (start + 18) i, tokenAt ")" (start + i.toNat + 20)] }] }] }

/-- The tree of the text. -/
def swingProgram (i j : Bool) : Node :=
  let stop := i.toNat + j.toNat + 64
  { kind := .other "program", start := 0, stop
    children := [
      { kind := .functionDeclaration, start := 0, stop
        children := [
          tokenAt "function" 0,
          swingName 9 (some .name),
          { kind := .other "formal_parameters", field := some .parameters, start := 10, stop := 13
            children := [tokenAt "(" 10, swingName 11, tokenAt ")" 12] },
          { kind := .statementBlock, field := some .body, start := 13, stop
            children := [
              tokenAt "\x7b" 13,
              { kind := .lexicalDeclaration, start := 14, stop := i.toNat + j.toNat + 63
                children := [
                  { tokenAt "const" 14 with field := some .kind },
                  swingValue 20 i,
                  tokenAt "," (i.toNat + 41),
                  swingValue (i.toNat + 42) j] },
              tokenAt "\x7d" (i.toNat + j.toNat + 63)] }] }] }

/-- A parser for these texts; a text that is none of them is one error. -/
def swingParser : Parser := fun text =>
  ([(false, false), (false, true), (true, false), (true, true)].find? fun p =>
    swingText p.1 p.2 = text).elim
      { kind := .error, broken := true, start := 0, stop := text.utf8ByteSize }
      fun p => swingProgram p.1 p.2

def swingRule (reportStatic : Bool) : Rule := Rule.ofOptions { checkMemoized := true, reportStatic }

theorem swingParser_swingText (i j : Bool) : swingParser (swingText i j) = swingProgram i j := by
  cases i <;> cases j <;> rfl

theorem wellFormed_swingProgram (i j : Bool) : (swingProgram i j).WellFormed := by
  revert i j
  decide +kernel

theorem spells_swingProgram (i j : Bool) : Spells (swingText i j) (swingProgram i j) := by
  constructor
  · revert i j
    decide +kernel
  · revert i j
    decide +kernel

theorem leaves_of_children_nil {n : Node} (h : n.children = []) : leaves n = [n] := by
  rw [leaves, if_pos (by rw [h]; rfl)]

/-- An error that spans the whole text spells it. -/
theorem spells_error (text : String) :
    Spells text { kind := .error, broken := true, start := 0, stop := text.utf8ByteSize } := by
  constructor
  · rw [leaves_of_children_nil rfl]
    intro n hn hnamed
    rw [List.mem_singleton.mp hn] at hnamed
    cases hnamed
  · intro i hi
    rw [leaves_of_children_nil rfl]
    exact Or.inl ⟨_, List.mem_singleton_self _, Nat.zero_le i, hi⟩

/-- A text is one of these, or it is one error. -/
theorem swingParser_cases (text : String) : (∃ i j, text = swingText i j) ∨ swingParser text =
    { kind := .error, broken := true, start := 0, stop := text.utf8ByteSize } := by
  unfold swingParser
  cases hf : [(false, false), (false, true), (true, false), (true, true)].find? fun p =>
      swingText p.1 p.2 = text with
  | none => exact Or.inr rfl
  | some p =>
    have hp := List.find?_some hf
    simp only [decide_eq_true_eq] at hp
    exact Or.inl ⟨p.1, p.2, hp.symm⟩

theorem faithful_swingParser : Faithful swingParser := by
  constructor
  · intro text
    rcases swingParser_cases text with ⟨i, j, rfl⟩ | h
    · rw [swingParser_swingText]
      exact wellFormed_swingProgram i j
    · rw [h]
      exact .intro (fun c hc => nomatch hc) .nil (fun hk => nomatch hk) fun c hc => nomatch hc
  · intro text
    rcases swingParser_cases text with ⟨i, j, rfl⟩ | h
    · rw [swingParser_swingText]
      exact spells_swingProgram i j
    · rw [h]
      exact spells_error text

theorem bounded_swingParser (text : String) : (swingParser text).All (Bounded ⟨text⟩) := by
  rcases swingParser_cases text with ⟨i, j, rfl⟩ | h
  · rw [swingParser_swingText]
    revert i j
    decide +kernel
  · rw [h]
    refine .intro ⟨Nat.zero_le _, String.Pos.Raw.isValid_zero, ?_⟩ fun c hc => nomatch hc
    exact String.Pos.Raw.isValid_rawEndPos

/-- What the arrays hold after a pass.  A value is static exactly if its array is empty.  If static
references are reported, an array is to hold its name exactly if the other one does; otherwise it
may also keep the name. -/
def swingNext (reportStatic i j : Bool) : Bool × Bool :=
  if reportStatic then (j, i) else (i || j, i || j)

/-- The fixes of the program, in order. -/
def swingFixes (reportStatic i j : Bool) : List Fix :=
  let next := swingNext reportStatic i j
  (if next.1 = i then [] else [arrayFix (swingArray 38 i) (cond next.1 "[b]" "[]")]) ++
    if next.2 = j then [] else [arrayFix (swingArray (i.toNat + 60) j) (cond next.2 "[a]" "[]")]

/-- **A pass over the program.** -/
theorem pass?_swing (reportStatic i j : Bool) :
    pass? (swingRule reportStatic) swingParser "swing.js" (swingText i j) =
      some (swingText (swingNext reportStatic i j).1 (swingNext reportStatic i j).2) := by
  have hfound : ∀ r i j, ((swingRule r).plainCheck? ⟨swingText i j⟩ (swingProgram i j)
      ["a", "b", "p"]).any (fun found => found.Pairwise (fun a b => earlier a b = true) ∧
        found.filterMap (·.fix) = swingFixes r i j) = true := by
    decide +kernel
  -- the right array is replaced before the left one
  have hdone : ∀ r i j, let order := (swingFixes r i j).reverse
      order.Perm (Fix.distinct (swingFixes r i j)) ∧
      order.Pairwise (fun a b => Fix.precedes b a = false) ∧
      String.fromUTF8? ⟨(Fix.applyInOrder (Fix.bytesOf (swingText i j))
        ((Fix.bytesOf (swingText i j)).length + 1) order).toArray⟩ =
          some (swingText (swingNext r i j).1 (swingNext r i j).2) := by
    decide +kernel
  obtain ⟨hperm, hlast, htext⟩ := hdone reportStatic i j
  have hparse := swingParser_swingText i j
  have hfault : Fault.ofTree? ⟨swingText i j⟩ (swingParser (swingText i j)) = none := by
    rw [hparse]
    cases i <;> cases j <;> rfl
  have hfound := hfound reportStatic i j
  rw [← hparse] at hfound
  rw [pass?_of_plainCheck? isExpressible_letter hfault hfound, Fix.patch?, Fix.applyBytes,
    Fix.ordered_eq hperm hlast]
  exact htext

/-- If static references are reported, the name moves from the left array to the right one. -/
theorem swing_right : pass? (swingRule true) swingParser "swing.js" (swingText true false) =
    some (swingText false true) := pass?_swing true true false

/-- The next pass moves it back. -/
theorem swing_left : pass? (swingRule true) swingParser "swing.js" (swingText false true) =
    some (swingText true false) := pass?_swing true false true

/-- If static references may stand in an array, only the right array changes. -/
theorem swing_fills : pass? (swingRule false) swingParser "swing.js" (swingText true false) =
    some (swingText true true) := pass?_swing false true false

/-- With both arrays filled, nothing is left to do. -/
theorem swing_rests : Stable (swingRule false) swingParser "swing.js" (swingText true true) :=
  pass?_swing false true true

end HookLint.Lint
