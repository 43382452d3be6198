import HookLint.Proofs.Lint.SiteFix

/-!
# Proofs.Lint.ArrayAccount — nothing is lost between an array and its fix

A comparison deals the elements of an array out to three lists: the kept, the unnecessary and the
duplicate ones.  `Diff.Account` says that this is an account of the array: each element goes to one
list, the lists keep the order of the array, and the elements with one key have one survivor at
most.  What is missing is found by looking at all elements, but the kept ones alone would do, since
the first element with a covering key is kept (`missing_eq_filter_kept`).

So the fix of a site writes the texts of the survivors, as they stand in the array, and then the
missing paths in the order in which they are required (`array_accounted`).
-/

namespace HookLint.Dependency

/-- What becomes of the elements of an array in a comparison. -/
structure Diff.Account (d : Diff) : Prop where
  /-- Each element has one fate, and the lists hold the elements with their fates in the order of
  the array.  Duplicates are the plain elements with the key of an earlier plain element. -/
  dealt : ∃ es : List (Declared × Fate), es.map Prod.fst = d.declared ∧
    d.kept = withFate .kept es ∧ d.unnecessary = withFate .unnecessary es ∧
    d.duplicates = withFate .duplicate es ∧
    ∀ before e f after, es = before ++ (e, f) :: after →
      (f = .duplicate ↔ e.isComplex = false ∧
        ∃ e' ∈ before.map Prod.fst, e'.isComplex = false ∧ e'.key? = e.key?)
  /-- The complex elements are those of the kept ones, and all there are. -/
  complex_eq : d.complex = d.kept.filter Declared.isComplex ∧
    d.complex = d.declared.filter Declared.isComplex
  /-- No two plain elements with one key survive. -/
  kept_apart : d.kept.Pairwise fun e e' =>
    e.isComplex = false → e'.isComplex = false → e.key? ≠ e'.key?
  /-- A required path is missing exactly if no kept element covers it. -/
  missing_eq : d.missing = d.required.filter fun r => !d.kept.any fun e => e.covers r
  /-- What is unnecessary covers nothing that is required. -/
  unnecessary_idle : ∀ e ∈ d.unnecessary, ∀ r ∈ d.required, e.covers r = false

section Account

variable {needs : Needs} {declared : List Declared} {d : Declared} {k : Key}

theorem isComplex_eq_false_iff : d.isComplex = false ↔ ∃ k, d.key? = some k := by
  rw [← Bool.not_eq_true, isComplex_iff]
  exact Option.ne_none_iff_exists'

/-- The plain elements before an element have its key if the keys before it do. -/
theorem mem_keys_before_iff {before : List Declared} (hk : d.key? = some k) :
    k ∈ before.filterMap Declared.key? ↔
      ∃ e ∈ before, e.isComplex = false ∧ e.key? = d.key? := by
  rw [List.mem_filterMap, hk]
  constructor
  · rintro ⟨e, he, hek⟩
    exact ⟨e, he, isComplex_eq_false_iff.mpr ⟨k, hek⟩, hek⟩
  · rintro ⟨e, he, -, hek⟩
    exact ⟨e, he, hek⟩

/-- An element is a duplicate exactly if an earlier plain element has its key. -/
theorem duplicate_iff_earlier {f : Fate} {before after : List (Declared × Fate)}
    (h : fates needs [] declared = before ++ (d, f) :: after) :
    f = .duplicate ↔ d.isComplex = false ∧
      ∃ e ∈ before.map Prod.fst, e.isComplex = false ∧ e.key? = d.key? := by
  have hf := fate_of_split h
  rw [List.nil_append] at hf
  rw [hf, fate_eq_duplicate_iff]
  constructor
  · rintro ⟨k, hk, hseen⟩
    exact ⟨isComplex_eq_false_iff.mpr ⟨k, hk⟩, (mem_keys_before_iff hk).mp hseen⟩
  · rintro ⟨hplain, hearlier⟩
    obtain ⟨k, hk⟩ := isComplex_eq_false_iff.mp hplain
    exact ⟨k, hk, (mem_keys_before_iff hk).mpr hearlier⟩

/-- Different keys, read as a statement about pairs of elements. -/
theorem pairwise_key_ne {ds : List Declared} (h : (ds.filterMap Declared.key?).Nodup) :
    ds.Pairwise fun e e' => e.isComplex = false → e'.isComplex = false → e.key? ≠ e'.key? := by
  refine (List.pairwise_filterMap.mp h).imp fun {e e'} hne hplain _ heq => ?_
  obtain ⟨k, hk⟩ := isComplex_eq_false_iff.mp hplain
  have hk' : e'.key? = some k := heq.symm.trans hk
  exact hne k hk k hk' rfl

/-- Duplicates and unnecessary elements are never the only cover. -/
theorem missing_eq_filter_kept (needs : Needs) (declared : List Declared) :
    (diff needs declared).missing =
      needs.required.filter fun r => !(diff needs declared).kept.any fun e => e.covers r := by
  refine List.filter_congr fun r hr => congrArg (!·) ?_
  rw [Bool.eq_iff_iff, List.any_eq_true, List.any_eq_true]
  constructor
  · rintro ⟨e, he, hcov⟩
    refine exists_kept_covers hr fun hmissing => ?_
    have hno := (mem_missing_iff.mp hmissing).2 e he
    rw [hcov] at hno
    cases hno
  · rintro ⟨e, he, hcov⟩
    rw [kept_diff] at he
    exact ⟨e, (mem_kept he).1, hcov⟩

theorem covers_eq_false_of_unnecessary {r : Path}
    (hd : d ∈ (diff needs declared).unnecessary) (hr : r ∈ needs.required) :
    d.covers r = false := by
  rw [unnecessary_diff] at hd
  obtain ⟨before, after, hsplit⟩ := List.append_of_mem (mem_withFate_iff.mp hd)
  have hfate := fate_of_split hsplit
  have hno := (fate_eq_unnecessary_iff.mp hfate.symm).2
  by_contra hcov
  have hadm : needs.admits d = true := admits_iff.mpr (.inl ⟨r, hr, by simpa using hcov⟩)
  rw [hno] at hadm
  cases hadm

/-- **Every comparison is an account of its elements.** -/
theorem account_diff (needs : Needs) (declared : List Declared) :
    (diff needs declared).Account where
  dealt := ⟨fates needs [] declared, map_fst_fates _ _ _, kept_diff _ _, unnecessary_diff _ _,
    duplicates_diff _ _, fun _ _ _ _ h => duplicate_iff_earlier h⟩
  complex_eq := by rw [complex_diff, kept_diff, filter_keptOf]; exact ⟨rfl, rfl⟩
  kept_apart := by rw [kept_diff]; exact pairwise_key_ne (nodup_keys_kept needs [] declared)
  missing_eq := missing_eq_filter_kept needs declared
  unnecessary_idle := fun _ he _ hr => covers_eq_false_of_unnecessary he hr

end Account

end HookLint.Dependency

namespace HookLint.Lint

open Syntax Scope Hook Stability Dependency Report

/-- **Nothing is lost and nothing is made up.**  Where the array of a site is compared, there is one
declared element for each named child of the array that is no comment, in their order, and the
comparison is an account of these elements.  The fix of the site is there if all missing paths can
be written; it sets the array to the texts of the kept elements in their order, and then the missing
paths, which come in the order of the required ones. -/
theorem array_accounted {p : Program} {reportStatic : Bool} {cache : Cache} {site : Site}
    {array : Node} {d : Diff} {unstable : List Unstable}
    (h : (reconcile p reportStatic cache site).1.outcome = .compared array d unstable) :
    d.declared = (array.children.filter fun c => c.named && decide (c.kind ≠ .comment)).map
      (declaredOf p.source p.tree) ∧
    d.Account ∧ d.missing.Sublist d.required ∧
    buildFix? (reconcile p reportStatic cache site).1 =
      if ∀ r ∈ d.missing, isExpressible r.render = true then
        some (arrayFix array (arrayText
          (d.kept.map (fun e => p.source.textOf e.node) ++ d.missing.map Path.render)))
      else none := by
  have hd := diff_of_outcome h
  have hdeclared : d.declared = array.elements.map (declaredOf p.source p.tree) := by
    rw [hd]
    rfl
  have hsources := sources_kept p (needsOf p reportStatic cache site) array
  rw [← hd] at hsources
  refine ⟨?_, hd ▸ account_diff _ _, ?_, ?_⟩
  · rw [hdeclared, Node.elements, Node.namedChildren, List.filter_filter]
    simp only [Bool.and_comm]
  · rw [hd]
    exact List.filter_sublist
  · rw [← hsources]
    unfold buildFix? Reconciliation.array? Reconciliation.diff
    simp only [h, List.all_map, List.all_eq_true]
    rfl

/-! ### An array with elements of every kind

In `function C(p,a){useEffect(()=>[p,a],[p,p,b,b()])}` the first element is needed, the second
repeats it, the third is a global, and the last one is complex.  The array lacks `a`. -/

def mixedText : Source := ⟨"function C(p,a)\x7buseEffect(()=>[p,a],[p,p,b,b()])\x7d"⟩

def mixedName (start : Nat) (field : Option Field := none) : Node :=
  { kind := .identifier, field, start, stop := start + 1 }

def mixedCallback : Node :=
  { kind := .arrowFunction, start := 26, stop := 35
    children := [{ kind := .array, field := some .body, start := 30, stop := 35
                   children := [mixedName 31, mixedName 33] }] }

def mixedArray : Node :=
  { kind := .array, start := 36, stop := 47
    children := [
      mixedName 37, mixedName 39, mixedName 41,
      { kind := .callExpression, start := 43, stop := 46
        children := [
          mixedName 43 (some .function),
          { kind := .arguments, field := some .arguments, start := 44, stop := 46 }] }] }

def mixedCall : Node :=
  { kind := .callExpression, start := 16, stop := 48
    children := [
      { kind := .identifier, field := some .function, start := 16, stop := 25 },
      { kind := .arguments, field := some .arguments, start := 25, stop := 48
        children := [mixedCallback, mixedArray] }] }

def mixedProgram : Node :=
  { kind := .other "program", start := 0, stop := 49
    children := [
      { kind := .functionDeclaration, start := 0, stop := 49
        children := [
          mixedName 9 (some .name),
          { kind := .other "formal_parameters", field := some .parameters, start := 10, stop := 15
            children := [mixedName 11, mixedName 13] },
          { kind := .statementBlock, field := some .body, start := 15, stop := 49
            children := [mixedCall] }] }] }

def mixedSite : Site where
  name := "useEffect"
  kind := .effect
  node := mixedCall
  callback := mixedCallback
  dependencies := some mixedArray
  scope := 1

def mixedRun : Program := (Rule.ofOptions {}).program mixedText mixedProgram

theorem plain_mixedSite : Plain mixedRun mixedSite mixedArray where
  compared := by
    refine ⟨rfl, ?_, rfl, by decide⟩
    show some mixedArray.unwrap = some mixedArray
    rw [Node.unwrap, if_neg (by decide)]
  labelled := by
    have hall : ((Assoc.values (references mixedRun.source mixedRun.tree
        mixedSite).dependencies).all fun d => (ownLabel? mixedRun d.binding.id).isSome) = true := by
      decide +kernel
    exact List.all_eq_true.mp hall

/-- The array is set to its two survivors and the missing parameter. -/
theorem array_accounted_mixed : ∃ d unstable,
    (reconcile mixedRun false [] mixedSite).1.outcome = .compared mixedArray d unstable ∧
    d.unnecessary.map Declared.source = ["b"] ∧ d.duplicates.map Declared.source = ["p"] ∧
    buildFix? (reconcile mixedRun false [] mixedSite).1 =
      some (arrayFix mixedArray "[p, b(), a]") := by
  have hplain := plain_mixedSite.reconcile_eq false
  have houtcome := congrArg Reconciliation.outcome hplain
  refine ⟨_, _, houtcome, by decide +kernel, by decide +kernel, ?_⟩
  obtain ⟨-, -, -, hfix⟩ := array_accounted houtcome
  rw [hfix, if_pos]
  · decide +kernel
  · have hmissing : ((plainReconciliation mixedRun false mixedSite mixedArray).diff.missing.all
        fun r => ["a", "b", "p"].contains r.render) = true := by decide +kernel
    intro r hr
    have hletter := List.all_eq_true.mp hmissing r hr
    exact isExpressible_letter _ (List.contains_iff_mem.mp hletter)

end HookLint.Lint
