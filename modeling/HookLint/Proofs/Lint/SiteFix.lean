import HookLint.Proofs.Lint.MissingDependency

/-!
# Proofs.Lint.SiteFix — the fix of a site

A site has one fix at most: it sets the array literal of the site to the elements that are kept and
the missing paths (`Rule.arrayFix?`).  All findings of the site that have a fix have this one
(`arrayFix?_of_mem_findings`).

The second part computes findings without the closure of labels, for sites whose references have
labels of their own.  Where `plainCheck?` gives an answer, the answer is right.
-/

namespace HookLint.Lint

open Syntax Scope Hook Stability Dependency Report

/-! ### The fix of a site -/

/-- The array literal in the place of the dependencies of a site. -/
def arrayOf? (site : Site) : Option Node :=
  (site.dependencies.map Node.unwrap).filter fun n => n.kind = .array

/-- The text for the array of a site: the elements that are kept, then the missing paths. -/
def wantedText (r : Reconciliation) : String :=
  arrayText (r.diff.kept.map Declared.source ++ r.diff.missing.map Path.render)

/-- Sets the span of an array to a text. -/
def arrayFix (array : Node) (text : String) : Fix :=
  ⟨array.start, array.stop, text, "Update the dependencies array to be: " ++ text⟩

/-- Sets the array of a site to the text that is wanted for it. -/
def Rule.arrayFix? (rule : Rule) (p : Program) (site : Site) : Option Fix :=
  (arrayOf? site).map fun array =>
    arrayFix array (wantedText (reconcile p rule.reportStatic [] site).1)

section Fixes

variable {p : Program} {rule : Rule} {site : Site} {array : Node} {r : Reconciliation} {f : Fix}
  {d : Diagnostic}

theorem arrayOf?_of_compared (h : Compared site array) : arrayOf? site = some array := by
  unfold arrayOf?
  rw [h.array_eq, Option.filter_some_pos (by simpa using h.is_array)]

theorem array?_reconcile (p : Program) (reportStatic : Bool) (cache : Cache) (site : Site) :
    (reconcile p reportStatic cache site).1.array? = arrayOf? site := by
  unfold reconcile arrayOf?
  cases hd : site.dependencies with
  | none => rfl
  | some argument =>
    by_cases hk : argument.unwrap.kind = .array
    · rw [Option.map_some, Option.filter_some_pos (by simpa using hk)]
      simp only [hk, ne_eq, not_true_eq_false, if_false]
      split
      · rfl
      · split <;> rfl
    · rw [Option.map_some, Option.filter_some_neg (by simpa using hk)]
      simp only [hk, ne_eq, not_false_eq_true, if_true]
      rfl

/-- The elements that are kept are written as they stand in the text. -/
theorem sources_kept (p : Program) (needs : Needs) (array : Node) :
    (diff needs (declaredIn p array)).kept.map Declared.source =
      (diff needs (declaredIn p array)).kept.map fun e => p.source.textOf e.node := by
  refine List.map_congr_left fun e he => ?_
  rw [kept_diff] at he
  obtain ⟨n, -, rfl⟩ := List.mem_map.mp (mem_kept he).1
  rfl

/-- There is a fix if all missing paths can be written. -/
theorem buildFix?_eq_some_iff : buildFix? r = some f ↔ ∃ array, r.array? = some array ∧
    (∀ d ∈ r.diff.missing, isExpressible d.render = true) ∧ arrayFix array (wantedText r) = f := by
  unfold buildFix?
  cases r.array? with
  | none => simp
  | some array => simp [arrayFix, wantedText]

theorem fix_of_mem_defectDiagnostic {src : Source} {hook : String} {kind : DiagnosticKind}
    {defect : Defect} {names : List String} {fix : Option Fix}
    (h : d ∈ defectDiagnostic src array hook kind defect names fix) : d.fix = fix := by
  unfold defectDiagnostic at h
  split at h
  · cases h
  · rw [List.mem_singleton.mp h]
    rfl

/-- The findings of a comparison have the given fix or none. -/
theorem fix_of_mem_comparedDiagnostics {src : Source} {hook : String} {diff : Diff}
    {unstable : List Unstable} {fix : Option Fix}
    (h : d ∈ comparedDiagnostics src hook array diff unstable fix) (hf : d.fix = some f) :
    fix = some f := by
  rw [comparedDiagnostics_eq] at h
  simp only [List.mem_append, List.mem_map] at h
  rcases h with (((⟨u, -, rfl⟩ | ⟨e, -, rfl⟩) | h) | h) | h
  · cases hf
  · cases hf
  all_goals rwa [fix_of_mem_defectDiagnostic h] at hf

/-- A finding with a fix comes from a comparison, and the fix is that of the site. -/
theorem compared_of_mem_diagnostics {src : Source} (h : d ∈ diagnostics src r)
    (hf : d.fix = some f) :
    buildFix? r = some f ∧ ∃ array diff unstable, r.outcome = .compared array diff unstable := by
  unfold diagnostics at h
  cases ho : r.outcome with
  | compared array diff unstable =>
    simp only [ho] at h
    exact ⟨fix_of_mem_comparedDiagnostics h hf, array, diff, unstable, rfl⟩
  | unchecked => simp [ho] at h
  | notArray argument =>
    simp only [ho, List.mem_singleton] at h
    rw [h] at hf
    cases hf
  | spread argument array =>
    simp only [ho, List.mem_singleton] at h
    rw [h] at hf
    cases hf
  | passedCallback array unknown =>
    simp only [ho] at h
    split at h
    · rw [List.mem_singleton.mp h] at hf
      cases hf
    · cases h

/-- **One fix for each site.** -/
theorem arrayFix?_of_mem_findings (h : d ∈ rule.findings p site) (hf : d.fix = some f) :
    rule.arrayFix? p site = some f := by
  obtain ⟨array, harray, -, rfl⟩ := buildFix?_eq_some_iff.mp (compared_of_mem_diagnostics h hf).1
  rw [array?_reconcile] at harray
  unfold Rule.arrayFix?
  rw [harray, Option.map_some]

end Fixes

/-! ### Findings without the closure of labels

The findings of a plain site are computed from the own labels of its references. -/

section Plain

variable {p : Program} {site : Site} {array : Node}

/-- The array of a site, if the site is plain. -/
def plainArray? (p : Program) (site : Site) : Option Node :=
  (arrayOf? site).filter fun array =>
    site.hasInlineCallback && array.elements.all (fun e => e.kind ≠ .spreadElement) &&
      (Assoc.values (references p.source p.tree site).dependencies).all fun d =>
        (ownLabel? p d.binding.id).isSome

theorem plain_of_plainArray? (h : plainArray? p site = some array) : Plain p site array := by
  obtain ⟨harray, hall⟩ := Option.filter_eq_some_iff.mp h
  obtain ⟨hdeps, hkind⟩ := Option.filter_eq_some_iff.mp harray
  simp only [Bool.and_eq_true, List.all_eq_true, decide_eq_true_eq] at hall hkind
  exact ⟨⟨hall.1.1, hdeps, hkind, hall.1.2⟩, hall.2⟩

/-- The findings of a plain site whose missing paths are among those given. -/
def plainFindings? (p : Program) (reportStatic : Bool) (paths : List String) (site : Site) :
    Option (List Diagnostic) :=
  (plainArray? p site).bind fun array =>
    let r := plainReconciliation p reportStatic site array
    if r.diff.missing.all fun d => paths.contains d.render then
      some (comparedDiagnostics p.source site.name array r.diff r.unstable
        (some (arrayFix array (wantedText r))))
    else none

/-- The findings of a program all of whose sites are plain. -/
def Rule.plainCheck? (rule : Rule) (src : Source) (root : Node) (paths : List String) :
    Option (List Diagnostic) :=
  let p := rule.program src root
  ((Assoc.values p.sites).mapM (plainFindings? p rule.reportStatic paths)).map List.flatten

variable {rule : Rule} {paths : List String} {found : List Diagnostic}

theorem findings_of_plainFindings? (hpaths : ∀ s ∈ paths, isExpressible s = true)
    (h : plainFindings? p rule.reportStatic paths site = some found) :
    rule.findings p site = found := by
  obtain ⟨array, harray, h⟩ := Option.bind_eq_some_iff.mp h
  simp only [Option.ite_none_right_eq_some, List.all_eq_true, List.contains_iff_mem] at h
  obtain ⟨hmem, h⟩ := h
  have hfix : buildFix? (plainReconciliation p rule.reportStatic site array) = some (arrayFix array
      (wantedText (plainReconciliation p rule.reportStatic site array))) :=
    buildFix?_eq_some_iff.mpr ⟨array, rfl, fun d hd => hpaths _ (hmem d hd), rfl⟩
  unfold Rule.findings
  rw [(plain_of_plainArray? harray).reconcile_eq, ← Option.some.inj h, ← hfix]
  rfl

theorem map_findings_of_plain {sites : List Site} {parts : List (List Diagnostic)}
    (hpaths : ∀ s ∈ paths, isExpressible s = true)
    (h : sites.mapM (plainFindings? p rule.reportStatic paths) = some parts) :
    sites.map (rule.findings p) = parts := by
  induction sites generalizing parts with
  | nil => exact Option.some.inj h
  | cons site sites ih =>
    rw [List.mapM_cons] at h
    obtain ⟨first, hfirst, h⟩ := Option.bind_eq_some_iff.mp h
    obtain ⟨rest, hrest, h⟩ := Option.bind_eq_some_iff.mp h
    rw [List.map_cons, findings_of_plainFindings? hpaths hfirst, ih hrest]
    exact Option.some.inj h

/-- What is computed without the closure is what the rule finds. -/
theorem check_of_plainCheck? {src : Source} {root : Node}
    (hpaths : ∀ s ∈ paths, isExpressible s = true)
    (h : rule.plainCheck? src root paths = some found) : rule.check src root = found := by
  obtain ⟨parts, hparts, rfl⟩ := Option.map_eq_some_iff.mp h
  rw [check_eq_flatMap, List.flatMap_def, map_findings_of_plain hpaths hparts]

/-- The names of the small programs can be written. -/
theorem isExpressible_letter : ∀ s ∈ ["a", "b", "p"], isExpressible s = true := by
  have hsplit : ∀ s ∈ ["a", "b", "p"], String.splitOnAux s "." 0 0 0 [] = [s] := by
    intro s hs
    simp only [List.mem_cons, List.not_mem_nil, or_false] at hs
    -- the only character is no dot, and then the end is reached
    rcases hs with rfl | rfl | rfl <;>
      rw [String.splitOnAux, if_neg (by decide +kernel), if_neg (by decide +kernel),
        String.splitOnAux, if_pos (by decide +kernel)] <;> decide +kernel
  intro s hs
  unfold isExpressible String.splitOn
  rw [if_neg (by decide), hsplit s hs]
  revert s
  decide +kernel

end Plain

end HookLint.Lint
