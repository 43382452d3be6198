import HookLint.Lint.Summary
import HookLint.Proofs.Lint.FixPasses
import HookLint.Proofs.Lint.FixSpans
import Mathlib

/-!
# Proofs.Lint.Remaining — what a check leaves of a text

A check without fixing leaves a text as it is.  With fixing, every pass ends in a text, since the
fixes of a report stand between the characters of the text they were found in (`exists_pass?`); so
fixing never fails, however many passes it takes (`exists_remaining?`).  Either way the report is
that of the text which is left.
-/

namespace HookLint.Lint

open Syntax Report Report.Fix Files

/-! ### Fixing always ends in a text -/

section Total

variable {rule : Rule} {parse : Parser} {path text : String}

/-- A fix of a report comes from a finding of a site, in a text without errors. -/
theorem exists_finding_of_mem_fixes {f : Fix} (hf : f ∈ (lintText rule parse path text).fixes) :
    Fault.ofTree? ⟨text⟩ (parse text) = none ∧
      ∃ site ∈ Assoc.values (rule.program ⟨text⟩ (parse text)).sites,
        ∃ d ∈ rule.findings (rule.program ⟨text⟩ (parse text)) site, d.fix = some f := by
  obtain ⟨d, hd, hdf⟩ := List.mem_filterMap.mp hf
  unfold lintText at hd
  cases hfault : Fault.ofTree? ⟨text⟩ (parse text) with
  | some fault =>
    simp only [hfault] at hd
    cases hd
  | none =>
    simp only [hfault, List.mem_mergeSort, check_eq_flatMap] at hd
    obtain ⟨site, hsite, hfind⟩ := List.mem_flatMap.mp hd
    exact ⟨rfl, site, hsite, d, hfind, hdf⟩

theorem fits_of_mem_fixes {f : Fix} (hroot : (parse text).All (Bounded ⟨text⟩))
    (hf : f ∈ (lintText rule parse path text).fixes) : Fits text f := by
  obtain ⟨-, site, hsite, d, hfind, hdf⟩ := exists_finding_of_mem_fixes hf
  exact fits_of_arrayFix? hroot hsite (arrayFix?_of_mem_findings hfind hdf)

theorem exists_pass? (hroot : (parse text).All (Bounded ⟨text⟩)) (rule : Rule) (path : String) :
    ∃ fixed, pass? rule parse path text = some fixed := by
  have hfit : ∀ f ∈ (lintText rule parse path text).fixes, Fits text f := fun f hf =>
    fits_of_mem_fixes hroot hf
  obtain ⟨fixed, hfixed, -⟩ := patch?_eq_replace hfit
  exact ⟨fixed, hfixed⟩

/-- Fixing has a result, with the report on it. -/
theorem exists_fixText (hparse : ∀ text, (parse text).All (Bounded ⟨text⟩)) (rule : Rule)
    (path text : String) :
    ∃ left, fixText rule parse path text = some (left, lintText rule parse path left) := by
  obtain ⟨left, hleft⟩ := exists_settle (fun text => exists_pass? (hparse text) rule path)
    maxPasses text
  refine ⟨left, ?_⟩
  unfold fixText
  rw [fixPasses_eq_settle, hleft]
  rfl

end Total

/-! ### What is left -/

section Left

variable {rule : Rule} {parse : Parser} {fix : Bool} {path text left : String} {report : FileReport}

/-- What a check leaves of a text: the text, which is fixed if this is asked for, and the report on
it. -/
def remaining? (rule : Rule) (parse : Parser) (fix : Bool) (path text : String) :
    Option (String × FileReport) :=
  if fix then fixText rule parse path text else some (text, lintText rule parse path text)

theorem exists_remaining? (hparse : ∀ text, (parse text).All (Bounded ⟨text⟩)) (rule : Rule)
    (fix : Bool) (path text : String) :
    ∃ left report, remaining? rule parse fix path text = some (left, report) := by
  cases fix with
  | true =>
    obtain ⟨left, hleft⟩ := exists_fixText hparse rule path text
    exact ⟨left, _, hleft⟩
  | false => exact ⟨_, _, rfl⟩

theorem eq_of_remaining?_false (h : remaining? rule parse false path text = some (left, report)) :
    left = text ∧ report = lintText rule parse path text := by
  obtain ⟨rfl, rfl⟩ := Prod.mk.inj (Option.some.inj h)
  exact ⟨rfl, rfl⟩

/-- The report is that of the text which is left. -/
theorem report_of_remaining? (h : remaining? rule parse fix path text = some (left, report)) :
    report = lintText rule parse path left := by
  cases fix with
  | true => exact (fixText_eq_some_iff.mp h).1
  | false =>
    obtain ⟨rfl, rfl⟩ := eq_of_remaining?_false h
    rfl

theorem path_lintText (rule : Rule) (parse : Parser) (path text : String) :
    (lintText rule parse path text).path = path := by
  unfold lintText
  dsimp only
  split <;> rfl

end Left

/-! ### Totals -/

namespace Summary

theorem problemCount_eq_sum (s : Summary) :
    s.problemCount = (s.records.map fun r => r.report.diagnostics.length).sum := by
  unfold problemCount findings
  rw [List.length_flatMap]

theorem fixableCount_eq_sum (s : Summary) : s.fixableCount =
    (s.records.map fun r => r.report.diagnostics.countP fun d => d.fix.isSome).sum := by
  unfold fixableCount findings
  rw [List.countP_flatMap]
  rfl

theorem faultCount_eq_sum (s : Summary) :
    s.faultCount = (s.records.map fun r => r.report.fault.isSome.toNat).sum := by
  unfold faultCount
  induction s.records with
  | nil => rfl
  | cons r records ih =>
    rw [List.countP_cons, ih, List.map_cons, List.sum_cons]
    cases r.report.fault <;> simp [Nat.add_comm]

/-- There is nothing to report if no file has a finding or a fault. -/
theorem clean_iff (s : Summary) : s.clean = true ↔
    ∀ r ∈ s.records, r.report.diagnostics = [] ∧ r.report.fault = none := by
  unfold clean
  rw [Bool.and_eq_true, decide_eq_true_eq, decide_eq_true_eq]
  constructor
  · rintro ⟨hproblems, hfaults⟩ r hr
    have hnone : s.findings = [] := List.eq_nil_of_length_eq_zero hproblems
    have hfault := List.countP_eq_zero.mp hfaults r hr
    refine ⟨List.flatMap_eq_nil_iff.mp hnone r hr, ?_⟩
    simpa using hfault
  · intro h
    have hnone : s.findings = [] := List.flatMap_eq_nil_iff.mpr fun r hr => (h r hr).1
    refine ⟨by rw [problemCount, hnone]; rfl, List.countP_eq_zero.mpr fun r hr => ?_⟩
    simp [(h r hr).2]

end Summary

end HookLint.Lint
