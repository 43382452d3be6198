import HookLint.Proofs.Report.Replacement
import HookLint.Report.Diagnostic
import Mathlib.Data.List.Induction

/-!
# Proofs.Report.Selection — which fixes are applied

Fixes are taken from the right, and one that reaches into the last one taken is passed over.  What
is taken is a largest choice of its kind: a fix that is passed over overlaps one that is taken and
starts no earlier (`chosen_maximal`).

Equal fixes count once, and the order of application is by spans.  So if each span has one
replacement, the order of application is known from the set of fixes alone, and the text after them
is the same however they are listed (`applyBytes_congr`).
-/

namespace HookLint.Report.Fix

/-- Two spans overlap if neither ends at the start of the other or before. -/
def Overlaps (a b : Fix) : Prop := ¬ (a.stop ≤ b.start ∨ b.stop ≤ a.start)

/-! ### Equal fixes -/

/-- What a fix does, without the words about it. -/
def bare (f : Fix) : Fix := { f with description := "" }

section Distinct

variable {fixes : List Fix} {f g : Fix}

theorem same_iff : same f g = true ↔
    f.start = g.start ∧ f.stop = g.stop ∧ f.replacement = g.replacement := by
  unfold same
  simp [and_assoc]

theorem same_iff_bare : same f g = true ↔ bare f = bare g := by
  rw [same_iff]
  unfold bare
  simp

theorem distinct_concat (fixes : List Fix) (f : Fix) :
    distinct (fixes ++ [f]) =
      if (distinct fixes).any f.same then distinct fixes else distinct fixes ++ [f] := by
  simp [distinct, List.foldl_append]

/-- No two of the distinct fixes do the same. -/
theorem pairwise_distinct (fixes : List Fix) :
    (distinct fixes).Pairwise fun a b => same a b = false := by
  induction fixes using List.reverseRecOn with
  | nil => exact List.Pairwise.nil
  | append_singleton fixes f ih =>
    rw [distinct_concat]
    split
    · exact ih
    · next hnew =>
      refine List.pairwise_append.mpr ⟨ih, List.pairwise_singleton _ _, fun a ha b hb => ?_⟩
      obtain rfl := List.mem_singleton.mp hb
      by_contra hsame
      have hba : same b a = true := by
        rw [same_iff_bare]
        exact (same_iff_bare.mp (by simpa using hsame)).symm
      exact hnew (List.any_eq_true.mpr ⟨a, ha, hba⟩)

theorem mem_of_mem_distinct (h : f ∈ distinct fixes) : f ∈ fixes :=
  mem_of_mem_ordered (List.mem_mergeSort.mpr h)

/-- Each fix is among the distinct ones, but for its words. -/
theorem exists_same_of_mem (h : f ∈ fixes) : ∃ g ∈ distinct fixes, same f g = true := by
  induction fixes using List.reverseRecOn with
  | nil => cases h
  | append_singleton fixes e ih =>
    have hkeep : ∀ x ∈ distinct fixes, x ∈ distinct (fixes ++ [e]) := by
      intro x hx
      rw [distinct_concat]
      split
      · exact hx
      · exact List.mem_append_left _ hx
    rcases List.mem_append.mp h with h | h
    · obtain ⟨g, hg, hs⟩ := ih h
      exact ⟨g, hkeep g hg, hs⟩
    · obtain rfl := List.mem_singleton.mp h
      by_cases hany : (distinct fixes).any f.same = true
      · obtain ⟨g, hg, hs⟩ := List.any_eq_true.mp hany
        exact ⟨g, hkeep g hg, hs⟩
      · refine ⟨f, ?_, same_iff_bare.mpr rfl⟩
        rw [distinct_concat, if_neg hany]
        exact List.mem_append_right _ (List.mem_singleton.mpr rfl)

theorem nodup_map_bare_distinct (fixes : List Fix) : ((distinct fixes).map bare).Nodup := by
  refine List.pairwise_map.mpr ((pairwise_distinct fixes).imp fun {a b} hab heq => ?_)
  rw [same_iff_bare.mpr heq] at hab
  cases hab

theorem mem_map_bare_distinct_iff :
    g ∈ (distinct fixes).map bare ↔ g ∈ fixes.map bare := by
  constructor
  · intro h
    obtain ⟨f, hf, rfl⟩ := List.mem_map.mp h
    exact List.mem_map.mpr ⟨f, mem_of_mem_distinct hf, rfl⟩
  · intro h
    obtain ⟨f, hf, rfl⟩ := List.mem_map.mp h
    obtain ⟨e, he, hs⟩ := exists_same_of_mem hf
    exact List.mem_map.mpr ⟨e, he, (same_iff_bare.mp hs).symm⟩

end Distinct

/-! ### The fixes that are passed over -/

section Chosen

variable {fs : List Fix} {f g : Fix} {limit : Nat}

theorem chosen_sublist (limit : Nat) (fs : List Fix) : (chosen limit fs).Sublist fs := by
  induction fs generalizing limit with
  | nil => exact List.Sublist.refl _
  | cons f fs ih =>
    rw [chosen]
    split
    · exact (ih limit).cons f
    · exact (ih f.start).cons_cons f

/-- A fix that comes later and reaches beyond the start of another one overlaps it. -/
theorem overlaps_of_precedes (hg : g.start ≤ g.stop) (hgf : precedes g f = true)
    (hreach : g.start < f.stop) : f.start ≤ g.start ∧ Overlaps f g := by
  have hle := precedes_iff.mp hgf
  refine ⟨by omega, ?_⟩
  -- an empty span to the right of which nothing is left would have come first
  rintro (h | h) <;> omega

/-- What is not taken reaches beyond the limit, or overlaps what is taken and starts no earlier. -/
theorem chosen_maximal (hspan : ∀ f ∈ fs, f.start ≤ f.stop)
    (hsorted : fs.Pairwise fun a b => precedes a b = true) (hf : f ∈ fs) :
    f ∈ chosen limit fs ∨ limit < f.stop ∨
      ∃ g ∈ chosen limit fs, f.start ≤ g.start ∧ Overlaps f g := by
  induction fs generalizing limit with
  | nil => cases hf
  | cons g fs ih =>
    have hfs : ∀ f ∈ fs, f.start ≤ f.stop := fun f hf => hspan f (List.mem_cons_of_mem _ hf)
    obtain ⟨hfirst, hrest⟩ := List.pairwise_cons.mp hsorted
    rw [chosen]
    split
    · next hlimit =>
      rcases List.mem_cons.mp hf with rfl | hf
      · exact Or.inr (Or.inl hlimit)
      · exact ih hfs hrest hf
    · rcases List.mem_cons.mp hf with rfl | hf
      · exact Or.inl List.mem_cons_self
      · rcases ih hfs hrest hf with hin | hreach | ⟨e, he, hover⟩
        · exact Or.inl (List.mem_cons_of_mem _ hin)
        · have hgf := hfirst f hf
          have hg := hspan g List.mem_cons_self
          exact Or.inr (Or.inr ⟨g, List.mem_cons_self, overlaps_of_precedes hg hgf hreach⟩)
        · exact Or.inr (Or.inr ⟨e, List.mem_cons_of_mem _ he, hover⟩)

end Chosen

/-! ### The applied fixes -/

section Applied

variable {source : String} {fixes : List Fix} {f : Fix}

theorem pairwise_applied_distinct (source : String) (fixes : List Fix) :
    (applied source fixes).Pairwise fun a b => same a b = false := by
  have hsymm : ∀ {a b : Fix}, same a b = false → same b a = false := by
    intro a b hab
    by_contra hba
    have heq := same_iff_bare.mp (by simpa using hba)
    rw [same_iff_bare.mpr heq.symm] at hab
    cases hab
  have hordered : (ordered fixes).Pairwise fun a b => same a b = false :=
    (List.mergeSort_perm (distinct fixes) precedes).symm.pairwise (pairwise_distinct fixes) hsymm
  refine List.pairwise_reverse.mpr ?_
  exact (hordered.sublist (chosen_sublist _ _)).imp hsymm

theorem pairwise_applied_apart (hspan : ∀ f ∈ fixes, f.start ≤ f.stop) :
    (applied source fixes).Pairwise fun a b => ¬ Overlaps a b :=
  (ascending_applied hspan).imp fun hab hover => hover (Or.inl hab)

/-- Every fix is applied, or overlaps one that is applied and starts no earlier. -/
theorem applied_maximal (hin : ∀ f ∈ fixes, InRange source f) (hf : f ∈ fixes) :
    (∃ g ∈ applied source fixes, same f g = true) ∨
      ∃ g ∈ applied source fixes, f.start ≤ g.start ∧ Overlaps f g := by
  obtain ⟨e, he, hs⟩ := exists_same_of_mem hf
  obtain ⟨hstart, hstop, -⟩ := same_iff.mp hs
  have hspan : ∀ f ∈ ordered fixes, f.start ≤ f.stop := fun f hf =>
    (hin f (mem_of_mem_ordered hf)).start_le
  have heo : e ∈ ordered fixes := List.mem_mergeSort.mpr he
  have hlimit := (hin e (mem_of_mem_ordered heo)).stop_le
  rcases chosen_maximal hspan (pairwise_ordered fixes) heo with hc | hbeyond | ⟨g, hg, hover⟩
  · exact Or.inl ⟨e, List.mem_reverse.mpr hc, hs⟩
  · exact absurd hbeyond (Nat.not_lt.mpr hlimit)
  · refine Or.inr ⟨g, List.mem_reverse.mpr hg, ?_⟩
    unfold Overlaps at hover ⊢
    rw [hstart, hstop]
    exact hover

end Applied

/-! ### The order of the report -/

section Congr

variable {fixes fixes' : List Fix}

theorem applyInOrder_map_bare (data : List UInt8) (limit : Nat) (fs : List Fix) :
    applyInOrder data limit (fs.map bare) = applyInOrder data limit fs := by
  induction fs generalizing data limit with
  | nil => rfl
  | cons f fs ih =>
    rw [List.map_cons, applyInOrder, applyInOrder, ih, ih]
    rfl

/-- If each span has one replacement, the order of application is that of the spans. -/
theorem map_bare_ordered_congr (hmem : ∀ g, g ∈ fixes.map bare ↔ g ∈ fixes'.map bare)
    (hone : ∀ f ∈ fixes, ∀ g ∈ fixes, f.start = g.start → f.stop = g.stop →
      f.replacement = g.replacement) :
    (ordered fixes).map bare = (ordered fixes').map bare := by
  have hdistinct : ((distinct fixes).map bare).Perm ((distinct fixes').map bare) := by
    refine (List.perm_ext_iff_of_nodup (nodup_map_bare_distinct _)
      (nodup_map_bare_distinct _)).mpr fun g => ?_
    rw [mem_map_bare_distinct_iff, mem_map_bare_distinct_iff, hmem]
  have hperm : ((ordered fixes).map bare).Perm ((ordered fixes').map bare) :=
    ((List.mergeSort_perm (distinct fixes) precedes).map bare).trans
      (hdistinct.trans ((List.mergeSort_perm (distinct fixes') precedes).map bare).symm)
  have hsorted : ∀ fs : List Fix, ((ordered fs).map bare).Pairwise fun a b => precedes a b = true :=
    fun fs => List.pairwise_map.mpr (pairwise_ordered fs)
  refine hperm.eq_of_pairwise (fun a b ha hb hab hba => ?_) (hsorted fixes) (hsorted fixes')
  obtain ⟨f, hf, rfl⟩ := List.mem_map.mp ha
  obtain ⟨g, hg, rfl⟩ := List.mem_map.mp (hperm.mem_iff.mpr hb)
  have hfg : g.start < f.start ∨ f.start = g.start ∧ g.stop ≤ f.stop := precedes_iff.mp hab
  have hgf : f.start < g.start ∨ g.start = f.start ∧ f.stop ≤ g.stop := precedes_iff.mp hba
  have hstart : f.start = g.start := by omega
  have hstop : f.stop = g.stop := by omega
  refine same_iff_bare.mp (same_iff.mpr ⟨hstart, hstop, ?_⟩)
  exact hone f (mem_of_mem_ordered hf) g (mem_of_mem_ordered hg) hstart hstop

theorem applyBytes_congr (source : String)
    (hmem : ∀ g, g ∈ fixes.map bare ↔ g ∈ fixes'.map bare)
    (hone : ∀ f ∈ fixes, ∀ g ∈ fixes, f.start = g.start → f.stop = g.stop →
      f.replacement = g.replacement) :
    applyBytes source fixes = applyBytes source fixes' := by
  unfold applyBytes
  rw [← applyInOrder_map_bare, map_bare_ordered_congr hmem hone, applyInOrder_map_bare]

end Congr

/-- **Fixes are one replacement, whatever the order of the report.**  Take the fixes of findings,
with spans that lie in the text.  There is a choice of them, no two of which do the same or overlap,
such that the bytes after all fixes are those of the text with each chosen span replaced where it
stands; a fix that does the same as none of the chosen ones overlaps one of them that starts at or
after it.  If no span has two replacements, findings that are listed in another order, or several
times, give the same.  If the spans begin and end between characters, there is a text with the
resulting bytes. -/
theorem fixes_applied_at_once {source : String} {ds : List Diagnostic}
    (hin : ∀ f ∈ ds.filterMap (·.fix), f.start ≤ f.stop ∧ f.stop ≤ (bytesOf source).length) :
    (∃ A : List Fix, A ⊆ ds.filterMap (·.fix) ∧
      (A.Pairwise fun a b => same a b = false) ∧ (A.Pairwise fun a b => ¬ Overlaps a b) ∧
      (∀ f ∈ ds.filterMap (·.fix), (∃ g ∈ A, same f g = true) ∨
        ∃ g ∈ A, f.start ≤ g.start ∧ Overlaps f g) ∧
      Ascending A ∧
      applyBytes source (ds.filterMap (·.fix)) = replaceSpans (bytesOf source) A ∧
      ∀ out, patch? source (ds.filterMap (·.fix)) = some out →
        bytesOf out = replaceSpans (bytesOf source) A) ∧
    ((∀ f ∈ ds.filterMap (·.fix), ∀ g ∈ ds.filterMap (·.fix), f.start = g.start →
        f.stop = g.stop → f.replacement = g.replacement) →
      ∀ ds' : List Diagnostic, (∀ d, d ∈ ds' ↔ d ∈ ds) →
        applyBytes source (ds'.filterMap (·.fix)) = applyBytes source (ds.filterMap (·.fix)) ∧
        patch? source (ds'.filterMap (·.fix)) = patch? source (ds.filterMap (·.fix))) ∧
    ((∀ f ∈ ds.filterMap (·.fix), IsBoundary source f.start ∧ IsBoundary source f.stop) →
      ∃ out, patch? source (ds.filterMap (·.fix)) = some out ∧
        bytesOf out = applyBytes source (ds.filterMap (·.fix))) := by
  have hrange : ∀ f ∈ ds.filterMap (·.fix), InRange source f := fun f hf =>
    ⟨(hin f hf).1, (hin f hf).2⟩
  have hspan : ∀ f ∈ ds.filterMap (·.fix), f.start ≤ f.stop := fun f hf => (hin f hf).1
  have hbytes := applyBytes_eq_replace hrange
  refine ⟨⟨applied source (ds.filterMap (·.fix)), fun f => mem_of_mem_applied,
    pairwise_applied_distinct _ _, pairwise_applied_apart hspan,
    fun f => applied_maximal hrange, ascending_applied hspan, hbytes, ?_⟩, ?_, ?_⟩
  · intro out hout
    rw [← hbytes]
    exact bytesOf_of_fromUTF8? hout
  · intro hone ds' hds
    have hmem : ∀ g, g ∈ (ds.filterMap (·.fix)).map bare ↔
        g ∈ (ds'.filterMap (·.fix)).map bare := by
      intro g
      simp only [List.mem_map, List.mem_filterMap, hds]
    have hcongr := (applyBytes_congr source hmem hone).symm
    refine ⟨hcongr, ?_⟩
    unfold patch?
    rw [hcongr]
  · intro hfit
    have hfits : ∀ f ∈ ds.filterMap (·.fix), Fits source f := fun f hf =>
      ⟨hspan f hf, (hfit f hf).1, (hfit f hf).2⟩
    obtain ⟨out, hout, -⟩ := patch?_eq_replace hfits
    exact ⟨out, hout, bytesOf_of_fromUTF8? hout⟩

/-- A finding whose fix replaces its own span. -/
def findingAt (start stop : Nat) (replacement : String) : Diagnostic :=
  { kind := .missingDependency, message := "", hook := "", names := [], start, stop
    position := ⟨1, 1⟩, fix := some { start, stop, replacement } }

/-- Spans that overlap, touch and are empty, one of them listed twice. -/
def tangledFindings : List Diagnostic :=
  [findingAt 1 3 "x", findingAt 2 5 "é", findingAt 2 2 "-", findingAt 1 3 "x", findingAt 5 6 ""]

/-- From the right or from the left, the findings are applied alike. -/
theorem fixes_applied_at_once_tangled :
    (∀ f ∈ tangledFindings.filterMap (·.fix),
      f.start ≤ f.stop ∧ f.stop ≤ (bytesOf "abcdef").length) ∧
    ∃ out A, patch? "abcdef" (tangledFindings.filterMap (·.fix)) = some out ∧
      patch? "abcdef" (tangledFindings.reverse.filterMap (·.fix)) = some out ∧
      bytesOf out = replaceSpans (bytesOf "abcdef") A ∧ A.Pairwise fun a b => ¬ Overlaps a b := by
  have hin : ∀ f ∈ tangledFindings.filterMap (·.fix),
      f.start ≤ f.stop ∧ f.stop ≤ (bytesOf "abcdef").length := by decide +kernel
  obtain ⟨⟨A, -, -, hapart, -, -, -, hout⟩, horder, htext⟩ := fixes_applied_at_once hin
  obtain ⟨out, hpatch, -⟩ := htext (by decide +kernel)
  obtain ⟨-, hreverse⟩ := horder (by decide +kernel) tangledFindings.reverse
    fun d => List.mem_reverse
  exact ⟨hin, out, A, hpatch, hreverse.trans hpatch, hout out hpatch, hapart⟩

end HookLint.Report.Fix
