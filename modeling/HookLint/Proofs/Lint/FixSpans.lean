import HookLint.Proofs.Dependency.Hygiene
import HookLint.Proofs.Lint.SiteFix
import HookLint.Proofs.Report.Replacement
import HookLint.Proofs.Scope.Reach

/-!
# Proofs.Lint.FixSpans — fixes touch nothing but dependency arrays

The fix of a finding sets the array of its site (`Proofs.Lint.SiteFix`).  This array is a node of
the program, so its span begins and ends between characters of the text if all spans do.
The fixes of a program then act as one replacement of disjoint arrays
(`Proofs.Report.Replacement`), and the result is a text again.
-/

namespace HookLint.Lint

open Syntax Scope Hook Stability Dependency Report Report.Fix

/-! ### Where the arrays stand -/

section Spans

variable {registry : Registry} {src : Source} {root n c : Node} {site : Site} {P : Node → Prop}

theorem all_of_mem_arguments (h : n.All P) (hc : c ∈ n.arguments) : c.All P := by
  obtain ⟨list, hl, -, hc⟩ := exists_list_of_mem_arguments hc
  exact (h.child? hl).child (Node.mem_children_of_mem_elements hc)

/-- The array of a site is a node of the program. -/
theorem all_of_arrayOf? (hroot : root.All P)
    (hsite : site ∈ Assoc.values (registry.sites src (Tree.ofProgram src root)))
    (harray : arrayOf? site = some n) : n.All P := by
  obtain ⟨argument, hd, rfl⟩ := Option.map_eq_some_iff.mp (Option.filter_eq_some_iff.mp harray).1
  obtain ⟨call, hcall, hclass⟩ := exists_call_of_mem_sites hsite
  rcases Tree.exists_split_of_mem_calls hcall with hnone | ⟨before, after, he, -⟩
  · simp at hnone
  · have hmet : .call call.node ∈ moduleEvents src root := by
      rw [he]
      simp
    obtain ⟨i, -, hdeps, -, -⟩ := exists_index_of_classify? hclass
    have hargument : argument ∈ call.node.arguments := List.mem_of_getElem? (hdeps.trans hd)
    exact (all_of_mem_arguments (all_of_call_mem_moduleEvents hroot hmet) hargument).unwrap

/-- The span of a node lies in the text, between characters. -/
structure Bounded (src : Source) (n : Node) : Prop where
  start_le : n.start ≤ n.stop
  start : IsBoundary src.text n.start
  stop : IsBoundary src.text n.stop

instance (src : Source) : DecidablePred (Bounded src) := fun n =>
  decidable_of_iff (n.start ≤ n.stop ∧ IsBoundary src.text n.start ∧ IsBoundary src.text n.stop)
    ⟨fun h => ⟨h.1, h.2.1, h.2.2⟩, fun h => ⟨h.start_le, h.start, h.stop⟩⟩

theorem fits_of_arrayFix? {rule : Rule} {f : Fix} (hroot : root.All (Bounded src))
    (hsite : site ∈ Assoc.values (rule.program src root).sites)
    (h : rule.arrayFix? (rule.program src root) site = some f) : Fits src.text f := by
  obtain ⟨array, harray, rfl⟩ := Option.map_eq_some_iff.mp h
  have hb := (all_of_arrayOf? hroot hsite harray).self
  exact ⟨hb.start_le, hb.start, hb.stop⟩

end Spans

/-- The fix spans the array literal of a compared site.  It writes one pair of brackets, and between
them the elements that are kept, each as it stands in the text, and then the missing paths. -/
def SetsArray (p : Program) (reportStatic : Bool) (site : Site) (f : Fix) : Prop :=
  ∃ array d, Compared site array ∧
    d = diff (needsOf p reportStatic [] site) (declaredIn p array) ∧
    f.start = array.start ∧ f.stop = array.stop ∧
    f.replacement = "[" ++ ", ".intercalate
      (d.kept.map (fun e => p.source.textOf e.node) ++ d.missing.map Path.render) ++ "]"

theorem setsArray_of_mem_findings {rule : Rule} {p : Program} {site : Site} {d : Diagnostic}
    {f : Fix} (h : d ∈ rule.findings p site) (hf : d.fix = some f) :
    SetsArray p rule.reportStatic site f := by
  obtain ⟨hbuild, array, diff', unstable, houtcome⟩ := compared_of_mem_diagnostics h hf
  obtain ⟨array', harray, -, rfl⟩ := buildFix?_eq_some_iff.mp hbuild
  have hdiff := diff_of_outcome houtcome
  have hsame : array' = array := by
    simp only [Reconciliation.array?, houtcome, Option.some.injEq] at harray
    exact harray.symm
  refine ⟨array, diff', compared_of_outcome houtcome, hdiff, congrArg Node.start hsame,
    congrArg Node.stop hsame, ?_⟩
  have hsources := sources_kept p (needsOf p rule.reportStatic [] site) array
  rw [← hdiff] at hsources
  simp only [arrayFix, wantedText, arrayText, Reconciliation.diff, houtcome, hsources]

/-- **Fixes touch nothing but dependency arrays.**  Let the spans of all nodes of a program lie
in its text, between characters.  The findings of the program are those of its sites.  A fix of a
finding sets the array literal of its own site to the bracketed text that is wanted there, and the
findings of one site that have a fix have the same.  Whichever of the findings are applied, the
result is a text: the source with the spans of some of these arrays, which are disjoint, replaced by
what is wanted there.  If one of the findings has a fix, a span is replaced. -/
theorem fixes_touch_arrays (rule : Rule) (src : Source) {root : Node}
    (hroot : root.All (Bounded src)) :
    let p := rule.program src root
    rule.check src root = (Assoc.values p.sites).flatMap (rule.findings p) ∧
    (∀ site ∈ Assoc.values p.sites, ∀ d ∈ rule.findings p site, ∀ f, d.fix = some f →
      SetsArray p rule.reportStatic site f ∧
      ∀ d' ∈ rule.findings p site, ∀ f', d'.fix = some f' → f' = f) ∧
    ∀ ds ⊆ rule.check src root, ∃ out done,
      patch? src.text (ds.filterMap (·.fix)) = some out ∧
      bytesOf out = replaceSpans (bytesOf src.text) done ∧ Ascending done ∧
      (∀ f ∈ done, ∃ d ∈ ds, d.fix = some f ∧ ∃ site ∈ Assoc.values p.sites,
        d ∈ rule.findings p site ∧ SetsArray p rule.reportStatic site f) ∧
      ((∃ d ∈ ds, d.fix.isSome) → done ≠ []) := by
  intro p
  have hcheck := check_eq_flatMap rule src root
  have hsite : ∀ d ∈ rule.check src root, ∃ site ∈ Assoc.values p.sites,
      d ∈ rule.findings p site := by
    intro d hd
    rw [hcheck] at hd
    exact List.mem_flatMap.mp hd
  refine ⟨hcheck, fun site _ d hd f hf => ⟨setsArray_of_mem_findings hd hf,
    fun d' hd' f' hf' => ?_⟩, fun ds hds => ?_⟩
  · have hone := (arrayFix?_of_mem_findings hd' hf').symm.trans (arrayFix?_of_mem_findings hd hf)
    exact Option.some.inj hone
  have hfit : ∀ f ∈ ds.filterMap (·.fix), Fits src.text f := by
    intro f hf
    obtain ⟨d, hd, hdf⟩ := List.mem_filterMap.mp hf
    obtain ⟨site, hsite, hfind⟩ := hsite d (hds hd)
    exact fits_of_arrayFix? hroot hsite (arrayFix?_of_mem_findings hfind hdf)
  obtain ⟨out, hout, hbytes⟩ := patch?_eq_replace hfit
  refine ⟨out, _, hout, hbytes, ascending_applied fun f hf => (hfit f hf).start_le,
    fun f hf => ?_, ?_⟩
  · obtain ⟨d, hd, hdf⟩ := List.mem_filterMap.mp (mem_of_mem_applied hf)
    obtain ⟨site, hsite, hfind⟩ := hsite d (hds hd)
    exact ⟨d, hd, hdf, site, hsite, hfind, setsArray_of_mem_findings hfind hdf⟩
  · rintro ⟨d, hd, hsome⟩
    obtain ⟨f, hf⟩ := Option.isSome_iff_exists.mp hsome
    exact applied_ne_nil hfit (List.ne_nil_of_mem (List.mem_filterMap.mpr ⟨d, hd, hf⟩))

/-- The small effect lacks its parameter, so its array is replaced, and nothing else. -/
theorem fixes_touch_arrays_effect : effectProgram.All (Bounded effectText) ∧
    let fixes := ((Rule.ofOptions {}).check effectText effectProgram).filterMap (·.fix)
    ∃ done, patch? effectText.text fixes = some "function C(p){useEffect(()=>p,[p])}" ∧
      bytesOf "function C(p){useEffect(()=>p,[p])}" =
        replaceSpans (bytesOf effectText.text) done ∧
      done ≠ [] ∧
      ∀ f ∈ done, f = arrayFix effectArray "[p]" ∧ SetsArray effectRun false effectSite f := by
  have hall : effectProgram.All (Bounded effectText) := by decide +kernel
  have hany : ((Rule.ofOptions {}).plainCheck? effectText effectProgram ["a", "b", "p"]).any
      (fun found => found.filterMap (·.fix) = [arrayFix effectArray "[p]"]) = true := by
    decide +kernel
  obtain ⟨found, hfound, hfix⟩ := (Option.any_eq_true _ _).mp hany
  have hfixes : ((Rule.ofOptions {}).check effectText effectProgram).filterMap (·.fix) =
      [arrayFix effectArray "[p]"] := by
    rw [check_of_plainCheck? isExpressible_letter hfound]
    exact of_decide_eq_true hfix
  have hpatch : patch? effectText.text [arrayFix effectArray "[p]"] =
      some "function C(p){useEffect(()=>p,[p])}" := by decide +kernel
  obtain ⟨-, -, happly⟩ := fixes_touch_arrays (Rule.ofOptions {}) effectText hall
  obtain ⟨out, done, hout, hbytes, -, hown, hdone⟩ := happly _ (List.Subset.refl _)
  rw [hfixes, hpatch, Option.some.injEq] at hout
  refine ⟨hall, done, by rw [hfixes, hpatch], hout ▸ hbytes, hdone ?_, fun f hf => ?_⟩
  · obtain ⟨d, hd, hdf⟩ := List.mem_filterMap.mp (hfixes ▸ List.mem_singleton_self _)
    exact ⟨d, hd, hdf ▸ rfl⟩
  · obtain ⟨d, hd, hdf, site, hsite, -, hsets⟩ := hown f hf
    have hone : f ∈ [arrayFix effectArray "[p]"] := hfixes ▸ List.mem_filterMap.mpr ⟨d, hd, hdf⟩
    obtain rfl : site = effectSite := List.mem_singleton.mp (sites_effectRun ▸ hsite)
    exact ⟨List.mem_singleton.mp hone, hsets⟩

end HookLint.Lint
