import HookLint.Proofs.Dependency.Comparison
import HookLint.Proofs.Stability.StaticBinding

/-!
# Proofs.Stability.History — labels do not depend on what was asked before

One cache serves all questions about a program: labels of single bindings, and sites, each of which
asks for the labels of its references.  From a right cache every answer is right and leaves a right
cache behind (`label_found`, `splitByLabel_found`, `reconcile_found`), so by induction the same
holds after any history of questions (`agrees_cacheAfter`).
-/

namespace HookLint.Stability

open Syntax Scope Hook Dependency

section Labels

variable {p : Program} {cache : Cache} {id : Nat}

/-- The label of a binding, asked on its own. -/
def Program.labelOf (p : Program) (id : Nat) : Label := (p.label [] id).1

theorem not_grounded_of_notMem (h : id ∉ List.range p.tree.store.bindings.size) :
    ¬ Grounded p.evidenceAt id := by
  have hnone : p.tree.binding? id = none := by
    simpa [Tree.binding?] using h
  have hdyn : p.evidenceAt id = .settled .dynamic := by simp [Program.evidenceAt, hnone]
  rw [grounded_iff_of_settled hdyn]
  simp

/-- A question from outside finds no binding open. -/
theorem label_found (hc : Agrees p.evidenceAt cache) (id : Nat) :
    Found p.evidenceAt cache (Grounded p.evidenceAt id) (p.label cache id) :=
  labelIn_found _ cache id hc fun _ hv hg => absurd hg (not_grounded_of_notMem hv)

theorem labelOf_eq_static_iff : p.labelOf id = .static ↔ StaticBinding p id :=
  (label_found .nil id).label_iff.trans grounded_iff

theorem label_eq_labelOf (hc : Agrees p.evidenceAt cache) (id : Nat) :
    (p.label cache id).1 = p.labelOf id := by
  have h : (p.label cache id).1 = .static ↔ p.labelOf id = .static :=
    (label_found hc id).label_iff.trans (label_found .nil id).label_iff.symm
  revert h
  cases (p.label cache id).1 <;> cases p.labelOf id <;> simp

end Labels

/-! ### Sites -/

section Sites

variable {p : Program} {reportStatic : Bool} {cache : Cache}

/-- What a step leaves behind: a right cache with every label that was there. -/
structure Served (p : Program) (cache cache' : Cache) : Prop where
  agrees : Agrees p.evidenceAt cache'
  keeps : ∀ k, (Assoc.get? cache k).isSome → (Assoc.get? cache' k).isSome

theorem Served.refl (hc : Agrees p.evidenceAt cache) : Served p cache cache := ⟨hc, fun _ h => h⟩

theorem Served.trans {c₁ c₂ c₃ : Cache} (h : Served p c₁ c₂) (h' : Served p c₂ c₃) :
    Served p c₁ c₃ := ⟨h'.agrees, fun k hk => h'.keeps k (h.keeps k hk)⟩

theorem served_label (hc : Agrees p.evidenceAt cache) (id : Nat) :
    Served p cache (p.label cache id).2 := ⟨(label_found hc id).agrees, (label_found hc id).keeps⟩

/-- The references are split by their labels, whatever is in the cache. -/
theorem splitByLabel_found (hc : Agrees p.evidenceAt cache) (ds : List Path) :
    (splitByLabel p cache ds).1 =
      (ds.filter fun d => p.labelOf d.binding.id = .dynamic,
        (ds.filter fun d => p.labelOf d.binding.id = .static).map fun d => d.binding.id) ∧
      Served p cache (splitByLabel p cache ds).2 := by
  induction ds generalizing cache with
  | nil => exact ⟨rfl, .refl hc⟩
  | cons d ds ih =>
    have hl := label_eq_labelOf hc d.binding.id
    have hs := served_label hc d.binding.id
    obtain ⟨heq, hserved⟩ := ih hs.agrees
    rw [splitByLabel]
    simp only [hl, heq]
    cases hd : p.labelOf d.binding.id with
    | static => exact ⟨by simp [hd], hs.trans hserved⟩
    | dynamic => exact ⟨by simp [hd], hs.trans hserved⟩

theorem needsOf_eq (hc : Agrees p.evidenceAt cache) (site : Site) :
    needsOf p reportStatic cache site = needsOf p reportStatic [] site := by
  unfold needsOf
  simp only [(splitByLabel_found hc _).1, (splitByLabel_found (p := p) .nil _).1]

/-- The outcome of a site is the same from every right cache. -/
theorem reconcile_found (reportStatic : Bool) (hc : Agrees p.evidenceAt cache) (site : Site) :
    (reconcile p reportStatic cache site).1 = (reconcile p reportStatic [] site).1 ∧
      Served p cache (reconcile p reportStatic cache site).2 := by
  unfold reconcile
  cases site.dependencies with
  | none => exact ⟨rfl, .refl hc⟩
  | some argument =>
    simp only
    split
    · exact ⟨rfl, .refl hc⟩
    · split
      · exact ⟨rfl, .refl hc⟩
      · split
        · exact ⟨rfl, .refl hc⟩
        · -- only here the cache is read, and only through the labels of the references
          refine ⟨?_, (splitByLabel_found hc _).2⟩
          rw [compare_eq, compare_eq, needsOf_eq hc]

end Sites

/-! ### Histories -/

/-- What a cache is asked for: the label of a binding, or the outcome of a site. -/
inductive Question where
  | label (id : Nat)
  | site (s : Site)

/-- The cache after a question. -/
def Question.ask (p : Program) (reportStatic : Bool) (cache : Cache) : Question → Cache
  | .label id => (p.label cache id).2
  | .site s => (reconcile p reportStatic cache s).2

/-- The cache after a history of questions, empty at first. -/
def cacheAfter (p : Program) (reportStatic : Bool) (history : List Question) : Cache :=
  history.foldl (Question.ask p reportStatic) []

section History

variable {p : Program} {reportStatic : Bool} {cache : Cache}

theorem served_ask (hc : Agrees p.evidenceAt cache) (q : Question) :
    Served p cache (q.ask p reportStatic cache) := by
  cases q with
  | label id => exact served_label hc id
  | site s => exact (reconcile_found reportStatic hc s).2

theorem served_history (reportStatic : Bool) (hc : Agrees p.evidenceAt cache)
    (history : List Question) :
    Served p cache (history.foldl (Question.ask p reportStatic) cache) := by
  induction history generalizing cache with
  | nil => exact .refl hc
  | cons q history ih => exact (served_ask hc q).trans (ih (served_ask hc q).agrees)

theorem agrees_cacheAfter (p : Program) (reportStatic : Bool) (history : List Question) :
    Agrees p.evidenceAt (cacheAfter p reportStatic history) :=
  (served_history reportStatic .nil history).agrees

/-- **Labels are a least fixed point, whatever was asked before.**  After any history, a binding is
labelled static exactly if it is in the least set closed under the rules; every site has the outcome
that it has on its own; every label in the cache is right, every binding that is asked for enters
the cache, and no later question changes an entry. -/
theorem labels_independent_of_history (p : Program) (reportStatic : Bool)
    (history : List Question) :
    let cache := cacheAfter p reportStatic history
    (∀ id, (p.label cache id).1 = .static ↔ StaticBinding p id) ∧
    (∀ id, (p.label cache id).1 = (p.label [] id).1) ∧
    (∀ site, (reconcile p reportStatic cache site).1 = (reconcile p reportStatic [] site).1) ∧
    (∀ id label, Assoc.get? cache id = some label → (label = .static ↔ StaticBinding p id)) ∧
    (∀ id, id < p.tree.store.bindings.size →
      Assoc.get? (p.label cache id).2 id = some (p.label cache id).1) ∧
    (∀ later id label, Assoc.get? cache id = some label →
      Assoc.get? (cacheAfter p reportStatic (history ++ later)) id = some label) := by
  have hc := agrees_cacheAfter p reportStatic history
  refine ⟨fun id => ?_, fun id => label_eq_labelOf hc id,
    fun site => (reconcile_found reportStatic hc site).1,
    fun id label h => (hc id label h).trans grounded_iff, fun id h => ?_,
    fun later id label h => ?_⟩
  · rw [label_eq_labelOf hc, labelOf_eq_static_iff]
  · exact get?_labelIn (List.mem_range.mpr h)
  · have hlater : cacheAfter p reportStatic (history ++ later) =
        later.foldl (Question.ask p reportStatic) (cacheAfter p reportStatic history) := by
      simp [cacheAfter, List.foldl_append]
    have hs := served_history reportStatic hc later
    rw [hlater]
    exact hc.get?_eq hs.agrees h (hs.keeps id (by simp [h]))

end History

end HookLint.Stability
