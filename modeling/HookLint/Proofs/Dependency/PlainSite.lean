import HookLint.Proofs.Dependency.Comparison
import HookLint.Proofs.Stability.History

/-!
# Proofs.Dependency.PlainSite — sites whose references have labels of their own

Labels are a closure.  If no reference of a site asks for the labels of others, what comes of the
site can be computed without it (`Plain.reconcile_eq`).
-/

namespace HookLint.Dependency

open Syntax Scope Hook Stability

variable {p : Program} {site : Site} {array : Node}

/-- The label that a binding has by itself. -/
def ownLabel? (p : Program) (id : Nat) : Option Label :=
  match p.evidenceAt id with
  | .settled label => some label
  | .allOf _ => none

theorem labelOf_of_ownLabel? {id : Nat} {label : Label} (h : ownLabel? p id = some label) :
    p.labelOf id = label := by
  have hev : p.evidenceAt id = .settled label := by
    unfold ownLabel? at h
    split at h
    · next he => rw [he, Option.some.inj h]
    · cases h
  have hiff : p.labelOf id = .static ↔ label = .static :=
    labelOf_eq_static_iff.trans (grounded_iff.symm.trans (grounded_iff_of_settled hev))
  revert hiff
  cases p.labelOf id <;> cases label <;> simp

/-- The references of a site whose own label is the given one. -/
def refsLabelled (p : Program) (site : Site) (label : Label) : List Path :=
  (Assoc.values (references p.source p.tree site).dependencies).filter fun d =>
    ownLabel? p d.binding.id = some label

/-- What comes of a compared site, by the own labels of its references. -/
def plainReconciliation (p : Program) (reportStatic : Bool) (site : Site) (array : Node) :
    Reconciliation :=
  let tolerated := if reportStatic then [] else
    (refsLabelled p site .static).map fun d => d.binding.id
  ⟨site, .compared array (diff ⟨refsLabelled p site .dynamic, tolerated⟩ (declaredIn p array))
    (unstableIn p site array [] (declaredIn p array))⟩

/-- A compared site all of whose references have labels of their own. -/
structure Plain (p : Program) (site : Site) (array : Node) : Prop where
  compared : Compared site array
  labelled : ∀ d ∈ Assoc.values (references p.source p.tree site).dependencies,
    (ownLabel? p d.binding.id).isSome

theorem Plain.filter_labelOf (h : Plain p site array) (label : Label) :
    ((Assoc.values (references p.source p.tree site).dependencies).filter fun d =>
      p.labelOf d.binding.id = label) = refsLabelled p site label := by
  refine List.filter_congr fun d hd => ?_
  obtain ⟨own, hown⟩ := Option.isSome_iff_exists.mp (h.labelled d hd)
  rw [hown, labelOf_of_ownLabel? hown]
  simp

theorem Plain.reconcile_eq (h : Plain p site array) (reportStatic : Bool) :
    (reconcile p reportStatic [] site).1 = plainReconciliation p reportStatic site array := by
  rw [reconcile_of_compared h.compared]
  unfold needsOf plainReconciliation
  simp only [(splitByLabel_found .nil _).1, h.filter_labelOf]

end HookLint.Dependency
