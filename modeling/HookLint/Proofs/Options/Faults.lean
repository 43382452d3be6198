import HookLint.Options.Validation
import Mathlib.Data.List.Basic

/-!
# Proofs.Options.Faults — which faults a check can list

A check lists the faults of all its parts: those of a pair are those of both (`problems_both`),
those of a list are those of its members (`problems_all`).  So a kind of fault is listed exactly if
one of the parts has it.  Here this is followed for one kind: of all the members of an options
object, only the pattern for further hooks can ask for too many repetitions
(`mem_excessive_ofMembers_iff`).
-/

namespace HookLint.Options

open Stability

/-! ### The faults of a compound check -/

section Compound

variable {α β γ : Type}

@[simp] theorem problems_ok (a : α) : (Checked.problems (.ok a) : List Problem) = [] := rfl

@[simp] theorem problems_error (ps : List Problem) :
    Checked.problems (.error ps : Checked α) = ps := rfl

theorem problems_both (f : α → β → γ) (a : Checked α) (b : Checked β) :
    (Checked.both f a b).problems = a.problems ++ b.problems := by
  cases a <;> cases b <;> simp [Checked.both]

theorem problems_all (cs : List (Checked α)) :
    (Checked.all cs).problems = cs.flatMap Checked.problems := by
  induction cs with
  | nil => rfl
  | cons c cs ih => rw [Checked.all, problems_both, ih, List.flatMap_cons]

theorem problems_map (f : α → β) (c : Checked α) :
    Checked.problems (c.map f) = c.problems := by
  cases c <;> rfl

end Compound

/-! ### Switches and specs have no excessive patterns -/

/-- None of the faults is an excessive pattern. -/
def Moderate {α : Type} (c : Checked α) : Prop := ∀ p ∈ c.problems, p.kind ≠ .excessivePattern

section Moderate

variable {α β : Type} {location : List Segment} {v : Value}

theorem Moderate.ok (a : α) : Moderate (.ok a) := fun _ hp => nomatch hp

theorem Moderate.single {p : Problem} (h : p.kind ≠ .excessivePattern) :
    Moderate (.error [p] : Checked α) := by
  intro q hq
  obtain rfl := List.mem_singleton.mp hq
  exact h

theorem Moderate.map {c : Checked α} (h : Moderate c) (f : α → β) : Moderate (c.map f) := by
  intro p hp
  rw [problems_map] at hp
  exact h p hp

theorem Moderate.all {cs : List (Checked α)} (h : ∀ c ∈ cs, Moderate c) :
    Moderate (Checked.all cs) := by
  intro p hp
  rw [problems_all] at hp
  obtain ⟨c, hc, hp⟩ := List.mem_flatMap.mp hp
  exact h c hc p hp

theorem switchOfInt_error {n : Int} {kind : ProblemKind} (h : switchOfInt n = .error kind) :
    kind = .unclearSwitch ∨ kind = .notSwitch := by
  unfold switchOfInt at h
  split at h
  · cases h
  · split at h
    · cases h
    · split at h <;> cases h <;> simp

theorem readSwitch_error {kind : ProblemKind} (h : readSwitch v = .error kind) :
    kind = .unclearSwitch ∨ kind = .notSwitch := by
  cases v with
  | bool b => cases h
  | int n => exact switchOfInt_error h
  | decimal digits exponent =>
    simp only [readSwitch] at h
    split at h
    · split at h
      · exact switchOfInt_error h
      · cases h
        exact .inr rfl
    · cases h
      exact .inr rfl
  | string s =>
    simp only [readSwitch] at h
    split at h
    · cases h
    · split at h
      · cases h
      · cases h
        exact .inl rfl
  | null | mark _ | array _ | object _ =>
    cases h
    exact .inr rfl

theorem moderate_switchAt (location : List Segment) (v : Value) :
    Moderate (switchAt location v) := by
  unfold switchAt
  cases h : readSwitch v with
  | ok b => exact .ok b
  | error kind => rcases readSwitch_error h with rfl | rfl <;> exact .single (by simp)

theorem moderate_switchesAt (location : List Segment) (v : Value) :
    Moderate (switchesAt location v) := by
  cases v with
  | array items =>
    refine .all fun c hc => ?_
    obtain ⟨i, hi, rfl⟩ := List.mem_mapIdx.mp hc
    exact moderate_switchAt _ _
  | null | bool _ | int _ | decimal _ _ | string _ | mark _ | object _ => exact .single (by simp)

theorem moderate_tableAt (location : List Segment) (v : Value) : Moderate (tableAt location v) := by
  cases v with
  | object members =>
    refine .all fun c hc => ?_
    obtain ⟨m, -, rfl⟩ := List.mem_map.mp hc
    exact (moderate_switchAt _ _).map _
  | null | bool _ | int _ | decimal _ _ | string _ | mark _ | array _ => exact .single (by simp)

/-- A value that is no spec has the faults of its three readings. -/
theorem moderate_specAt (location : List Segment) (v : Value) : Moderate (specAt location v) := by
  have hwhole := moderate_switchAt (location ++ [.name "bool"]) v
  have hpositions := moderate_switchesAt (location ++ [.name "list[bool]"]) v
  have hkeys := moderate_tableAt (location ++ [.name "dict[str,bool]"]) v
  unfold specAt
  simp only
  split
  · exact .ok _
  · exact .ok _
  · exact .ok _
  · next ps qs rs hps hqs hrs =>
    rw [hps] at hwhole
    rw [hqs] at hpositions
    rw [hrs] at hkeys
    intro p hp
    rcases List.mem_append.mp hp with hp | hp
    · rcases List.mem_append.mp hp with hp | hp
      · exact hwhole p hp
      · exact hpositions p hp
    · exact hkeys p hp

theorem moderate_specsAt (location : List Segment) (v : Value) : Moderate (specsAt location v) := by
  cases v with
  | object members =>
    refine .all fun c hc => ?_
    obtain ⟨m, -, rfl⟩ := List.mem_map.mp hc
    exact (moderate_specAt _ _).map _
  | null | bool _ | int _ | decimal _ _ | string _ | mark _ | array _ => exact .single (by simp)

theorem moderate_readSetting {members : Assoc String Value} {s : Setting} {default : α}
    {read : List Segment → Value → Checked α} (h : ∀ location v, Moderate (read location v)) :
    Moderate (readSetting members s default read) := by
  unfold readSetting
  split
  · next name _ =>
    cases Assoc.get? members name with
    | none => exact .ok _
    | some v => exact h _ v
  · exact .ok _

end Moderate

/-! ### The pattern for further hooks -/

/-- The value that an options object gives to a setting. -/
def given? (members : Assoc String Value) (s : Setting) : Option Value :=
  (givenName? members s).bind (Assoc.get? members)

/-- The pattern for further hooks asks for too many repetitions. -/
def HasExcessivePattern (readers : Readers) (members : Assoc String Value) : Prop :=
  ∃ s, given? members .additionalHooks = some (.string s) ∧ readers.pattern s = .error .excessive

section Members

variable {readers : Readers} {members : Assoc String Value}

theorem mem_excessive_patternAt_iff {location : List Segment} {v : Value} :
    (∃ p ∈ (patternAt readers location v).problems, p.kind = .excessivePattern) ↔
      ∃ s, v = .string s ∧ readers.pattern s = .error .excessive := by
  cases v with
  | null => simp [patternAt]
  | string s =>
    cases h : readers.pattern s with
    | ok p => simp [patternAt, h]
    | error fault => cases fault <;> simp [patternAt, h]
  | bool _ | int _ | decimal _ _ | mark _ | array _ | object _ => simp [patternAt]

theorem mem_excessive_readSetting_iff :
    (∃ p ∈ (readSetting members .additionalHooks none (patternAt readers)).problems,
      p.kind = .excessivePattern) ↔ HasExcessivePattern readers members := by
  unfold readSetting HasExcessivePattern given?
  cases givenName? members .additionalHooks with
  | none => simp
  | some name =>
    simp only [Option.bind_some]
    cases Assoc.get? members name with
    | none => simp
    | some v =>
      rw [Option.elim_some, mem_excessive_patternAt_iff]
      simp

theorem kind_of_mem_unknownMembers {p : Problem} (hp : p ∈ unknownMembers members) :
    p.kind = .unknownMember := by
  obtain ⟨m, -, rfl⟩ := List.mem_map.mp hp
  rfl

/-- The faults of an options object are those of its four settings and of the other members. -/
theorem mem_problems_ofMembers {p : Problem} : p ∈ (ofMembers readers members).problems ↔
    p ∈ (readSetting members .checkMemoized false switchAt).problems ∨
    p ∈ (readSetting members .staticHooks [] specsAt).problems ∨
    p ∈ (readSetting members .additionalHooks none (patternAt readers)).problems ∨
    p ∈ (readSetting members .reportStatic false switchAt).problems ∨
    p ∈ unknownMembers members := by
  unfold ofMembers
  simp only
  split
  · next o hknown hextra =>
    -- no setting has a fault, since together they have none
    have hnil := congrArg Checked.problems hknown
    simp only [problems_both, problems_ok, List.append_eq_nil_iff] at hnil
    obtain ⟨⟨⟨h₁, h₂⟩, h₃⟩, h₄⟩ := hnil
    simp [h₁, h₂, h₃, h₄, hextra]
  · simp [sorted, List.mem_mergeSort, problems_both]

/-- Only the pattern for further hooks can be excessive, and it is listed if it is. -/
theorem mem_excessive_ofMembers_iff (readers : Readers) (members : Assoc String Value) :
    (∃ p ∈ (ofMembers readers members).problems, p.kind = .excessivePattern) ↔
      HasExcessivePattern readers members := by
  rw [← mem_excessive_readSetting_iff]
  constructor
  · rintro ⟨p, hp, hkind⟩
    rcases mem_problems_ofMembers.mp hp with h | h | h | h | h
    · exact absurd hkind (moderate_readSetting moderate_switchAt p h)
    · exact absurd hkind (moderate_readSetting moderate_specsAt p h)
    · exact ⟨p, h, hkind⟩
    · exact absurd hkind (moderate_readSetting moderate_switchAt p h)
    · rw [kind_of_mem_unknownMembers h] at hkind
      cases hkind
  · rintro ⟨p, hp, hkind⟩
    exact ⟨p, mem_problems_ofMembers.mpr (.inr (.inr (.inl hp))), hkind⟩

end Members

end HookLint.Options
