import HookLint.Dependency.Reference
import HookLint.Proofs.Data.Assoc
import Mathlib.Data.List.Induction

/-!
# Proofs.Dependency.References — what the scan of a callback collects

`noteAll src es` is the state of the scan after the relevant uses `es`.  Four facts describe it:

* the keys of the dependencies are the numbers of the bindings that are read, each once, in the
  order of the first reading (`keys_noteAll`);
* the entry of a key is about the binding with that number, which some use reads (`get?_noteAll`);
* the path of an entry is the meet of the paths of all readings: a path is a beginning of it exactly
  if it is a beginning of each of them (`prefix_noteAll_iff`);
* a binding is noted as written exactly if some use writes it (`has_noteAll_iff`).

The offsets of the entries are those of the first readings, in turn (`offsets_noteAll`).

`references` is the same with the written bindings taken out.
-/

namespace HookLint.Dependency

open Syntax Scope Hook

/-- The common beginning is the meet: it begins with `p` exactly if both paths do. -/
theorem prefix_commonPrefix_iff {p a b : List String} :
    p <+: commonPrefix a b ↔ p <+: a ∧ p <+: b := by
  induction a generalizing p b with
  | nil =>
    simp only [commonPrefix, List.prefix_nil]
    exact ⟨fun h => ⟨h, h ▸ List.nil_prefix⟩, fun h => h.1⟩
  | cons x a ih =>
    cases b with
    | nil =>
      simp only [commonPrefix, List.prefix_nil]
      exact ⟨fun h => ⟨h ▸ List.nil_prefix, h⟩, fun h => h.2⟩
    | cons y b =>
      rw [commonPrefix]
      cases p with
      | nil => simp
      | cons z p =>
        by_cases h : x = y
        · subst h
          rw [if_pos rfl, List.cons_prefix_cons, List.cons_prefix_cons, List.cons_prefix_cons, ih]
          exact ⟨fun ⟨hz, ha, hb⟩ => ⟨⟨hz, ha⟩, hz, hb⟩, fun ⟨⟨hz, ha⟩, _, hb⟩ => ⟨hz, ha, hb⟩⟩
        · rw [if_neg h, List.cons_prefix_cons, List.cons_prefix_cons]
          constructor
          · intro hp
            simp at hp
          · rintro ⟨⟨rfl, -⟩, rfl, -⟩
            exact absurd rfl h

section Scan

variable (src : Source)

/-- The references after the given relevant uses. -/
def noteAll (es : List (Use × Binding)) : References :=
  es.foldl (fun r e => r.note src e.1 e.2) {}

/-- Whether a relevant use is a reading of the binding with number `k`. -/
def ReadsId (k : Nat) (e : Use × Binding) : Prop := e.1.access.writes = false ∧ e.2.id = k

/-- The numbers of the bindings that are read, in the order of the first reading. -/
def readIds (es : List (Use × Binding)) : List Nat :=
  ((es.filter fun e => !e.1.access.writes).map fun e => e.2.id).eraseDups

variable {src} {es : List (Use × Binding)} {e : Use × Binding} {k : Nat}

theorem noteAll_concat (es : List (Use × Binding)) (e : Use × Binding) :
    noteAll src (es ++ [e]) = (noteAll src es).note src e.1 e.2 := by
  simp [noteAll, List.foldl_append]

/-! ### One more use -/

theorem note_of_writes (r : References) {u : Use} {b : Binding} (h : u.access.writes = true) :
    r.note src u b = { r with mutations := Assoc.put r.mutations b.id b } := by
  unfold References.note
  rw [if_pos h]

/-- A reading sets the entry of its binding to the path it has in common with the entry so far. -/
theorem note_of_reads (src : Source) (r : References) {u : Use} {b : Binding}
    (h : u.access.writes = false) : ∃ d : Path, d.binding = b ∧
      (∀ p, p <+: d.path ↔ (∀ c, Assoc.get? r.dependencies b.id = some c → p <+: c.path) ∧
        p <+: accessPath src u.cursor) ∧
      r.note src u b = { r with dependencies := Assoc.put r.dependencies b.id d } := by
  unfold References.note
  rw [if_neg (by simp [h])]
  cases hg : Assoc.get? r.dependencies b.id with
  | none => exact ⟨_, rfl, fun p => by simp, rfl⟩
  | some c =>
    refine ⟨⟨b, commonPrefix c.path (accessPath src u.cursor), c.offset⟩, rfl, fun p => ?_, rfl⟩
    rw [prefix_commonPrefix_iff]
    simp

theorem readIds_concat_of_writes (es : List (Use × Binding)) (h : e.1.access.writes = true) :
    readIds (es ++ [e]) = readIds es := by
  unfold readIds
  rw [List.filter_append]
  simp [h]

theorem mem_readIds_iff : k ∈ readIds es ↔ ∃ e ∈ es, ReadsId k e := by
  unfold readIds ReadsId
  rw [List.mem_eraseDups]
  simp only [List.mem_map, List.mem_filter, Bool.not_eq_true']
  exact ⟨fun ⟨e, ⟨he, hw⟩, hk⟩ => ⟨e, he, hw, hk⟩, fun ⟨e, he, hw, hk⟩ => ⟨e, ⟨he, hw⟩, hk⟩⟩

theorem readIds_concat_of_reads (es : List (Use × Binding)) (h : e.1.access.writes = false) :
    readIds (es ++ [e]) = if e.2.id ∈ readIds es then readIds es else readIds es ++ [e.2.id] := by
  have happ : readIds (es ++ [e]) = readIds es ++ ([e.2.id].removeAll
      ((es.filter fun e => !e.1.access.writes).map fun e => e.2.id)).eraseDups := by
    unfold readIds
    rw [List.filter_append, List.map_append, List.eraseDups_append]
    simp [h]
  have hmem : e.2.id ∈ readIds es ↔
      e.2.id ∈ (es.filter fun e => !e.1.access.writes).map fun e => e.2.id := List.mem_eraseDups
  rw [happ]
  split
  · next hk => simp [List.removeAll, hmem.mp hk]
  · next hk => simp [List.removeAll, mt hmem.mpr hk, List.eraseDups_cons]

/-- In `es` the binding with number `i` is read before the one with number `j` is read at all. -/
def ReadFirst (es : List (Use × Binding)) (i j : Nat) : Prop :=
  ∃ es₁ e es₂, es = es₁ ++ e :: es₂ ∧ ReadsId i e ∧ ∀ e' ∈ es₁ ++ [e], ¬ ReadsId j e'

theorem ReadFirst.concat {i j : Nat} (h : ReadFirst es i j) (e : Use × Binding) :
    ReadFirst (es ++ [e]) i j := by
  obtain ⟨es₁, e₀, es₂, rfl, hi, hj⟩ := h
  exact ⟨es₁, e₀, es₂ ++ [e], by simp, hi, hj⟩

theorem pairwise_readIds (es : List (Use × Binding)) : (readIds es).Pairwise (ReadFirst es) := by
  induction es using List.reverseRecOn with
  | nil => exact List.Pairwise.nil
  | append_singleton es e ih =>
    have hold : (readIds es).Pairwise (ReadFirst (es ++ [e])) := ih.imp fun h => h.concat e
    cases hw : e.1.access.writes with
    | true =>
      rw [readIds_concat_of_writes es hw]
      exact hold
    | false =>
      rw [readIds_concat_of_reads es hw]
      split
      · exact hold
      · next hk =>
        refine List.pairwise_append.mpr ⟨hold, List.pairwise_singleton _ _, fun i hi j hj => ?_⟩
        obtain rfl := List.mem_singleton.mp hj
        -- everything read so far is read before the new binding
        obtain ⟨e₀, he₀, hr⟩ := mem_readIds_iff.mp hi
        obtain ⟨es₁, es₂, rfl⟩ := List.append_of_mem he₀
        refine ⟨es₁, e₀, es₂ ++ [e], by simp, hr, fun e' he' hr' => hk ?_⟩
        have hsub : (es₁ ++ [e₀]).Sublist (es₁ ++ e₀ :: es₂) := by simp
        exact mem_readIds_iff.mpr ⟨e', hsub.subset he', hr'⟩

/-! ### All uses -/

/-- The keys are the bindings that are read, by first reading. -/
theorem keys_noteAll (src : Source) (es : List (Use × Binding)) :
    Assoc.keys (noteAll src es).dependencies = readIds es := by
  induction es using List.reverseRecOn with
  | nil => rfl
  | append_singleton es e ih =>
    rw [noteAll_concat]
    cases hw : e.1.access.writes with
    | true =>
      rw [note_of_writes _ hw, readIds_concat_of_writes es hw]
      exact ih
    | false =>
      obtain ⟨d, -, -, hd⟩ := note_of_reads src (noteAll src es) (b := e.2) hw
      rw [hd, readIds_concat_of_reads es hw]
      split
      · next hk => rw [Assoc.keys_put_of_mem _ _ (ih ▸ hk), ih]
      · next hk => rw [Assoc.keys_put_of_notMem _ _ (ih ▸ hk), ih]

theorem nodup_keys_noteAll (es : List (Use × Binding)) :
    (Assoc.keys (noteAll src es).dependencies).Nodup := by
  induction es using List.reverseRecOn with
  | nil => exact List.nodup_nil
  | append_singleton es e ih =>
    rw [noteAll_concat]
    cases hw : e.1.access.writes with
    | true =>
      rw [note_of_writes _ hw]
      exact ih
    | false =>
      obtain ⟨d, -, -, hd⟩ := note_of_reads src (noteAll src es) (b := e.2) hw
      rw [hd]
      exact Assoc.nodup_keys_put ih _ _

/-- An entry is about the binding that its key names, and some use reads that binding. -/
theorem get?_noteAll {d : Path} (h : Assoc.get? (noteAll src es).dependencies k = some d) :
    d.binding.id = k ∧ ∃ e ∈ es, ReadsId k e ∧ e.2 = d.binding := by
  induction es using List.reverseRecOn generalizing k d with
  | nil => simp [noteAll] at h
  | append_singleton es e ih =>
    have hold : Assoc.get? (noteAll src es).dependencies k = some d →
        d.binding.id = k ∧ ∃ e' ∈ es ++ [e], ReadsId k e' ∧ e'.2 = d.binding := by
      intro h'
      obtain ⟨h1, e', he, h2⟩ := ih h'
      exact ⟨h1, e', List.mem_append_left _ he, h2⟩
    rw [noteAll_concat] at h
    cases hw : e.1.access.writes with
    | true =>
      rw [note_of_writes _ hw] at h
      exact hold h
    | false =>
      obtain ⟨c, hc, -, hd⟩ := note_of_reads src (noteAll src es) (b := e.2) hw
      rw [hd] at h
      simp only [Assoc.get?_put] at h
      split at h
      · next hk =>
        obtain rfl := Option.some.inj h
        exact ⟨by rw [hc, hk], e, by simp, ⟨hw, hk⟩, hc.symm⟩
      · exact hold h

/-- The path of an entry is the meet of the paths of all readings. -/
theorem prefix_noteAll_iff {d : Path} (h : Assoc.get? (noteAll src es).dependencies k = some d)
    (p : List String) :
    p <+: d.path ↔ ∀ e ∈ es, ReadsId k e → p <+: accessPath src e.1.cursor := by
  induction es using List.reverseRecOn generalizing d with
  | nil => simp [noteAll] at h
  | append_singleton es e ih =>
    rw [noteAll_concat] at h
    rw [List.forall_mem_append, List.forall_mem_singleton]
    cases hw : e.1.access.writes with
    | true =>
      -- a write narrows nothing
      rw [note_of_writes _ hw] at h
      rw [ih h]
      exact ⟨fun hp => ⟨hp, fun hr => by simp [ReadsId, hw] at hr⟩, fun hp => hp.1⟩
    | false =>
      obtain ⟨c, -, hpath, hd⟩ := note_of_reads src (noteAll src es) (b := e.2) hw
      rw [hd] at h
      simp only [Assoc.get?_put] at h
      split at h
      · next hk =>
        obtain rfl := Option.some.inj h
        rw [hpath, hk]
        refine and_congr ?_ ⟨fun hp _ => hp, fun hp => hp ⟨hw, hk⟩⟩
        cases hg : Assoc.get? (noteAll src es).dependencies k with
        | none =>
          -- the first reading of the binding
          have hnone : k ∉ readIds es := by
            rw [← keys_noteAll src, Assoc.mem_keys_iff, hg]
            simp
          refine ⟨fun _ e' he hr => ?_, fun _ c' hc' => by cases hc'⟩
          exact absurd (mem_readIds_iff.mpr ⟨e', he, hr⟩) hnone
        | some c' =>
          rw [← ih hg]
          exact ⟨fun hp => hp c' rfl, fun hp c'' hc'' => Option.some.inj hc'' ▸ hp⟩
      · next hk =>
        rw [ih h]
        exact ⟨fun hp => ⟨hp, fun hr => absurd hr.2 hk⟩, fun hp => hp.1⟩

/-- An entry keeps the offset of the first reading. -/
theorem offsets_noteAll (src : Source) (es : List (Use × Binding)) :
    ((Assoc.values (noteAll src es).dependencies).map Path.offset).Sublist
      (es.map fun e => e.1.node.start) := by
  induction es using List.reverseRecOn with
  | nil => exact List.nil_sublist _
  | append_singleton es e ih =>
    rw [noteAll_concat, List.map_append]
    have hold : ((Assoc.values (noteAll src es).dependencies).map Path.offset).Sublist
        (es.map (fun e => e.1.node.start) ++ [e.1.node.start]) :=
      ih.trans (List.sublist_append_left _ _)
    cases hw : e.1.access.writes with
    | true =>
      rw [note_of_writes _ hw]
      exact hold
    | false =>
      unfold References.note
      rw [if_neg (by simp [hw])]
      cases hg : Assoc.get? (noteAll src es).dependencies e.2.id with
      | none =>
        dsimp only
        rw [Assoc.values_put_of_none hg, List.map_append]
        exact ih.append (List.Sublist.refl _)
      | some d =>
        dsimp only
        rw [Assoc.map_values_put hg]
        · exact hold
        · rfl

/-- What is noted as written is what some use writes. -/
theorem has_noteAll_iff : Assoc.has (noteAll src es).mutations k = true ↔
    ∃ e ∈ es, e.1.access.writes = true ∧ e.2.id = k := by
  induction es using List.reverseRecOn with
  | nil => simp [noteAll, Assoc.has]
  | append_singleton es e ih =>
    rw [noteAll_concat]
    simp only [List.mem_append, List.mem_singleton, or_and_right, exists_or, exists_eq_left]
    rw [← ih]
    cases hw : e.1.access.writes with
    | true =>
      rw [note_of_writes _ hw]
      simp only [Assoc.has, Assoc.get?_put]
      by_cases hk : e.2.id = k <;> simp [hk]
    | false =>
      obtain ⟨c, -, -, hd⟩ := note_of_reads src (noteAll src es) (b := e.2) hw
      rw [hd]
      simp

theorem mem_mutations_noteAll {b : Binding} (h : b ∈ Assoc.values (noteAll src es).mutations) :
    ∃ e ∈ es, e.2 = b := by
  induction es using List.reverseRecOn with
  | nil => simp [noteAll, Assoc.values] at h
  | append_singleton es e ih =>
    have hold : b ∈ Assoc.values (noteAll src es).mutations → ∃ e' ∈ es ++ [e], e'.2 = b := by
      intro h'
      obtain ⟨e', he', hb⟩ := ih h'
      exact ⟨e', List.mem_append_left _ he', hb⟩
    rw [noteAll_concat] at h
    cases hw : e.1.access.writes with
    | true =>
      rw [note_of_writes _ hw] at h
      rcases Assoc.mem_values_put h with rfl | h
      · exact ⟨e, by simp, rfl⟩
      · exact hold h
    | false =>
      obtain ⟨c, -, -, hd⟩ := note_of_reads src (noteAll src es) (b := e.2) hw
      rw [hd] at h
      exact hold h

end Scan

/-! ### The references of a site -/

section Site

variable {src : Source} {t : Tree} {site : Site}

/-- A name of the component of a site that lives outside of the callback. -/
def Outer (t : Tree) (site : Site) (b : Binding) : Prop :=
  b.scope ∈ t.store.region site.scope ∧ (t.scopeNode? b).any site.callback.contains = false

theorem relevant?_eq_some_iff {u : Use} {b : Binding} :
    relevant? t site u = some b ↔ t.bindingOf? u = some b ∧ Outer t site b := by
  unfold relevant? Outer
  cases t.bindingOf? u with
  | none => simp
  | some c =>
    simp only [Option.bind_eq_bind, Option.bind_some, Option.some.injEq]
    constructor
    · intro h
      split at h
      · next hc =>
        obtain rfl := Option.some.inj h
        simp only [Bool.and_eq_true, Bool.not_eq_true', List.contains_iff_mem] at hc
        exact ⟨rfl, hc.2, hc.1⟩
      · cases h
    · rintro ⟨rfl, hin, hout⟩
      simp [hin, hout]

theorem mem_relevantUses_iff {u : Use} {b : Binding} : (u, b) ∈ relevantUses t site ↔
    u ∈ t.usesWithin site.callback ∧ t.bindingOf? u = some b ∧ Outer t site b := by
  unfold relevantUses
  rw [List.mem_filterMap]
  constructor
  · rintro ⟨v, hv, he⟩
    obtain ⟨c, hc, hp⟩ := Option.map_eq_some_iff.mp he
    obtain ⟨rfl, rfl⟩ := Prod.mk.inj hp
    exact ⟨hv, relevant?_eq_some_iff.mp hc⟩
  · rintro ⟨hu, hb⟩
    exact ⟨u, hu, by rw [relevant?_eq_some_iff.mpr hb]; rfl⟩

theorem dependencies_eq (src : Source) (t : Tree) (site : Site) :
    (references src t site).dependencies =
      (noteAll src (relevantUses t site)).dependencies.filter fun e =>
        !Assoc.has (noteAll src (relevantUses t site)).mutations e.1 := rfl

theorem nodup_keys_dependencies (src : Source) (t : Tree) (site : Site) :
    (Assoc.keys (references src t site).dependencies).Nodup := by
  rw [dependencies_eq, Assoc.keys_filter _ fun k =>
    !Assoc.has (noteAll src (relevantUses t site)).mutations k]
  exact (nodup_keys_noteAll _).filter _

/-- A dependency is an entry of the scan whose binding is not written. -/
theorem mem_dependencies_iff {k : Nat} {d : Path} :
    (k, d) ∈ (references src t site).dependencies ↔
      Assoc.get? (noteAll src (relevantUses t site)).dependencies k = some d ∧
        ∀ e ∈ relevantUses t site, e.2.id = k → e.1.access.writes = false := by
  rw [dependencies_eq, List.mem_filter, Assoc.get?_eq_some_iff (nodup_keys_noteAll _)]
  refine and_congr_right fun _ => ?_
  rw [Bool.not_eq_true', ← Bool.not_eq_true, has_noteAll_iff]
  simp only [not_exists, not_and]
  exact ⟨fun h e he hk => by by_contra hw; exact h e he (by simpa using hw) hk,
    fun h e he hw hk => by simp [h e he hk] at hw⟩

/-- A binding that a callback depends on or writes. -/
def References.Mentions (r : References) (b : Binding) : Prop :=
  (∃ d ∈ Assoc.values r.dependencies, d.binding = b) ∨ b ∈ Assoc.values r.mutations

/-- What is mentioned is used inside of the callback, and lives outside of it. -/
theorem exists_use_of_mentions {b : Binding} (h : (references src t site).Mentions b) :
    Outer t site b ∧ ∃ u ∈ t.usesWithin site.callback, t.bindingOf? u = some b := by
  have hrel : ∃ e ∈ relevantUses t site, e.2 = b := by
    rcases h with ⟨d, hd, rfl⟩ | h
    · obtain ⟨k, hk⟩ := Assoc.mem_values hd
      obtain ⟨-, e, he, -, hb⟩ := get?_noteAll (mem_dependencies_iff.mp hk).1
      exact ⟨e, he, hb⟩
    · exact mem_mutations_noteAll h
  obtain ⟨⟨u, c⟩, he, rfl⟩ := hrel
  obtain ⟨hu, hb, hout⟩ := mem_relevantUses_iff.mp he
  exact ⟨hout, u, hu, hb⟩

/-- A binding has one dependency at most. -/
theorem eq_of_id_eq {d e : Path} (hd : d ∈ Assoc.values (references src t site).dependencies)
    (he : e ∈ Assoc.values (references src t site).dependencies)
    (hid : d.binding.id = e.binding.id) : d = e := by
  obtain ⟨j, hj⟩ := Assoc.mem_values hd
  obtain ⟨k, hk⟩ := Assoc.mem_values he
  have hgetd := (mem_dependencies_iff.mp hj).1
  have hgete := (mem_dependencies_iff.mp hk).1
  obtain rfl : j = k := by
    rw [← (get?_noteAll hgetd).1, ← (get?_noteAll hgete).1]
    exact hid
  rw [hgetd] at hgete
  exact Option.some.inj hgete

/-- The dependencies are listed under the numbers of their bindings. -/
theorem keys_dependencies (src : Source) (t : Tree) (site : Site) :
    Assoc.keys (references src t site).dependencies =
      (Assoc.values (references src t site).dependencies).map fun d => d.binding.id := by
  unfold Assoc.keys Assoc.values
  rw [List.map_map]
  refine List.map_congr_left fun e he => ?_
  have h := mem_dependencies_iff.mp (show (e.1, e.2) ∈ _ from he)
  exact (get?_noteAll h.1).1.symm

end Site

end HookLint.Dependency
