import HookLint.Proofs.Dependency.References
import HookLint.Proofs.Scope.StoreInvariant

/-!
# Proofs.Dependency.ExactReferences — the references of a callback by its uses

The scan of a callback goes through the uses one by one, narrows entries in place and takes out the
written bindings at its end.  Its result can be said without the scan (`references_exact`): a use
is `Relevant` if it lies in the callback and names a binding of the component from outside; what is
collected are the bindings with a relevant use that writes, and those with relevant uses none of
which writes; the path of an entry is the longest that begins the paths of all readings, and its
offset is that of the first.

None of this mentions the order of the uses but for the offsets and the order of the entries, so
all else is the same for every order.
-/

namespace HookLint.Dependency

open Syntax Scope Hook

/-! ### Relevant uses -/

/-- A use that matters to a site: it lies in the callback, and it resolved to a binding that lives
outside of the callback, in a scope between the site and its component. -/
structure Relevant (t : Tree) (site : Site) (b : Binding) (u : Use) : Prop where
  recorded : u ∈ t.uses
  inside : site.callback.contains u.node = true
  resolved : t.bindingOf? u = some b
  outside : ∀ n, t.scopeNode? b = some n → site.callback.contains n = false
  in_component : b.scope ∈ t.store.region site.scope

/-- A relevant use of the binding with number `k` that does not write it. -/
def Reads (t : Tree) (site : Site) (k : Nat) (u : Use) : Prop :=
  ∃ b, Relevant t site b u ∧ b.id = k ∧ u.access.writes = false

/-- A relevant use of the binding with number `k` that writes it. -/
def Writes (t : Tree) (site : Site) (k : Nat) (u : Use) : Prop :=
  ∃ b, Relevant t site b u ∧ b.id = k ∧ u.access.writes = true

/-- The first reading of the binding with number `k`, with its place among the uses. -/
structure FirstRead (t : Tree) (site : Site) (k i : Nat) (u : Use) : Prop where
  place : t.uses[i]? = some u
  reads : Reads t site k u
  first : ∀ j v, j < i → t.uses[j]? = some v → ¬ Reads t site k v

/-- What the entry of the binding with number `k` says about its readings. -/
structure Narrowed (src : Source) (t : Tree) (site : Site) (k : Nat) (d : Path) : Prop where
  binding : d.binding.id = k ∧ ∃ u, Relevant t site d.binding u ∧ u.access.writes = false
  common : ∀ u, Reads t site k u → d.path <+: accessPath src u.cursor
  longest : ∀ q, (∀ u, Reads t site k u → q <+: accessPath src u.cursor) →
    q.length ≤ d.path.length
  covered : ∀ c : Path, c.covers d = true ↔
    c.binding.id = k ∧ ∀ u, Reads t site k u → c.path <+: accessPath src u.cursor
  offset : ∃ i u, FirstRead t site k i u ∧ d.offset = u.node.start

section Uses

variable {t : Tree} {site : Site} {b : Binding} {u : Use} {k : Nat}

theorem outer_iff_outside : Outer t site b ↔ b.scope ∈ t.store.region site.scope ∧
    ∀ n, t.scopeNode? b = some n → site.callback.contains n = false := by
  unfold Outer
  refine and_congr_right fun _ => ?_
  cases t.scopeNode? b with
  | none => simp
  | some n => simp

theorem relevant_iff : Relevant t site b u ↔ (u, b) ∈ relevantUses t site := by
  rw [mem_relevantUses_iff, outer_iff_outside]
  unfold Tree.usesWithin
  rw [List.mem_filter, Array.mem_toList_iff]
  constructor
  · intro h
    exact ⟨⟨h.recorded, h.inside⟩, h.resolved, h.in_component, h.outside⟩
  · rintro ⟨⟨hrec, hin⟩, hb, hreg, hout⟩
    exact ⟨hrec, hin, hb, hout, hreg⟩

theorem reads_iff : Reads t site k u ↔ ∃ b, (u, b) ∈ relevantUses t site ∧ ReadsId k (u, b) := by
  unfold Reads ReadsId
  simp only [relevant_iff]
  exact exists_congr fun b => and_congr_right fun _ => and_comm

theorem writes_iff : Writes t site k u ↔
    ∃ b, (u, b) ∈ relevantUses t site ∧ u.access.writes = true ∧ b.id = k := by
  unfold Writes
  simp only [relevant_iff]
  exact exists_congr fun b => and_congr_right fun _ => and_comm

/-- Some use reads a binding exactly if the scan meets a reading of it. -/
theorem exists_reads_iff : (∃ u, Reads t site k u) ↔ k ∈ readIds (relevantUses t site) := by
  rw [mem_readIds_iff]
  constructor
  · rintro ⟨u, hu⟩
    obtain ⟨b, hmem, hread⟩ := reads_iff.mp hu
    exact ⟨(u, b), hmem, hread⟩
  · rintro ⟨⟨u, b⟩, hmem, hread⟩
    exact ⟨u, reads_iff.mpr ⟨b, hmem, hread⟩⟩

theorem exists_writes_iff : (∃ u, Writes t site k u) ↔
    ∃ e ∈ relevantUses t site, e.1.access.writes = true ∧ e.2.id = k := by
  constructor
  · rintro ⟨u, hu⟩
    obtain ⟨b, hmem, hw⟩ := writes_iff.mp hu
    exact ⟨(u, b), hmem, hw⟩
  · rintro ⟨⟨u, b⟩, hmem, hw⟩
    exact ⟨u, writes_iff.mpr ⟨b, hmem, hw⟩⟩

/-- The relevant uses before one of them are those among the uses before it. -/
theorem exists_place_of_split {before after : List (Use × Binding)} {e : Use × Binding}
    (h : relevantUses t site = before ++ e :: after) :
    ∃ i, t.uses[i]? = some e.1 ∧
      ∀ (j : Nat) v b, j < i → t.uses[j]? = some v → Relevant t site b v → (v, b) ∈ before := by
  have hone : relevantUses t site = t.uses.toList.filterMap fun u =>
      if site.callback.contains u.node then (relevant? t site u).map (u, ·) else none := by
    unfold relevantUses Tree.usesWithin
    rw [List.filterMap_filter]
  rw [hone] at h
  obtain ⟨l₁, l₂, huses, hbefore, hrest⟩ := List.filterMap_eq_append_iff.mp h
  obtain ⟨m, u, l₃, rfl, hm, hu, -⟩ := List.filterMap_eq_cons_iff.mp hrest
  have hue : u = e.1 := by
    split at hu
    · obtain ⟨b, -, rfl⟩ := Option.map_eq_some_iff.mp hu
      rfl
    · cases hu
  have hlist : t.uses.toList = (l₁ ++ m) ++ u :: l₃ := by rw [huses, List.append_assoc]
  refine ⟨(l₁ ++ m).length, ?_, fun j v b hj hv hrel => ?_⟩
  · rw [← Array.getElem?_toList, hlist, List.getElem?_append_right (Nat.le_refl _), hue]
    simp
  · rw [← Array.getElem?_toList, hlist, List.getElem?_append_left hj] at hv
    have hvb : (if site.callback.contains v.node then (relevant? t site v).map (v, ·) else none) =
        some (v, b) := by
      have hout := outer_iff_outside.mpr ⟨hrel.in_component, hrel.outside⟩
      rw [if_pos hrel.inside, relevant?_eq_some_iff.mpr ⟨hrel.resolved, hout⟩]
      rfl
    rcases List.mem_append.mp (List.mem_of_getElem? hv) with hmem | hmem
    · rw [← hbefore]
      exact List.mem_filterMap.mpr ⟨v, hmem, hvb⟩
    · rw [hm v hmem] at hvb
      cases hvb

end Uses

/-! ### What the scan notes, entry by entry -/

/-- An entry of the scan keeps the offset of the first reading of its binding. -/
theorem offset_noteAll {src : Source} {es : List (Use × Binding)} {k : Nat} {d : Path}
    (h : Assoc.get? (noteAll src es).dependencies k = some d) :
    ∃ es₁ e es₂, es = es₁ ++ e :: es₂ ∧ ReadsId k e ∧ (∀ e' ∈ es₁, ¬ ReadsId k e') ∧
      d.offset = e.1.node.start := by
  induction es using List.reverseRecOn generalizing d with
  | nil => simp [noteAll] at h
  | append_singleton es e ih =>
    have hold : ∀ {c : Path}, Assoc.get? (noteAll src es).dependencies k = some c →
        ∃ es₁ e₀ es₂, es ++ [e] = es₁ ++ e₀ :: es₂ ∧ ReadsId k e₀ ∧ (∀ e' ∈ es₁, ¬ ReadsId k e') ∧
          c.offset = e₀.1.node.start := by
      intro c hc
      obtain ⟨es₁, e₀, es₂, rfl, hread, hfirst, hoff⟩ := ih hc
      exact ⟨es₁, e₀, es₂ ++ [e], by simp, hread, hfirst, hoff⟩
    rw [noteAll_concat] at h
    cases hw : e.1.access.writes with
    | true =>
      rw [note_of_writes _ hw] at h
      exact hold h
    | false =>
      unfold References.note at h
      rw [if_neg (by simp [hw])] at h
      by_cases hk : e.2.id = k
      · cases hg : Assoc.get? (noteAll src es).dependencies k with
        | none =>
          -- the new use is the first reading
          rw [hk, hg] at h
          simp only [Assoc.get?_put_self, Option.some.injEq] at h
          have hnone : k ∉ readIds es := by
            rw [← keys_noteAll src, Assoc.mem_keys_iff, hg]
            simp
          refine ⟨es, e, [], rfl, ⟨hw, hk⟩, fun e' he' hr => ?_, by rw [← h]⟩
          exact hnone (mem_readIds_iff.mpr ⟨e', he', hr⟩)
        | some c =>
          rw [hk, hg] at h
          simp only [Assoc.get?_put_self, Option.some.injEq] at h
          have hoff : d.offset = c.offset := by rw [← h]
          rw [hoff]
          exact hold hg
      · have hget : Assoc.get? (noteAll src es).dependencies k = some d := by
          cases hg : Assoc.get? (noteAll src es).dependencies e.2.id with
          | none =>
            rw [hg] at h
            simpa only [Assoc.get?_put_of_ne _ _ hk] using h
          | some c =>
            rw [hg] at h
            simpa only [Assoc.get?_put_of_ne _ _ hk] using h
        exact hold hget

/-- What is noted as written is a binding of a use that writes it. -/
theorem get?_mutations_noteAll {src : Source} {es : List (Use × Binding)} {k : Nat} {b : Binding}
    (h : Assoc.get? (noteAll src es).mutations k = some b) :
    b.id = k ∧ ∃ e ∈ es, e.1.access.writes = true ∧ e.2 = b := by
  induction es using List.reverseRecOn with
  | nil => simp [noteAll] at h
  | append_singleton es e ih =>
    have hold : Assoc.get? (noteAll src es).mutations k = some b →
        b.id = k ∧ ∃ e' ∈ es ++ [e], e'.1.access.writes = true ∧ e'.2 = b := by
      intro h'
      obtain ⟨hid, e', he', hw⟩ := ih h'
      exact ⟨hid, e', List.mem_append_left _ he', hw⟩
    rw [noteAll_concat] at h
    cases hw : e.1.access.writes with
    | true =>
      rw [note_of_writes _ hw] at h
      simp only [Assoc.get?_put] at h
      split at h
      · next hk =>
        obtain rfl := Option.some.inj h
        exact ⟨hk, e, by simp, hw, rfl⟩
      · exact hold h
    | false =>
      obtain ⟨c, -, -, hd⟩ := note_of_reads src (noteAll src es) (b := e.2) hw
      rw [hd] at h
      exact hold h

theorem nodup_keys_mutations_noteAll (src : Source) (es : List (Use × Binding)) :
    (Assoc.keys (noteAll src es).mutations).Nodup := by
  induction es using List.reverseRecOn with
  | nil => exact List.nodup_nil
  | append_singleton es e ih =>
    rw [noteAll_concat]
    cases hw : e.1.access.writes with
    | true =>
      rw [note_of_writes _ hw]
      exact Assoc.nodup_keys_put ih _ _
    | false =>
      obtain ⟨c, -, -, hd⟩ := note_of_reads src (noteAll src es) (b := e.2) hw
      rw [hd]
      exact ih

/-! ### The references of a site -/

section References

variable {src : Source} {t : Tree} {site : Site} {k : Nat} {d : Path}

/-- What a callback writes: the bindings with a relevant use that writes. -/
theorem mem_keys_mutations_iff :
    k ∈ Assoc.keys (references src t site).mutations ↔ ∃ u, Writes t site k u := by
  rw [Assoc.mem_keys_iff, exists_writes_iff]
  exact has_noteAll_iff

/-- What a callback depends on: the bindings with a relevant reading, none of whose relevant uses
writes. -/
theorem mem_keys_dependencies_iff : k ∈ Assoc.keys (references src t site).dependencies ↔
    (∃ u, Reads t site k u) ∧ ¬ ∃ u, Writes t site k u := by
  have hwrites : Assoc.has (noteAll src (relevantUses t site)).mutations k = true ↔
      ∃ e ∈ relevantUses t site, e.1.access.writes = true ∧ e.2.id = k := has_noteAll_iff
  rw [dependencies_eq, Assoc.keys_filter _ fun k =>
    !Assoc.has (noteAll src (relevantUses t site)).mutations k, List.mem_filter, keys_noteAll,
    exists_reads_iff, exists_writes_iff, ← hwrites]
  simp

theorem get?_noteAll_of_get? (h : Assoc.get? (references src t site).dependencies k = some d) :
    Assoc.get? (noteAll src (relevantUses t site)).dependencies k = some d :=
  (mem_dependencies_iff.mp (Assoc.mem_of_get? h)).1

/-- A path begins the path of an entry exactly if it begins the paths of all readings. -/
theorem prefix_dependency_iff (h : Assoc.get? (references src t site).dependencies k = some d)
    (q : List String) :
    q <+: d.path ↔ ∀ u, Reads t site k u → q <+: accessPath src u.cursor := by
  rw [prefix_noteAll_iff (get?_noteAll_of_get? h)]
  constructor
  · intro hall u hu
    obtain ⟨b, hmem, hread⟩ := reads_iff.mp hu
    exact hall (u, b) hmem hread
  · rintro hall ⟨u, b⟩ hmem hread
    exact hall u (reads_iff.mpr ⟨b, hmem, hread⟩)

theorem exists_firstRead (h : Assoc.get? (references src t site).dependencies k = some d) :
    ∃ i u, FirstRead t site k i u ∧ d.offset = u.node.start := by
  obtain ⟨es₁, e, es₂, hsplit, hread, hfirst, hoff⟩ := offset_noteAll (get?_noteAll_of_get? h)
  obtain ⟨i, hplace, hbefore⟩ := exists_place_of_split hsplit
  have hmem : e ∈ relevantUses t site := by
    rw [hsplit]
    simp
  refine ⟨i, e.1, ⟨hplace, reads_iff.mpr ⟨e.2, hmem, hread⟩, ?_⟩, hoff⟩
  rintro j v hj hv ⟨b, hrel, hid, hw⟩
  exact hfirst (v, b) (hbefore j v b hj hv hrel) ⟨hw, hid⟩

/-- Every entry says what its readings have in common. -/
theorem narrowed_of_get? (h : Assoc.get? (references src t site).dependencies k = some d) :
    Narrowed src t site k d where
  binding := by
    obtain ⟨hid, ⟨u, b⟩, hmem, hread, rfl⟩ := get?_noteAll (get?_noteAll_of_get? h)
    exact ⟨hid, u, relevant_iff.mpr hmem, hread.1⟩
  common := (prefix_dependency_iff h d.path).mp List.prefix_rfl
  longest := fun q hq => ((prefix_dependency_iff h q).mpr hq).length_le
  covered := fun c => by
    have hid := (get?_noteAll (get?_noteAll_of_get? h)).1
    rw [← prefix_dependency_iff h, ← hid]
    simp [Path.covers]
  offset := exists_firstRead h

/-- The entries come in the order of the first readings. -/
theorem pairwise_keys_dependencies (src : Source) (t : Tree) (site : Site) :
    (Assoc.keys (references src t site).dependencies).Pairwise fun k l =>
      ∀ i j u v, FirstRead t site k i u → FirstRead t site l j v → i < j := by
  have hkeys : (Assoc.keys (references src t site).dependencies).Pairwise
      (ReadFirst (relevantUses t site)) := by
    rw [dependencies_eq, Assoc.keys_filter _ fun k =>
      !Assoc.has (noteAll src (relevantUses t site)).mutations k, keys_noteAll]
    exact (pairwise_readIds _).filter _
  refine hkeys.imp ?_
  rintro k l ⟨es₁, e, es₂, hsplit, hread, hnone⟩ i j u v hk hl
  obtain ⟨m, hplace, hbefore⟩ := exists_place_of_split hsplit
  have hmem : (e.1, e.2) ∈ relevantUses t site := by
    rw [hsplit]
    simp
  -- `e` reads `k`, so the first reading of `k` is not behind it
  have him : i ≤ m := by
    by_contra hlt
    exact hk.first m e.1 (Nat.lt_of_not_le hlt) hplace (reads_iff.mpr ⟨e.2, hmem, hread⟩)
  -- up to `e`, nothing reads `l`
  have hmj : m < j := by
    obtain ⟨b, hrel, hid, hw⟩ := hl.reads
    by_contra hle
    rcases Nat.lt_or_eq_of_le (Nat.le_of_not_lt hle) with hlt | heq
    · exact hnone (v, b) (List.mem_append_left _ (hbefore j v b hlt hl.place hrel)) ⟨hw, hid⟩
    · have hve : v = e.1 := by
        have hv := hl.place
        rw [heq, hplace] at hv
        exact (Option.some.inj hv).symm
      have hbe : b = e.2 := by
        have hb := hrel.resolved
        rw [hve, (relevant_iff.mpr hmem).resolved] at hb
        exact (Option.some.inj hb).symm
      refine hnone e (List.mem_append_right _ (List.mem_singleton.mpr rfl)) ?_
      exact ⟨by rw [← hve]; exact hw, by rw [← hbe]; exact hid⟩
  omega

/-- Which uses are relevant does not depend on their order. -/
theorem relevant_perm {uses : Array Use} (h : uses.toList.Perm t.uses.toList) {b : Binding}
    {u : Use} : Relevant { t with uses } site b u ↔ Relevant t site b u := by
  have hmem : u ∈ uses ↔ u ∈ t.uses := by
    rw [← Array.mem_toList_iff, ← Array.mem_toList_iff]
    exact h.mem_iff
  constructor
  · intro hr
    exact ⟨hmem.mp hr.recorded, hr.inside, hr.resolved, hr.outside, hr.in_component⟩
  · intro hr
    exact ⟨hmem.mpr hr.recorded, hr.inside, hr.resolved, hr.outside, hr.in_component⟩

theorem reads_perm {uses : Array Use} (h : uses.toList.Perm t.uses.toList) {u : Use} :
    Reads { t with uses } site k u ↔ Reads t site k u := by
  unfold Reads
  simp only [relevant_perm h]

theorem writes_perm {uses : Array Use} (h : uses.toList.Perm t.uses.toList) {u : Use} :
    Writes { t with uses } site k u ↔ Writes t site k u := by
  unfold Writes
  simp only [relevant_perm h]

/-- Two meets of one family are equal. -/
theorem path_perm {uses : Array Use} (h : uses.toList.Perm t.uses.toList) {d' : Path}
    (hd : Assoc.get? (references src t site).dependencies k = some d)
    (hd' : Assoc.get? (references src { t with uses } site).dependencies k = some d') :
    d'.path = d.path := by
  have hle : d'.path <+: d.path := by
    rw [prefix_dependency_iff hd]
    intro u hu
    exact (prefix_dependency_iff hd' d'.path).mp List.prefix_rfl u ((reads_perm h).mpr hu)
  have hge : d.path <+: d'.path := by
    rw [prefix_dependency_iff hd']
    intro u hu
    exact (prefix_dependency_iff hd d.path).mp List.prefix_rfl u ((reads_perm h).mp hu)
  exact hle.eq_of_length_le hge.length_le

/-- In a valid store a number stands for one binding. -/
theorem Relevant.eq_of_id (hv : t.store.Valid) {b c : Binding} {u v : Use}
    (hb : Relevant t site b u) (hc : Relevant t site c v) (hid : b.id = c.id) : b = c :=
  Tree.bindingOf?_inj hv hb.resolved hc.resolved hid

theorem mem_mutations_iff (hv : t.store.Valid) {b : Binding} :
    b ∈ Assoc.values (references src t site).mutations ↔
      ∃ u, Relevant t site b u ∧ u.access.writes = true := by
  have hentry : ∀ {k c}, Assoc.get? (references src t site).mutations k = some c →
      c.id = k ∧ ∃ u, Relevant t site c u ∧ u.access.writes = true := by
    intro k c hc
    obtain ⟨hid, ⟨u, c'⟩, hmem, hw, rfl⟩ := get?_mutations_noteAll hc
    exact ⟨hid, u, relevant_iff.mpr hmem, hw⟩
  constructor
  · intro hb
    obtain ⟨k, hk⟩ := Assoc.mem_values hb
    exact (hentry ((Assoc.get?_eq_some_iff (nodup_keys_mutations_noteAll src _)).mpr hk)).2
  · rintro ⟨u, hrel, hw⟩
    have hkey : b.id ∈ Assoc.keys (references src t site).mutations :=
      mem_keys_mutations_iff.mpr ⟨u, b, hrel, rfl, hw⟩
    obtain ⟨c, hc⟩ := Option.isSome_iff_exists.mp (Assoc.mem_keys_iff.mp hkey)
    obtain ⟨hid, v, hrel', -⟩ := hentry hc
    obtain rfl := hrel'.eq_of_id hv hrel hid
    exact List.mem_map.mpr ⟨_, Assoc.mem_of_get? hc, rfl⟩

theorem exists_dependency_iff (hv : t.store.Valid) {b : Binding} :
    (∃ d ∈ Assoc.values (references src t site).dependencies, d.binding = b) ↔
      (∃ u, Relevant t site b u ∧ u.access.writes = false) ∧
        ∀ u, Relevant t site b u → u.access.writes = false := by
  constructor
  · rintro ⟨d, hd, rfl⟩
    obtain ⟨k, hk⟩ := Assoc.mem_values hd
    have hget := (Assoc.get?_eq_some_iff (nodup_keys_dependencies src t site)).mpr hk
    obtain ⟨hid, hread⟩ := (narrowed_of_get? hget).binding
    have hkey : k ∈ Assoc.keys (references src t site).dependencies := List.mem_map.mpr ⟨_, hk, rfl⟩
    refine ⟨hread, fun u hrel => ?_⟩
    by_contra hw
    exact (mem_keys_dependencies_iff.mp hkey).2 ⟨u, d.binding, hrel, hid, by simpa using hw⟩
  · rintro ⟨⟨u, hrel, hw⟩, hall⟩
    have hkey : b.id ∈ Assoc.keys (references src t site).dependencies := by
      refine mem_keys_dependencies_iff.mpr ⟨⟨u, b, hrel, rfl, hw⟩, ?_⟩
      rintro ⟨v, c, hrel', hid, hw'⟩
      obtain rfl := hrel'.eq_of_id hv hrel hid
      rw [hall v hrel'] at hw'
      cases hw'
    obtain ⟨d, hd⟩ := Option.isSome_iff_exists.mp (Assoc.mem_keys_iff.mp hkey)
    obtain ⟨hid, v, hrel', -⟩ := (narrowed_of_get? hd).binding
    exact ⟨d, List.mem_map.mpr ⟨_, Assoc.mem_of_get? hd, rfl⟩, hrel'.eq_of_id hv hrel hid⟩

end References

/-- The common beginning is the meet for coverage. -/
theorem covers_commonPrefix (c : Path) (b : Binding) (x y : List String) (offset : Nat) :
    c.covers ⟨b, commonPrefix x y, offset⟩ =
      (c.covers ⟨b, x, offset⟩ && c.covers ⟨b, y, offset⟩) := by
  rw [Bool.eq_iff_iff, Bool.and_eq_true]
  unfold Path.covers
  simp only [Bool.and_eq_true, decide_eq_true_eq, List.isPrefixOf_iff_prefix,
    prefix_commonPrefix_iff]
  exact ⟨fun ⟨hid, hx, hy⟩ => ⟨⟨hid, hx⟩, hid, hy⟩, fun ⟨⟨hid, hx⟩, _, hy⟩ => ⟨hid, hx, hy⟩⟩

/-- **References are what the uses say.**  For any tree and any site: the bindings that are written
are those with a relevant use that writes; the dependencies are those with a relevant reading and no
relevant use that writes, each once, by the order of the first readings.  The path of a dependency
is the longest common beginning of the paths of all its relevant readings, so that another path
covers it exactly if it begins each of these; its offset is that of the first reading.  The keys and
the paths are the same for every order of the uses.  Where a number stands for one binding, as in
the tree of every program, all this holds of the bindings themselves.  Coverage turns common
beginnings into meets. -/
theorem references_exact (src : Source) (t : Tree) (site : Site) :
    let r := references src t site
    (∀ k, k ∈ Assoc.keys r.mutations ↔ ∃ u, Writes t site k u) ∧
    (∀ k, k ∈ Assoc.keys r.dependencies ↔
      (∃ u, Reads t site k u) ∧ ¬ ∃ u, Writes t site k u) ∧
    (Assoc.keys r.dependencies).Nodup ∧
    (∀ k d, Assoc.get? r.dependencies k = some d → Narrowed src t site k d) ∧
    ((Assoc.keys r.dependencies).Pairwise fun k l =>
      ∀ i j u v, FirstRead t site k i u → FirstRead t site l j v → i < j) ∧
    (∀ uses : Array Use, uses.toList.Perm t.uses.toList →
      let r' := references src { t with uses } site
      (∀ k, k ∈ Assoc.keys r'.mutations ↔ k ∈ Assoc.keys r.mutations) ∧
      (∀ k, k ∈ Assoc.keys r'.dependencies ↔ k ∈ Assoc.keys r.dependencies) ∧
      ∀ k d d', Assoc.get? r.dependencies k = some d → Assoc.get? r'.dependencies k = some d' →
        d'.path = d.path) ∧
    (t.store.Valid → ∀ b,
      (b ∈ Assoc.values r.mutations ↔ ∃ u, Relevant t site b u ∧ u.access.writes = true) ∧
      ((∃ d ∈ Assoc.values r.dependencies, d.binding = b) ↔
        (∃ u, Relevant t site b u ∧ u.access.writes = false) ∧
          ∀ u, Relevant t site b u → u.access.writes = false)) ∧
    ∀ (c : Path) (b : Binding) (x y : List String) (offset : Nat),
      c.covers ⟨b, commonPrefix x y, offset⟩ =
        (c.covers ⟨b, x, offset⟩ && c.covers ⟨b, y, offset⟩) := by
  intro r
  refine ⟨fun k => mem_keys_mutations_iff, fun k => mem_keys_dependencies_iff,
    nodup_keys_dependencies src t site, fun k d => narrowed_of_get?,
    pairwise_keys_dependencies src t site, fun uses hperm => ⟨?_, ?_, ?_⟩,
    fun hv b => ⟨mem_mutations_iff hv, exists_dependency_iff hv⟩, covers_commonPrefix⟩
  · intro k
    rw [mem_keys_mutations_iff, mem_keys_mutations_iff]
    exact exists_congr fun u => writes_perm hperm
  · intro k
    rw [mem_keys_dependencies_iff, mem_keys_dependencies_iff]
    simp only [reads_perm hperm, writes_perm hperm]
  · intro k d d' hd hd'
    exact path_perm hperm hd hd'

end HookLint.Dependency
