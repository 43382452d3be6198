import HookLint.Files.Discovery
import HookLint.Proofs.Data.Assoc
import HookLint.Proofs.Report.Replacement

/-!
# Proofs.Files.Writing — what writing to a file leaves alone

Writing to a file that is there makes no name and removes none, so every path leads where it led
before.  Hence only the one file changes, and a path that leads elsewhere reads what it read.
`ChangesOnly` says this of a whole row of writes: it composes along the row (`ChangesOnly.trans`).
-/

namespace HookLint.Files

/-! ### Texts in files -/

/-- The bytes that were read as a text are the bytes of this text. -/
theorem encode_of_decode? {contents : Bytes} {text : String} (h : decode? contents = some text) :
    encode text = contents :=
  Report.Fix.bytesOf_of_fromUTF8? h

theorem decode?_encode (text : String) : decode? (encode text) = some text :=
  Report.Fix.fromUTF8?_bytesOf text

namespace FileTree

variable {t t' t'' : FileTree} {p q : Pathname} {paths paths' : List Pathname}
  {name : List String} {contents : Bytes}

/-! ### Names -/

/-- The same names of files and folders and the same refusals, whatever the files hold. -/
structure SameNames (t t' : FileTree) : Prop where
  keys : Assoc.keys t'.files = Assoc.keys t.files
  folders : t'.folders = t.folders
  here : t'.here = t.here
  denies : t'.denies = t.denies

theorem isFolder_eq_any_keys (t : FileTree) (name : List String) :
    t.isFolder name = (name.isEmpty || name.isPrefixOf t.here ||
      t.folders.any (fun f => name.isPrefixOf f) ||
      (Assoc.keys t.files).any fun f => name.isPrefixOf f && decide (name.length < f.length)) := by
  unfold isFolder Assoc.keys
  rw [List.any_map]
  rfl

theorem SameNames.isFolder_eq (h : SameNames t t') (name : List String) :
    t'.isFolder name = t.isFolder name := by
  rw [isFolder_eq_any_keys, isFolder_eq_any_keys, h.keys, h.folders, h.here]

theorem SameNames.walk_eq (h : SameNames t t') (here steps : List String) :
    t'.walk here steps = t.walk here steps := by
  induction steps generalizing here with
  | nil => rfl
  | cons step steps ih =>
    have hrefuses : t'.refuses here step = t.refuses here step := by
      unfold refuses
      rw [h.denies]
    rw [walk, walk, h.isFolder_eq, hrefuses, ih]

/-- Where a path leads depends on the names and the refusals alone. -/
theorem SameNames.locate?_eq (h : SameNames t t') (p : Pathname) : t'.locate? p = t.locate? p := by
  unfold locate? lookup start
  rw [h.walk_eq, h.here]

theorem SameNames.grants_eq (h : SameNames t t') (r : Request) (p : Pathname) :
    t'.grants r p = t.grants r p := by
  unfold grants
  rw [h.locate?_eq, h.denies]

/-! ### The frame of a row of writes -/

/-- No file or folder has come or gone, and all files but those at the given paths hold what they
held. -/
structure ChangesOnly (paths : List Pathname) (t t' : FileTree) : Prop extends SameNames t t' where
  other : ∀ name, (∀ p ∈ paths, t.locate? p ≠ some name) →
    Assoc.get? t'.files name = Assoc.get? t.files name

theorem ChangesOnly.refl (paths : List Pathname) (t : FileTree) : ChangesOnly paths t t :=
  ⟨⟨rfl, rfl, rfl, rfl⟩, fun _ _ => rfl⟩

theorem ChangesOnly.trans (h : ChangesOnly paths t t') (h' : ChangesOnly paths' t' t'') :
    ChangesOnly (paths ++ paths') t t'' := by
  refine ⟨⟨h'.keys.trans h.keys, h'.folders.trans h.folders, h'.here.trans h.here,
    h'.denies.trans h.denies⟩, fun name hname => ?_⟩
  have hfirst : ∀ p ∈ paths, t.locate? p ≠ some name := fun p hp =>
    hname p (List.mem_append_left _ hp)
  have hsecond : ∀ p ∈ paths', t'.locate? p ≠ some name := by
    intro p hp
    rw [h.locate?_eq]
    exact hname p (List.mem_append_right _ hp)
  exact (h'.other name hsecond).trans (h.other name hfirst)

theorem ChangesOnly.mono (h : ChangesOnly paths t t') (hsub : paths ⊆ paths') :
    ChangesOnly paths' t t' :=
  ⟨h.toSameNames, fun name hname => h.other name fun p hp => hname p (hsub hp)⟩

/-- Two paths do not lead to one file. -/
def Apart (t : FileTree) (p q : Pathname) : Prop :=
  ∀ name, t.locate? p = some name → t.locate? q ≠ some name

instance (t : FileTree) (p q : Pathname) : Decidable (t.Apart p q) :=
  decidable_of_iff (∀ name ∈ t.locate? p, t.locate? q ≠ some name)
    ⟨fun h name hp => h name hp, fun h name hp => h name hp⟩

/-- No two of the paths lead to one file. -/
def Distinct (t : FileTree) (paths : List Pathname) : Prop := paths.Pairwise t.Apart

instance (t : FileTree) (paths : List Pathname) : Decidable (t.Distinct paths) :=
  inferInstanceAs (Decidable (paths.Pairwise t.Apart))

theorem Apart.symm (h : t.Apart p q) : t.Apart q p := fun name hq hp => h name hp hq

theorem SameNames.apart_iff (h : SameNames t t') : t'.Apart p q ↔ t.Apart p q := by
  unfold Apart
  rw [h.locate?_eq, h.locate?_eq]

theorem SameNames.distinct_iff (h : SameNames t t') : t'.Distinct paths ↔ t.Distinct paths :=
  List.Pairwise.iff fun _ _ => h.apart_iff

/-- A path that leads to none of the files that change reads what it read. -/
theorem ChangesOnly.read?_eq (h : ChangesOnly paths t t') (hp : ∀ q ∈ paths, t.Apart q p) :
    t'.read? p = t.read? p := by
  have hcontents : t'.contents? p = t.contents? p := by
    unfold contents?
    rw [h.locate?_eq]
    cases hname : t.locate? p with
    | none => rfl
    | some name =>
      refine h.other name fun q hq hqname => ?_
      exact hp q hq name hqname hname
  unfold read?
  rw [h.grants_eq, hcontents]

/-! ### Writing to a file that is there -/

theorem read?_eq_some_iff : t.read? p = some contents ↔
    t.grants .read p = true ∧
      ∃ name, t.locate? p = some name ∧ Assoc.get? t.files name = some contents := by
  unfold read? contents?
  split
  · next hgranted => simp [hgranted, Option.bind_eq_some_iff]
  · next hdenied => simp [hdenied]

theorem write_of_locate? (h : t.locate? p = some name) (new : Bytes) :
    t.write p new = { t with files := Assoc.put t.files name new } := by
  unfold write
  rw [h]

theorem changesOnly_write (h : t.read? p = some contents) (new : Bytes) :
    ChangesOnly [p] t (t.write p new) := by
  obtain ⟨-, name, hname, hget⟩ := read?_eq_some_iff.mp h
  rw [write_of_locate? hname]
  have hmem : name ∈ Assoc.keys t.files := by
    rw [Assoc.mem_keys_iff, hget]
    rfl
  refine ⟨⟨Assoc.keys_put_of_mem _ _ hmem, rfl, rfl, rfl⟩, fun other hother => ?_⟩
  have hne : name ≠ other := by
    rintro rfl
    exact hother p List.mem_cons_self hname
  exact Assoc.get?_put_of_ne _ _ hne

theorem read?_write_self (h : t.read? p = some contents) (new : Bytes) :
    (t.write p new).read? p = some new := by
  have hsame := (changesOnly_write h new).toSameNames
  obtain ⟨hgranted, name, hname, -⟩ := read?_eq_some_iff.mp h
  refine read?_eq_some_iff.mpr ⟨?_, name, ?_, ?_⟩
  · rw [hsame.grants_eq, hgranted]
  · rw [hsame.locate?_eq, hname]
  · rw [write_of_locate? hname]
    exact Assoc.get?_put_self _ _ _

end FileTree

end HookLint.Files
