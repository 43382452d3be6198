import HookLint.Proofs.Files.Below
import Mathlib.Data.List.Induction

/-!
# Proofs.Files.Listing — which files paths stand for

Discovery goes through a row of paths and adds to the files found so far those that each path stands
for, as far as they are new.  Adding is associative (`addNew_assoc`), so going on from a list of
files is the same as starting anew and adding what comes out (`foldlM_addNew`).  From this follows
how rows compose (`sourceFiles_append`), and what is found in the end is settled path by path
(`mem_sourceFiles_iff`).

A row fails at the first path that stands for nothing, or that the system does not say enough of
(`sourceFiles_eq_error_iff`).  Only the former is an error that is reported.
-/

namespace HookLint.Files

/-! ### Adding what is new -/

section AddNew

variable {found new : List Pathname} {p : Pathname}

theorem addNew_cons (found : List Pathname) (p : Pathname) (new : List Pathname) :
    addNew found (p :: new) = addNew (addNew found [p]) new := rfl

theorem addNew_singleton (found : List Pathname) (p : Pathname) :
    addNew found [p] = if p ∈ found then found else found ++ [p] := by
  show (if found.contains p then found else found ++ [p]) = _
  simp only [List.contains_iff_mem]

theorem addNew_append (found new more : List Pathname) :
    addNew found (new ++ more) = addNew (addNew found new) more := List.foldl_append

theorem mem_addNew : p ∈ addNew found new ↔ p ∈ found ∨ p ∈ new := by
  induction new generalizing found with
  | nil => simp [addNew]
  | cons q new ih =>
    rw [addNew_cons, ih, addNew_singleton, List.mem_cons]
    split
    · next hq =>
      constructor
      · rintro (h | h)
        · exact .inl h
        · exact .inr (.inr h)
      · rintro (h | rfl | h)
        · exact .inl h
        · exact .inl hq
        · exact .inr h
    · rw [List.mem_append, List.mem_singleton, or_assoc]

theorem nodup_addNew (h : found.Nodup) (new : List Pathname) : (addNew found new).Nodup := by
  induction new generalizing found with
  | nil => exact h
  | cons q new ih =>
    rw [addNew_cons, addNew_singleton]
    split
    · exact ih h
    · next hq =>
      have hnew : ∀ a ∈ found, a ≠ q := fun a ha => ne_of_mem_of_not_mem ha hq
      exact ih (List.nodup_append.mpr ⟨h, by simp, by simpa using hnew⟩)

/-- Grouping does not matter. -/
theorem addNew_assoc (found new more : List Pathname) :
    addNew (addNew found new) more = addNew found (addNew new more) := by
  induction more generalizing new with
  | nil => rfl
  | cons p more ih =>
    rw [addNew_cons _ p, addNew_cons new, ← ih]
    congr 1
    rw [addNew_singleton, addNew_singleton]
    by_cases hp : p ∈ new
    · rw [if_pos (mem_addNew.mpr (.inr hp)), if_pos hp]
    · rw [if_neg hp, addNew_append, addNew_singleton]

/-- A list without repetitions is added as far as it is new. -/
theorem addNew_of_nodup (found : List Pathname) (h : new.Nodup) :
    addNew found new = found ++ new.filter fun p => p ∉ found := by
  induction new generalizing found with
  | nil => simp [addNew]
  | cons q new ih =>
    obtain ⟨hq, hnew⟩ := List.nodup_cons.mp h
    rw [addNew_cons, ih _ hnew, addNew_singleton, List.filter_cons]
    by_cases hfound : q ∈ found
    · rw [if_pos hfound, if_neg (by simpa using hfound)]
    · rw [if_neg hfound, if_pos (by simpa using hfound), List.append_assoc, List.singleton_append]
      congr 2
      refine List.filter_congr fun p hp => ?_
      have hne : p ≠ q := ne_of_mem_of_not_mem hp hq
      simp [hne]

theorem addNew_nil_sublist (new : List Pathname) : (addNew [] new).Sublist new := by
  induction new using List.reverseRecOn with
  | nil => exact List.Sublist.refl _
  | append_singleton new p ih =>
    rw [addNew_append, addNew_singleton]
    split
    · exact ih.trans (List.sublist_append_left _ _)
    · exact ih.append (List.Sublist.refl _)

end AddNew

/-! ### A row of paths -/

section Row

variable {c : Config} {t : FileTree} {paths found : List Pathname} {p q : Pathname}

/-- Going through a row of paths from a list of files adds to it what the row stands for. -/
theorem foldlM_addNew (found paths : List Pathname) :
    paths.foldlM (fun found p => (candidates c t p).map (addNew found)) found =
      (sourceFiles c t paths).map (addNew found) := by
  unfold sourceFiles
  induction paths generalizing found with
  | nil => rfl
  | cons p paths ih =>
    rw [List.foldlM_cons, List.foldlM_cons]
    cases candidates c t p with
    | error e => rfl
    | ok files =>
      show List.foldlM _ (addNew found files) paths =
        Except.map (addNew found) (List.foldlM _ (addNew [] files) paths)
      rw [ih (addNew found files), ih (addNew [] files)]
      cases List.foldlM (fun found p => (candidates c t p).map (addNew found)) [] paths with
      | error e => rfl
      | ok more =>
        show Except.ok (addNew (addNew found files) more) =
          .ok (addNew found (addNew (addNew [] files) more))
        rw [← addNew_assoc found, ← addNew_assoc found []]
        rfl

theorem map_addNew_nil (c : Config) (t : FileTree) (paths : List Pathname) :
    (sourceFiles c t paths).map (addNew []) = sourceFiles c t paths :=
  (foldlM_addNew [] paths).symm

theorem nodup_sourceFiles (h : sourceFiles c t paths = .ok found) : found.Nodup := by
  have hsame := map_addNew_nil c t paths
  rw [h] at hsame
  rw [← Except.ok.inj hsame]
  exact nodup_addNew List.nodup_nil found

/-- The files of two rows are those of the first, and those of the second that are not among
them. -/
theorem sourceFiles_append (c : Config) (t : FileTree) (xs ys : List Pathname) :
    sourceFiles c t (xs ++ ys) = do
      let before ← sourceFiles c t xs
      let after ← sourceFiles c t ys
      return before ++ after.filter fun p => p ∉ before := by
  have hrow : sourceFiles c t (xs ++ ys) =
      sourceFiles c t xs >>= fun before => (sourceFiles c t ys).map (addNew before) := by
    conv => lhs; unfold sourceFiles
    rw [List.foldlM_append]
    simp only [foldlM_addNew, map_addNew_nil]
  rw [hrow]
  cases sourceFiles c t xs with
  | error e => rfl
  | ok before =>
    cases hys : sourceFiles c t ys with
    | error e => rfl
    | ok after =>
      show Except.ok (addNew before after) = .ok (before ++ after.filter fun p => p ∉ before)
      rw [addNew_of_nodup before (nodup_sourceFiles hys)]

/-- There is a file or a folder at the path. -/
def Stands (t : FileTree) (p : Pathname) : Prop := t.isFile p = true ∨ t.isDirectory p = true

/-- The system says what is at the path, and, if this is no file but a folder, what is at each path
below it that listing comes upon. -/
structure Answered (t : FileTree) (p : Pathname) : Prop where
  here : t.answers p = true
  below : t.isFile p = false → t.isDirectory p = true → answersBelow t p = true

/-- The error that a path leads to, if it does. -/
def Fails (t : FileTree) (p : Pathname) (e : SourceError) : Prop :=
  e = .inaccessible p ∧ ¬ Answered t p ∨ e = .noSuchFile p ∧ Answered t p ∧ ¬ Stands t p

instance (t : FileTree) (p : Pathname) : Decidable (Stands t p) :=
  inferInstanceAs (Decidable (_ ∨ _))

instance (t : FileTree) (p : Pathname) : Decidable (Answered t p) :=
  decidable_of_iff (t.answers p = true ∧
    (t.isFile p = false → t.isDirectory p = true → answersBelow t p = true))
    ⟨fun h => ⟨h.1, h.2⟩, fun h => ⟨h.here, h.below⟩⟩

theorem exists_candidates (c : Config) (hanswered : Answered t p) (hstands : Stands t p) :
    ∃ files, candidates c t p = .ok files := by
  unfold candidates
  rw [hanswered.here]
  by_cases hfile : t.isFile p = true
  · exact ⟨[p], by simp [hfile]⟩
  · have hfolder := hstands.resolve_left hfile
    rw [Bool.not_eq_true] at hfile
    exact ⟨filesBelow c t p, by simp [hfile, hfolder, hanswered.below hfile hfolder]⟩

theorem candidates_of_not_answered (c : Config) (h : ¬ Answered t p) :
    candidates c t p = .error (.inaccessible p) := by
  unfold candidates
  by_cases hanswers : t.answers p = true
  · have hbelow : t.isFile p = false ∧ t.isDirectory p = true ∧ answersBelow t p = false := by
      by_contra hnot
      refine h ⟨hanswers, fun hfile hfolder => ?_⟩
      by_contra hbelow
      exact hnot ⟨hfile, hfolder, Bool.eq_false_iff.mpr hbelow⟩
    obtain ⟨hfile, hfolder, hbelow⟩ := hbelow
    simp [hanswers, hfile, hfolder, hbelow]
  · simp [hanswers]

theorem candidates_of_not_stands (c : Config) (hanswers : t.answers p = true)
    (h : ¬ Stands t p) : candidates c t p = .error (.noSuchFile p) := by
  obtain ⟨hfile, hfolder⟩ := not_or.mp h
  unfold candidates
  simp [hanswers, hfile, hfolder]

theorem candidates_eq_error_iff {e : SourceError} :
    candidates c t p = .error e ↔ Fails t p e := by
  by_cases hanswered : Answered t p
  · by_cases hstands : Stands t p
    · obtain ⟨files, hfiles⟩ := exists_candidates c hanswered hstands
      simp [Fails, hfiles, hanswered, hstands]
    · rw [candidates_of_not_stands c hanswered.here hstands]
      simp [Fails, hanswered, hstands, eq_comm]
  · rw [candidates_of_not_answered c hanswered]
    simp [Fails, hanswered, eq_comm]

theorem exists_candidates_iff :
    (∃ files, candidates c t p = .ok files) ↔ Answered t p ∧ Stands t p := by
  constructor
  · rintro ⟨files, hfiles⟩
    by_contra hnot
    have herror : ∃ e, Fails t p e := by
      by_cases hanswered : Answered t p
      · exact ⟨_, .inr ⟨rfl, hanswered, fun hstands => hnot ⟨hanswered, hstands⟩⟩⟩
      · exact ⟨_, .inl ⟨rfl, hanswered⟩⟩
    obtain ⟨e, he⟩ := herror
    rw [candidates_eq_error_iff.mpr he] at hfiles
    cases hfiles
  · rintro ⟨hanswered, hstands⟩
    exact exists_candidates c hanswered hstands

theorem sourceFiles_cons (c : Config) (t : FileTree) (p : Pathname) (paths : List Pathname) :
    sourceFiles c t (p :: paths) = do
      let files ← candidates c t p
      let more ← sourceFiles c t paths
      return addNew (addNew [] files) more := by
  show List.foldlM _ [] (p :: paths) = _
  rw [List.foldlM_cons]
  cases candidates c t p with
  | error e => rfl
  | ok files =>
    show List.foldlM _ (addNew [] files) paths = _
    rw [foldlM_addNew]
    rfl

theorem exists_candidates_of_mem (h : sourceFiles c t paths = .ok found) (hp : p ∈ paths) :
    ∃ files, candidates c t p = .ok files := by
  cases hfiles : candidates c t p with
  | ok files => exact ⟨files, rfl⟩
  | error e =>
    obtain ⟨before, after, rfl⟩ := List.append_of_mem hp
    rw [sourceFiles_append, sourceFiles_cons, hfiles] at h
    cases hbefore : sourceFiles c t before with
    | error e =>
      rw [hbefore] at h
      cases h
    | ok files =>
      rw [hbefore] at h
      cases h

theorem stands_of_sourceFiles (h : sourceFiles c t paths = .ok found) :
    ∀ p ∈ paths, Answered t p ∧ Stands t p :=
  fun _ hp => exists_candidates_iff.mp (exists_candidates_of_mem h hp)

theorem sourceFiles_cons_eq_error_iff {e : SourceError} :
    sourceFiles c t (p :: paths) = .error e ↔ candidates c t p = .error e ∨
      (∃ files, candidates c t p = .ok files) ∧ sourceFiles c t paths = .error e := by
  rw [sourceFiles_cons]
  cases hp : candidates c t p with
  | error e' =>
    show Except.error e' = Except.error e ↔ _
    simp
  | ok files =>
    cases hrest : sourceFiles c t paths with
    | error e' =>
      show Except.error e' = Except.error e ↔ _
      simp
    | ok more =>
      show Except.ok _ = Except.error e ↔ _
      simp

/-- The first path of a row that is bad, where the paths before it are good, is the head of the row
or the first one of its tail. -/
theorem exists_first_cons_iff {good bad : Pathname → Prop} :
    (∃ before q after, p :: paths = before ++ q :: after ∧ (∀ r ∈ before, good r) ∧ bad q) ↔
      bad p ∨ good p ∧
        ∃ before q after, paths = before ++ q :: after ∧ (∀ r ∈ before, good r) ∧ bad q := by
  constructor
  · rintro ⟨before, q, after, hsplit, hgood, hbad⟩
    cases before with
    | nil =>
      obtain ⟨rfl, -⟩ := List.cons.inj hsplit
      exact .inl hbad
    | cons r before =>
      obtain ⟨rfl, hrest⟩ := List.cons.inj hsplit
      obtain ⟨hp, hgood⟩ := List.forall_mem_cons.mp hgood
      exact .inr ⟨hp, before, q, after, hrest, hgood, hbad⟩
  · rintro (hbad | ⟨hp, before, q, after, rfl, hgood, hbad⟩)
    · exact ⟨[], p, paths, rfl, List.forall_mem_nil _, hbad⟩
    · exact ⟨p :: before, q, after, rfl, List.forall_mem_cons.mpr ⟨hp, hgood⟩, hbad⟩

/-- **How discovery fails**: with the error of the first path that leads to one. -/
theorem sourceFiles_eq_error_iff {e : SourceError} : sourceFiles c t paths = .error e ↔
    ∃ before p after, paths = before ++ p :: after ∧
      (∀ q ∈ before, Answered t q ∧ Stands t q) ∧ Fails t p e := by
  induction paths with
  | nil =>
    have hempty : sourceFiles c t [] = .ok [] := rfl
    simp [hempty]
  | cons p paths ih =>
    rw [sourceFiles_cons_eq_error_iff, candidates_eq_error_iff, exists_candidates_iff, ih,
      exists_first_cons_iff]

/-- Paths of files and folders that the system says enough of stand for a list of files. -/
theorem exists_sourceFiles (c : Config) (hanswered : ∀ p ∈ paths, Answered t p)
    (hstands : ∀ p ∈ paths, Stands t p) : ∃ listed, sourceFiles c t paths = .ok listed := by
  cases h : sourceFiles c t paths with
  | ok listed => exact ⟨listed, rfl⟩
  | error e =>
    obtain ⟨before, p, after, rfl, -, hp⟩ := sourceFiles_eq_error_iff.mp h
    have hmem : p ∈ before ++ p :: after := List.mem_append_right _ List.mem_cons_self
    rcases hp with ⟨-, hnot⟩ | ⟨-, -, hnot⟩
    · exact absurd (hanswered p hmem) hnot
    · exact absurd (hstands p hmem) hnot

/-- An error is reported only if some path stands for nothing. -/
theorem exists_not_stands_of_isReported {e : SourceError} (h : sourceFiles c t paths = .error e)
    (he : e.isReported = true) : ∃ p ∈ paths, ¬ Stands t p := by
  obtain ⟨before, p, after, rfl, -, ⟨rfl, -⟩ | ⟨-, -, hp⟩⟩ := sourceFiles_eq_error_iff.mp h
  · cases he
  · exact ⟨p, List.mem_append_right _ List.mem_cons_self, hp⟩

/-- If the system says enough, an error is reported exactly if some path stands for nothing. -/
theorem exists_isReported_iff (c : Config) (hanswered : ∀ p ∈ paths, Answered t p) :
    (∃ e, sourceFiles c t paths = .error e ∧ e.isReported = true) ↔
      ∃ p ∈ paths, ¬ Stands t p := by
  constructor
  · rintro ⟨e, h, he⟩
    exact exists_not_stands_of_isReported h he
  · rintro ⟨p, hp, hnot⟩
    cases h : sourceFiles c t paths with
    | error e =>
      obtain ⟨before, q, after, rfl, -, ⟨-, hq⟩ | ⟨rfl, -⟩⟩ := sourceFiles_eq_error_iff.mp h
      · exact absurd (hanswered q (List.mem_append_right _ List.mem_cons_self)) hq
      · exact ⟨_, rfl, rfl⟩
    | ok found =>
      exact absurd (stands_of_sourceFiles h p hp).2 hnot

theorem mem_sourceFiles_iff (h : sourceFiles c t paths = .ok found) :
    q ∈ found ↔ ∃ p ∈ paths, ∃ files, candidates c t p = .ok files ∧ q ∈ files := by
  induction paths generalizing found with
  | nil =>
    cases h
    simp
  | cons p paths ih =>
    rw [sourceFiles_cons] at h
    cases hfiles : candidates c t p with
    | error e =>
      rw [hfiles] at h
      cases h
    | ok files =>
      cases hmore : sourceFiles c t paths with
      | error e =>
        rw [hfiles, hmore] at h
        cases h
      | ok more =>
        rw [hfiles, hmore] at h
        cases h
        rw [mem_addNew, mem_addNew, ih hmore, List.exists_mem_cons_iff]
        simp [hfiles]

end Row

/-! ### A row that ends with a folder -/

section Folder

open FileTree

variable {c : Config} {t : FileTree} {folder : Pathname}

/-- Paths from one root that do not repeat are in strict order of their names. -/
theorem pairwise_parts_lt {files : List Pathname} (hnodup : files.Nodup)
    (h : files.Pairwise fun p q => p.root = q.root ∧ ¬ q.parts < p.parts) :
    files.Pairwise fun p q => p.parts < q.parts := by
  refine (h.and hnodup).imp fun {p q} hpq => ?_
  obtain ⟨⟨hroot, hle⟩, hne⟩ := hpq
  by_contra hlt
  have hparts : p.parts = q.parts := List.le_antisymm hle hlt
  cases p
  cases q
  exact hne (congrArg₂ Pathname.mk hroot hparts)

theorem candidates_of_folder (c : Config) (ht : t.WellFormed)
    (hfolder : t.isDirectory folder = true) (hbelow : answersBelow t folder = true) :
    candidates c t folder = .ok (filesBelow c t folder) := by
  unfold candidates
  simp [answers_of_isDirectory hfolder, ht.isFile_eq_false hfolder, hfolder, hbelow]

theorem answersBelow_of_candidates {files : List Pathname} (ht : t.WellFormed)
    (hfolder : t.isDirectory folder = true) (h : candidates c t folder = .ok files) :
    answersBelow t folder = true := by
  have hanswered := (exists_candidates_iff.mp ⟨files, h⟩).1
  exact hanswered.below (ht.isFile_eq_false hfolder) hfolder

/-- The new files of a folder come last, in the order of their names. -/
theorem exists_new_of_folder {xs found : List Pathname} (ht : t.WellFormed)
    (hfolder : t.isDirectory folder = true)
    (h : sourceFiles c t (xs ++ [folder]) = .ok found) :
    ∃ before new, sourceFiles c t xs = .ok before ∧ found = before ++ new ∧
      new.Pairwise fun p q => p.parts < q.parts := by
  rw [sourceFiles_append, sourceFiles_cons] at h
  cases hxs : sourceFiles c t xs with
  | error e =>
    rw [hxs] at h
    cases h
  | ok before =>
    cases hfiles : candidates c t folder with
    | error e =>
      rw [hxs, hfiles] at h
      cases h
    | ok files =>
      have hbelow := answersBelow_of_candidates ht hfolder hfiles
      rw [candidates_of_folder c ht hfolder hbelow] at hfiles
      obtain rfl := Except.ok.inj hfiles
      rw [hxs, candidates_of_folder c ht hfolder hbelow] at h
      cases h
      refine ⟨before, _, rfl, rfl, pairwise_parts_lt ?_ ?_⟩
      · exact (nodup_addNew List.nodup_nil _).filter _
      · exact (pairwise_filesBelow c t folder).sublist
          (List.filter_sublist.trans (addNew_nil_sublist _))

end Folder

/-! ### Discovery -/

/-- The paths stand for the file at `p`: it is given itself, or it lies below a given folder, with a
known suffix and no excluded name on the way from there. -/
def Listed (c : Config) (t : FileTree) (paths : List Pathname) (p : Pathname) : Prop :=
  (p ∈ paths ∧ t.isFile p = true) ∨
    ∃ folder ∈ paths, t.isDirectory folder = true ∧
      ∃ name, t.LiesBelow folder name p ∧ p.suffix ∈ c.extensions ∧
        ∀ part ∈ name, part ∉ c.excluded

theorem listed_iff_of_sourceFiles {c : Config} {t : FileTree} {paths found : List Pathname}
    (ht : t.WellFormed) (h : sourceFiles c t paths = .ok found) {p : Pathname} :
    p ∈ found ↔ Listed c t paths p := by
  rw [mem_sourceFiles_iff h]
  constructor
  · rintro ⟨q, hq, files, hfiles, hp⟩
    by_cases hfile : t.isFile q = true
    · have hone : candidates c t q = .ok [q] := by
        simp [candidates, FileTree.answers_of_isFile hfile, hfile]
      rw [hone] at hfiles
      cases hfiles
      rw [List.mem_singleton.mp hp]
      exact .inl ⟨hq, hfile⟩
    · have hfolder := (exists_candidates_iff.mp ⟨files, hfiles⟩).2.resolve_left hfile
      have hbelow := answersBelow_of_candidates ht hfolder hfiles
      rw [candidates_of_folder c ht hfolder hbelow] at hfiles
      cases hfiles
      exact .inr ⟨q, hq, hfolder, (mem_filesBelow_iff ht hfolder hbelow).mp hp⟩
  · rintro (⟨hp, hfile⟩ | ⟨folder, hmem, hfolder, hname⟩)
    · refine ⟨p, hp, [p], ?_, List.mem_singleton_self p⟩
      simp [candidates, FileTree.answers_of_isFile hfile, hfile]
    · -- discovery has come past the folder, so the system says what is below it
      obtain ⟨files, hfiles⟩ := exists_candidates_of_mem h hmem
      have hbelow := answersBelow_of_candidates ht hfolder hfiles
      exact ⟨folder, hmem, _, candidates_of_folder c ht hfolder hbelow,
        (mem_filesBelow_iff ht hfolder hbelow).mpr hname⟩

/-- **Discovery is exact.**  It fails with the error of the first path that leads to one: either the
path, or something below it that listing comes upon, is not accessible, or there is neither a file
nor a folder.  Only in the latter case is the error reported; so it is, if the system says what is
at all paths, exactly if one of them leads neither to a file nor to a folder.

Otherwise no file is listed twice, and those are listed that are given themselves or lie below a
given folder with a known suffix and no excluded name on the way from that folder.  The new files of
a folder come in the order of the names on their paths, and the files of two rows of paths are those
of the first row, and those of the second that are not among them. -/
theorem source_files_exact (c : Config) (t : FileTree) (ht : t.WellFormed) :
    (∀ paths e, sourceFiles c t paths = .error e ↔
      ∃ before p after, paths = before ++ p :: after ∧
        (∀ q ∈ before, Answered t q ∧ Stands t q) ∧ Fails t p e) ∧
    (∀ paths, (∀ p ∈ paths, Answered t p) →
      ((∃ e, sourceFiles c t paths = .error e ∧ e.isReported = true) ↔
        ∃ p ∈ paths, t.isFile p = false ∧ t.isDirectory p = false)) ∧
    (∀ paths found, sourceFiles c t paths = .ok found →
      found.Nodup ∧ ∀ p, p ∈ found ↔ Listed c t paths p) ∧
    (∀ xs folder found, t.isDirectory folder = true →
      sourceFiles c t (xs ++ [folder]) = .ok found →
      ∃ before new, sourceFiles c t xs = .ok before ∧ found = before ++ new ∧
        new.Pairwise fun p q => p.parts < q.parts) ∧
    ∀ xs ys, sourceFiles c t (xs ++ ys) = do
      let before ← sourceFiles c t xs
      let after ← sourceFiles c t ys
      return before ++ after.filter fun p => p ∉ before := by
  refine ⟨fun paths e => sourceFiles_eq_error_iff, fun paths hanswered => ?_,
    fun paths found h => ⟨nodup_sourceFiles h, fun p => listed_iff_of_sourceFiles ht h⟩,
    fun xs folder found hfolder h => exists_new_of_folder ht hfolder h,
    fun xs ys => sourceFiles_append c t xs ys⟩
  rw [exists_isReported_iff c hanswered]
  refine exists_congr fun p => and_congr_right fun _ => ?_
  unfold Stands
  rw [not_or, Bool.not_eq_true, Bool.not_eq_true]

/-- The files of a folder, from its names in order. -/
theorem candidates_of_sorted {c : Config} {t : FileTree} (ht : t.WellFormed) (folder : Pathname)
    (names : List (List String)) (hfolder : t.isDirectory folder = true)
    (hbelow : answersBelow t folder = true)
    (hperm : names.Perm ((t.below folder).filter c.accepts))
    (hsorted : names.Pairwise fun a b => ¬ b < a) :
    candidates c t folder = .ok (names.map fun name => folder.join ⟨"", name⟩) := by
  have hnames : ((t.below folder).filter c.accepts).mergeSort (fun a b => !decide (b < a)) =
      names :=
    List.Perm.eq_of_pairwise (fun a b _ _ hab hba => List.le_antisymm hab hba)
      (pairwise_mergeSort_names _) hsorted ((List.mergeSort_perm _ _).trans hperm.symm)
  rw [candidates_of_folder c ht hfolder hbelow]
  unfold filesBelow
  rw [hnames]
  rfl

/-- Two folders whose names start alike, an excluded folder, and a file of another kind, all below
the working directory; and a folder that may not be listed. -/
def mixedTree : FileTree where
  files := [(["w", "s", "a-b", "x.js"], []), (["w", "s", "a", "x.js"], []),
    (["w", "s", "dist", "y.js"], []), (["w", "s", "notes.txt"], []), (["w", "s", "z", "x.js"], [])]
  here := ["w"]
  denies r name := r = .list && name = ["w", "s", "z"]

/-- The excluded folder from the root, the folder around it, a file of another kind, and the folder
again. -/
def mixedPaths : List Pathname :=
  [⟨"/", ["w", "s", "dist"]⟩, ⟨"", ["s"]⟩, ⟨"", ["s", "notes.txt"]⟩, ⟨"", ["s"]⟩]

/-- The file of the excluded folder is listed since that folder is given; `a` comes before `a-b`. -/
theorem source_files_exact_mixed :
    let found : List Pathname := [⟨"/", ["w", "s", "dist", "y.js"]⟩, ⟨"", ["s", "a", "x.js"]⟩,
      ⟨"", ["s", "a-b", "x.js"]⟩, ⟨"", ["s", "notes.txt"]⟩]
    mixedTree.WellFormed ∧ sourceFiles {} mixedTree mixedPaths = .ok found ∧
      found.Nodup ∧ ∀ p, p ∈ found ↔ Listed {} mixedTree mixedPaths p := by
  intro found
  have ht : mixedTree.WellFormed := by decide +kernel
  have hdist := candidates_of_sorted (c := {}) ht ⟨"/", ["w", "s", "dist"]⟩ [["y.js"]]
    (by decide +kernel) (by decide +kernel) (by decide +kernel) (by decide +kernel)
  have hs := candidates_of_sorted (c := {}) ht ⟨"", ["s"]⟩ [["a", "x.js"], ["a-b", "x.js"]]
    (by decide +kernel) (by decide +kernel) (by decide +kernel) (by decide +kernel)
  have hfound : sourceFiles {} mixedTree mixedPaths = .ok found := by
    unfold mixedPaths
    simp only [sourceFiles_cons, hdist, hs]
    decide +kernel
  exact ⟨ht, hfound, (source_files_exact {} mixedTree ht).2.2.1 mixedPaths found hfound⟩

/-- A path of one name that is too long. -/
def overlongPath : Pathname := ⟨"", [String.ofList (List.replicate 300 'a')]⟩

/-- There is neither a file nor a folder at a path whose name is too long, but the error is none
that is reported. -/
theorem overlong_name_escapes :
    ({} : FileTree).WellFormed ∧ ({} : FileTree).isFile overlongPath = false ∧
      ({} : FileTree).isDirectory overlongPath = false ∧
      sourceFiles {} {} [overlongPath] = .error (.inaccessible overlongPath) ∧
      (SourceError.inaccessible overlongPath).isReported = false := by
  decide +kernel

end HookLint.Files
