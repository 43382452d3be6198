import HookLint.Files.Discovery
import HookLint.Proofs.Data.Assoc
import Mathlib.Data.List.Basic

/-!
# Proofs.Files.Below — the files below a folder

A folder stands for files below it.  The tree of files finds them by their plain names; here they
are found by paths alone: `t.LiesBelow folder name p` says that `p` extends the path of the folder
by a name without points, leads to a file, and that all folders on the way may be listed.  In a
well-formed tree that says what is at each path below the folder both are the same
(`WellFormed.mem_below_iff_liesBelow`), since a name without points leads straight down
(`eq_append_of_walk`), and the way to what is there is one of folders (`walk_of_mem_names`).
-/

namespace HookLint.Files

/-! ### Paths and plain names -/

namespace FileTree

variable {t : FileTree} {p folder : Pathname} {here there name full : List String}

/-- No file is named by double points, and no file is a folder. -/
structure WellFormed (t : FileTree) : Prop where
  plain : ∀ name ∈ Assoc.keys t.files, ".." ∉ name
  apart : ∀ name ∈ Assoc.keys t.files, t.isFolder name = false

instance (t : FileTree) : Decidable t.WellFormed :=
  decidable_of_iff ((∀ name ∈ Assoc.keys t.files, ".." ∉ name) ∧
    ∀ name ∈ Assoc.keys t.files, t.isFolder name = false)
    ⟨fun h => ⟨h.1, h.2⟩, fun h => ⟨h.plain, h.apart⟩⟩

theorem locate?_eq_some_iff : t.locate? p = some name ↔ t.lookup p = .found name := by
  unfold locate?
  cases t.lookup p <;> simp

theorem answers_of_locate? (h : t.locate? p = some name) : t.answers p = true := by
  unfold answers
  rw [locate?_eq_some_iff.mp h]
  rfl

/-- From where some steps lead the others lead on. -/
theorem walk_append (h : t.walk here name = .found there) (more : List String) :
    t.walk here (name ++ more) = t.walk there more := by
  induction name generalizing here with
  | nil =>
    rw [walk] at h
    rw [Lookup.found.inj h, List.nil_append]
  | cons step name ih =>
    rw [walk] at h
    rw [List.cons_append, walk]
    split at h
    · cases h
    · next hfolder =>
      rw [if_neg hfolder]
      split at h
      · cases h
      · next hstep =>
        rw [if_neg hstep]
        exact ih h

/-- A name without points leads straight down. -/
theorem eq_append_of_walk (h : t.walk here name = .found full) (hname : ".." ∉ name) :
    full = here ++ name := by
  induction name generalizing here with
  | nil =>
    rw [walk] at h
    rw [← Lookup.found.inj h, List.append_nil]
  | cons step name ih =>
    obtain ⟨hstep, hrest⟩ := not_or.mp (List.mem_cons.not.mp hname)
    rw [walk] at h
    split at h
    · cases h
    · split at h
      · cases h
      · rw [next, if_neg (Ne.symm hstep)] at h
        rw [ih h hrest, List.append_assoc, List.singleton_append]

theorem mem_beginnings_iff : here ∈ beginnings name ↔ here <+: name := by
  unfold beginnings
  simp only [List.mem_map, List.mem_range, Nat.lt_succ_iff]
  constructor
  · rintro ⟨n, -, rfl⟩
    exact List.take_prefix n name
  · intro h
    exact ⟨here.length, h.length_le, (List.prefix_iff_eq_take.mp h).symm⟩

theorem mem_names_iff : name ∈ t.names ↔
    (∃ file ∈ Assoc.keys t.files, name <+: file) ∨ name <+: t.here ∨
      ∃ folder ∈ t.folders, name <+: folder := by
  unfold names
  simp only [List.mem_flatMap, mem_beginnings_iff, List.mem_append, List.mem_cons, or_and_right,
    exists_or, exists_eq_left]

theorem mem_names_of_mem_keys (h : name ∈ Assoc.keys t.files) : name ∈ t.names :=
  mem_names_iff.mpr (.inl ⟨name, h, List.prefix_rfl⟩)

theorem mem_names_of_begins (h : name ∈ t.names) (hhere : here <+: name) : here ∈ t.names := by
  rw [mem_names_iff] at h ⊢
  rcases h with ⟨file, hfile, h⟩ | h | ⟨folder, hmem, h⟩
  · exact .inl ⟨file, hfile, hhere.trans h⟩
  · exact .inr (.inl (hhere.trans h))
  · exact .inr (.inr ⟨folder, hmem, hhere.trans h⟩)

/-- The way to what is there leads through folders. -/
theorem isFolder_of_mem_names (h : here ++ name ∈ t.names) (hname : name ≠ []) :
    t.isFolder here = true := by
  have hbegins : here <+: here ++ name := List.prefix_append _ _
  unfold isFolder
  simp only [Bool.or_eq_true, List.any_eq_true, Bool.and_eq_true, decide_eq_true_eq,
    List.isPrefixOf_iff_prefix]
  rcases mem_names_iff.mp h with ⟨file, hfile, h⟩ | h | ⟨folder, hmem, h⟩
  · obtain ⟨⟨key, contents⟩, hmem, rfl⟩ := List.mem_map.mp hfile
    have hlength : here.length < (here ++ name).length := by
      rw [List.length_append]
      exact Nat.lt_add_of_pos_right (List.length_pos_iff.mpr hname)
    exact .inr ⟨_, hmem, hbegins.trans h, Nat.lt_of_lt_of_le hlength h.length_le⟩
  · exact .inl (.inl (.inr (hbegins.trans h)))
  · exact .inl (.inr ⟨folder, hmem, hbegins.trans h⟩)

/-- A name without points leads to what is there, unless a step is refused. -/
theorem walk_of_mem_names (h : here ++ name ∈ t.names) (hname : ".." ∉ name) :
    t.walk here name = .found (here ++ name) ∨ t.walk here name = .refused := by
  induction name generalizing here with
  | nil => exact .inl (by rw [walk, List.append_nil])
  | cons step name ih =>
    obtain ⟨hstep, hrest⟩ := not_or.mp (List.mem_cons.not.mp hname)
    have hfolder : t.isFolder here = true := isFolder_of_mem_names h (List.cons_ne_nil _ _)
    have hnext : next here step ++ name = here ++ step :: name := by
      rw [next, if_neg (Ne.symm hstep), List.append_assoc, List.singleton_append]
    rw [walk, hfolder, if_neg (by simp)]
    split
    · exact .inr rfl
    · rw [← hnext]
      exact ih (hnext ▸ h) hrest

theorem isFile_iff :
    t.isFile p = true ↔ ∃ name, t.locate? p = some name ∧ name ∈ Assoc.keys t.files := by
  unfold isFile contents?
  cases t.locate? p with
  | none => simp
  | some name => simp [Assoc.mem_keys_iff]

theorem isDirectory_iff :
    t.isDirectory p = true ↔ ∃ name, t.locate? p = some name ∧ t.isFolder name = true :=
  Option.any_eq_true _ _

theorem grants_iff {r : Request} :
    t.grants r p = true ↔ ∃ name, t.locate? p = some name ∧ t.denies r name = false := by
  unfold grants
  simp [Option.any_eq_true]

/-- The system says what is at every path where there is something. -/
theorem answers_of_isFile (h : t.isFile p = true) : t.answers p = true := by
  obtain ⟨name, hname, -⟩ := isFile_iff.mp h
  exact answers_of_locate? hname

theorem answers_of_isDirectory (h : t.isDirectory p = true) : t.answers p = true := by
  obtain ⟨name, hname, -⟩ := isDirectory_iff.mp h
  exact answers_of_locate? hname

theorem join_nil (folder : Pathname) : folder.join ⟨"", []⟩ = folder := by
  show Pathname.mk folder.root (folder.parts ++ []) = folder
  rw [List.append_nil]

/-- From the folder at a path a relative path leads on, if the system says where to. -/
theorem lookup_join (h : t.locate? folder = some here)
    (hanswers : t.answers (folder.join ⟨"", name⟩) = true) :
    t.lookup (folder.join ⟨"", name⟩) = t.walk here name := by
  have hfolder := locate?_eq_some_iff.mp h
  unfold lookup at hfolder
  unfold answers lookup at hanswers
  unfold lookup
  split at hanswers
  · simp at hanswers
  · next hshort =>
    rw [if_neg hshort]
    split at hfolder
    · cases hfolder
    · exact walk_append hfolder name

theorem eq_append_of_locate? (h : t.locate? folder = some here)
    (hfull : t.locate? (folder.join ⟨"", name⟩) = some full) (hname : ".." ∉ name) :
    full = here ++ name := by
  refine eq_append_of_walk (t := t) ?_ hname
  rw [← lookup_join h (answers_of_locate? hfull)]
  exact locate?_eq_some_iff.mp hfull

/-! ### Listing folders -/

theorem reaches_iff : t.reaches here name = true ↔
    ∀ n < name.length, t.denies .list (here ++ name.take n) = false := by
  induction name generalizing here with
  | nil => simp [reaches]
  | cons step name ih =>
    rw [reaches, Bool.and_eq_true, Bool.not_eq_true', ih]
    constructor
    · rintro ⟨hhere, hrest⟩ n hn
      cases n with
      | zero => rwa [List.take_zero, List.append_nil]
      | succ n =>
        rw [List.take_succ_cons, ← List.singleton_append, ← List.append_assoc]
        exact hrest n (Nat.lt_of_succ_lt_succ hn)
    · intro h
      refine ⟨?_, fun n hn => ?_⟩
      · have hhere := h 0 (Nat.zero_lt_succ _)
        rwa [List.take_zero, List.append_nil] at hhere
      · have hnext := h (n + 1) (Nat.succ_lt_succ hn)
        rwa [List.take_succ_cons, ← List.singleton_append, ← List.append_assoc] at hnext

/-- On the way to a name that listing comes upon it comes upon all others. -/
theorem reaches_take (h : t.reaches here name = true) (n : Nat) :
    t.reaches here (name.take n) = true := by
  rw [reaches_iff] at h ⊢
  intro m hm
  rw [List.length_take] at hm
  rw [List.take_take, Nat.min_eq_left (by omega)]
  exact h m (by omega)

theorem below?_eq_some_iff : below? here full = some name ↔ name ≠ [] ∧ full = here ++ name := by
  unfold below?
  constructor
  · intro h
    split at h
    · next hlonger =>
      obtain ⟨hbegins, hlength⟩ := Bool.and_eq_true_iff.mp hlonger
      obtain ⟨rest, rfl⟩ := List.isPrefixOf_iff_prefix.mp hbegins
      rw [List.drop_left] at h
      cases h
      refine ⟨?_, rfl⟩
      rintro rfl
      simp at hlength
    · cases h
  · rintro ⟨hname, rfl⟩
    have hlength := List.length_pos_iff.mpr hname
    simp [hlength]

theorem mem_reached_iff {names : List (List String)} : name ∈ t.reached here names ↔
    name ≠ [] ∧ here ++ name ∈ names ∧ t.reaches here name = true := by
  unfold reached
  simp only [List.mem_filter, List.mem_filterMap, below?_eq_some_iff]
  constructor
  · rintro ⟨⟨full, hfull, hname, rfl⟩, hreaches⟩
    exact ⟨hname, hfull, hreaches⟩
  · rintro ⟨hname, hfull, hreaches⟩
    exact ⟨⟨_, hfull, hname, rfl⟩, hreaches⟩

theorem mem_below_iff (h : t.locate? folder = some here) : name ∈ t.below folder ↔
    name ≠ [] ∧ here ++ name ∈ Assoc.keys t.files ∧ t.reaches here name = true := by
  unfold below
  rw [h]
  exact mem_reached_iff

/-- What listing comes upon below a folder. -/
theorem mem_entries_iff (h : t.locate? folder = some here) : name ∈ t.entries folder ↔
    name ≠ [] ∧ here ++ name ∈ t.names ∧ t.reaches here name = true := by
  unfold entries
  rw [h]
  exact mem_reached_iff

/-- A name that listing comes upon leads to what is there, if the system says so of all of them. -/
theorem locate?_of_reaches (hhere : t.locate? folder = some here)
    (hanswers : answersBelow t folder = true) (hnames : here ++ name ∈ t.names)
    (hreaches : t.reaches here name = true) (hplain : ".." ∉ name) :
    t.locate? (folder.join ⟨"", name⟩) = some (here ++ name) := by
  by_cases hname : name = []
  · rw [hname, join_nil, List.append_nil]
    exact hhere
  · have hentry := (mem_entries_iff hhere).mpr ⟨hname, hnames, hreaches⟩
    have hanswer := List.all_eq_true.mp hanswers name hentry
    have hlookup := lookup_join hhere hanswer
    rw [locate?_eq_some_iff, hlookup]
    refine (walk_of_mem_names hnames hplain).resolve_right fun hrefused => ?_
    rw [answers, hlookup, hrefused] at hanswer
    simp at hanswer

/-- The file at a path lies below a folder, has the given name from there, and all folders on the
way may be listed. -/
structure LiesBelow (t : FileTree) (folder : Pathname) (name : List String) (p : Pathname) :
    Prop where
  path : p = folder.join ⟨"", name⟩
  ne_nil : name ≠ []
  plain : ".." ∉ name
  isFile : t.isFile p = true
  listed : ∀ n < name.length, t.grants .list (folder.join ⟨"", name.take n⟩) = true

/-- The names of files below a folder are those by which paths lead from it to files. -/
theorem WellFormed.mem_below_iff_liesBelow (ht : t.WellFormed)
    (hfolder : t.isDirectory folder = true) (hanswers : answersBelow t folder = true) :
    name ∈ t.below folder ↔ t.LiesBelow folder name (folder.join ⟨"", name⟩) := by
  obtain ⟨here, hhere, -⟩ := isDirectory_iff.mp hfolder
  rw [mem_below_iff hhere]
  constructor
  · rintro ⟨hname, hkey, hreaches⟩
    have hplain : ".." ∉ name := fun h => ht.plain _ hkey (List.mem_append_right _ h)
    have hnames := mem_names_of_mem_keys hkey
    refine ⟨rfl, hname, hplain, isFile_iff.mpr ⟨_, ?_, hkey⟩, fun n hn => grants_iff.mpr ⟨_, ?_,
      reaches_iff.mp hreaches n hn⟩⟩
    · exact locate?_of_reaches hhere hanswers hnames hreaches hplain
    · -- a folder on the way is come upon before the file
      have hway : here ++ name.take n <+: here ++ name :=
        (List.prefix_append_right_inj here).mpr (List.take_prefix n name)
      exact locate?_of_reaches hhere hanswers (mem_names_of_begins hnames hway)
        (reaches_take hreaches n) fun h => hplain (List.mem_of_mem_take h)
  · rintro ⟨-, hname, hplain, hfile, hlisted⟩
    obtain ⟨full, hfull, hkey⟩ := isFile_iff.mp hfile
    rw [eq_append_of_locate? hhere hfull hplain] at hkey
    refine ⟨hname, hkey, reaches_iff.mpr fun n hn => ?_⟩
    obtain ⟨folder', hfolder', hgranted⟩ := grants_iff.mp (hlisted n hn)
    rwa [eq_append_of_locate? hhere hfolder' fun h => hplain (List.mem_of_mem_take h)] at hgranted

/-- Nothing is both a file and a folder. -/
theorem WellFormed.isFile_eq_false (ht : t.WellFormed) (hfolder : t.isDirectory p = true) :
    t.isFile p = false := by
  refine Bool.eq_false_iff.mpr fun hfile => ?_
  obtain ⟨name, hname, hkey⟩ := isFile_iff.mp hfile
  obtain ⟨name', hname', hisFolder⟩ := isDirectory_iff.mp hfolder
  obtain rfl : name = name' := Option.some.inj (hname.symm.trans hname')
  rw [ht.apart name hkey] at hisFolder
  cases hisFolder

end FileTree

/-! ### What a folder stands for -/

section Folder

open FileTree

variable {c : Config} {t : FileTree} {p folder : Pathname} {name : List String}

theorem accepts_iff (hname : name ≠ []) : c.accepts name = true ↔
    (folder.join ⟨"", name⟩).suffix ∈ c.extensions ∧ ∀ part ∈ name, part ∉ c.excluded := by
  have hlast : (folder.parts ++ name).getLastD "" = name.getLastD "" := by
    rw [List.getLastD_eq_getLast?, List.getLastD_eq_getLast?,
      List.getLast?_append_of_ne_nil _ hname]
  have hsuffix : (folder.join ⟨"", name⟩).suffix = Pathname.suffixOf (name.getLastD "") := by
    show Pathname.suffixOf ((folder.parts ++ name).getLastD "") = _
    rw [hlast]
  unfold Config.accepts
  rw [hsuffix]
  simp

/-- A folder stands for the files below it that have a known suffix and no excluded name on the
way. -/
theorem mem_filesBelow_iff (ht : t.WellFormed) (hfolder : t.isDirectory folder = true)
    (hanswers : answersBelow t folder = true) :
    p ∈ filesBelow c t folder ↔ ∃ name, t.LiesBelow folder name p ∧ p.suffix ∈ c.extensions ∧
      ∀ part ∈ name, part ∉ c.excluded := by
  unfold filesBelow
  simp only [List.mem_map, List.mem_mergeSort, List.mem_filter]
  refine exists_congr fun name => ?_
  constructor
  · rintro ⟨⟨hbelow, haccepts⟩, rfl⟩
    have hlies := (ht.mem_below_iff_liesBelow hfolder hanswers).mp hbelow
    exact ⟨hlies, (accepts_iff hlies.ne_nil).mp haccepts⟩
  · rintro ⟨hlies, haccepts⟩
    obtain rfl := hlies.path
    exact ⟨⟨(ht.mem_below_iff_liesBelow hfolder hanswers).mpr hlies,
      (accepts_iff hlies.ne_nil).mpr haccepts⟩, rfl⟩

/-- No name comes before an earlier one. -/
theorem pairwise_mergeSort_names (names : List (List String)) :
    (names.mergeSort fun a b => !decide (b < a)).Pairwise fun a b => ¬ b < a := by
  have hle : ∀ a b : List String, (!decide (b < a)) = true ↔ ¬ b < a := by
    intro a b
    rw [Bool.not_eq_true', decide_eq_false_iff_not]
  refine (List.pairwise_mergeSort ?_ ?_ names).imp fun {a b} hab => (hle a b).mp hab
  · intro a b d hab hbd
    exact (hle a d).mpr (List.le_trans ((hle a b).mp hab) ((hle b d).mp hbd))
  · intro a b
    rw [Bool.or_eq_true, hle, hle]
    exact List.le_total a b

/-- The files of a folder come in the order of the names on their paths. -/
theorem pairwise_filesBelow (c : Config) (t : FileTree) (folder : Pathname) :
    (filesBelow c t folder).Pairwise fun p q => p.root = q.root ∧ ¬ q.parts < p.parts := by
  refine List.pairwise_map.mpr ((pairwise_mergeSort_names _).imp fun {a b} hab => ⟨rfl, ?_⟩)
  exact List.append_left_le hab

end Folder
end HookLint.Files
