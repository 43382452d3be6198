import HookLint.Cli.Run
import HookLint.Proofs.Options.LoadFailure

/-!
# Proofs.Options.RoundTrip — options that are written and read again

Options are written with one member for each setting (`record`), under names in camel or in snake
case.  Reading a record gives back what was written: a switch is written as a truth value, and a
spec as a value of its own shape, so that no earlier reading of the union takes it
(`specAt_toValue`).  For the pattern this needs that its source writes it, which holds of all
options that were read (`WellSourced`).

A flag of the command line replaces one value of the record of the loaded options, and the record is
read again.  So the field of the flag is new and the others are as they were, and only the pattern
of a flag can be refused (`resolveOptions_of_load`).
-/

namespace HookLint.Options

open Stability Files

/-! ### Records -/

/-- The two ways of naming settings. -/
inductive Naming : (Setting → String) → Prop
  | camel : Naming Setting.camel
  | snake : Naming Setting.snake

/-- An object with one member for each setting. -/
def record (name : Setting → String) (f : Setting → Value) : Assoc String Value :=
  Setting.all.map fun s => (name s, f s)

section Record

variable {name : Setting → String} (f : Setting → Value) (s : Setting)

theorem members_eq_record (o : Options) (name : Setting → String) :
    o.members name = record name o.get := rfl

theorem get?_record (h : Naming name) : Assoc.get? (record name f) (name s) = some (f s) := by
  cases h <;> cases s <;> simp [record, Setting.all, Assoc.get?, Setting.camel, Setting.snake]

theorem givenName?_record (h : Naming name) : givenName? (record name f) s = some (name s) := by
  have hgiven : Assoc.has (record name f) (name s) = true := by
    rw [Assoc.has, get?_record f s h, Option.isSome_some]
  cases h with
  | camel => rw [givenName?, if_pos hgiven]
  | snake =>
    -- a name in camel case would come first, but none is in the record
    rw [givenName?, if_pos hgiven]
    cases s <;> simp [record, Setting.all, Assoc.has, Assoc.get?, Setting.camel, Setting.snake]

theorem readSetting_record {α : Type} (h : Naming name) (default : α)
    (read : List Segment → Value → Checked α) :
    readSetting (record name f) s default read = read [.name (name s)] (f s) := by
  simp only [readSetting, givenName?_record f s h, get?_record f s h, Option.elim_some]

theorem unknownMembers_record (h : Naming name) : unknownMembers (record name f) = [] := by
  have hgiven : Setting.all.filterMap (givenName? (record name f)) = Setting.all.map name := by
    rw [← List.filterMap_eq_map]
    exact List.filterMap_congr fun s _ => givenName?_record f s h
  simp only [unknownMembers, hgiven, List.map_eq_nil_iff, List.filter_eq_nil_iff]
  intro m hm
  obtain ⟨s, hs, rfl⟩ := List.mem_map.mp hm
  simpa using ⟨s, hs, rfl⟩

/-- A new value for one member leaves a record. -/
theorem put_record (h : Naming name) (v : Value) :
    Assoc.put (record name f) (name s) v = record name (Function.update f s v) := by
  cases h <;> cases s <;>
    simp [record, Setting.all, Assoc.put, Setting.camel, Setting.snake, Function.update]

theorem foldl_put_record (overrides : List (Setting × Value)) :
    overrides.foldl (fun m e => Assoc.put m e.1.snake e.2) (record Setting.snake f) =
      record Setting.snake (overrides.foldl (fun f e => Function.update f e.1 e.2) f) := by
  induction overrides generalizing f with
  | nil => rfl
  | cons e overrides ih =>
    rw [List.foldl_cons, put_record f e.1 .snake, ih, List.foldl_cons]

end Record

/-! ### What was written is read -/

section Written

variable {α : Type} (location : List Segment)

theorem all_map_ok (as : List α) : Checked.all (as.map .ok) = .ok as := by
  induction as with
  | nil => rfl
  | cons a as ih => rw [List.map_cons, Checked.all, ih, Checked.both]

theorem switchAt_bool (b : Bool) : switchAt location (.bool b) = .ok b := rfl

theorem switchesAt_bools (bs : List Bool) :
    switchesAt location (.array (bs.map .bool)) = .ok bs := by
  have hread : (bs.map Value.bool).mapIdx (fun i v => switchAt (location ++ [.index i]) v) =
      bs.map .ok := by
    refine List.ext_getElem (by simp) fun i _ _ => ?_
    simp [switchAt_bool]
  rw [switchesAt, hread, all_map_ok]

theorem tableAt_bools (m : Assoc String Bool) :
    tableAt location (.object (m.map fun e => (e.1, .bool e.2))) = .ok m := by
  rw [tableAt, List.map_map]
  exact all_map_ok m

/-- A spec is read in its own shape. -/
theorem specAt_toValue (spec : Spec) : specAt location spec.toValue = .ok spec := by
  unfold specAt
  cases spec with
  | whole b => rfl
  | positions bs =>
    simp only [Spec.toValue, switchesAt_bools]
    rfl
  | keys m =>
    simp only [Spec.toValue, tableAt_bools]
    rfl

theorem specsAt_toValue (m : Assoc String Spec) :
    specsAt location (.object (m.map fun h => (h.1, h.2.toValue))) = .ok m := by
  simp only [specsAt, List.map_map, Function.comp_def, specAt_toValue]
  exact all_map_ok m

/-- A record whose switches and specs are as they are written is read, unless its pattern is
refused. -/
theorem ofMembers_record (readers : Readers) {name : Setting → String} (h : Naming name)
    {f : Setting → Value} {check report : Bool} {specs : Assoc String Spec}
    (hcheck : f .checkMemoized = .bool check)
    (hspecs : f .staticHooks = .object (specs.map fun h => (h.1, h.2.toValue)))
    (hreport : f .reportStatic = .bool report) :
    ofMembers readers (record name f) =
      match patternAt readers [.name (name .additionalHooks)] (f .additionalHooks) with
      | .ok p => .ok ⟨check, specs, p, report⟩
      | .error ps => .error (sorted ps) := by
  simp only [ofMembers, readSetting_record f _ h, unknownMembers_record f h, hcheck, hspecs,
    hreport, switchAt_bool, specsAt_toValue]
  cases patternAt readers [.name (name .additionalHooks)] (f .additionalHooks) with
  | ok p => rfl
  | error ps => simp [Checked.both]

end Written

/-! ### Patterns and their sources -/

/-- The pattern, if there is one, is the one that its source writes. -/
def WellSourced (readers : Readers) (o : Options) : Prop :=
  ∀ p, o.additionalHooks = some p → readers.pattern p.source = .ok p.search

section Sources

variable {readers : Readers} {location : List Segment} {v : Value} {o : Options}

theorem pattern_source_of_patternAt {p : Pattern}
    (h : patternAt readers location v = .ok (some p)) :
    readers.pattern p.source = .ok p.search := by
  cases v with
  | string s =>
    simp only [patternAt] at h
    split at h
    · next search hsearch =>
      obtain rfl := Option.some.inj (Except.ok.inj h)
      exact hsearch
    · cases h
    · cases h
  | null | bool _ | int _ | decimal _ _ | mark _ | array _ | object _ => cases h

theorem patternAt_get (ho : WellSourced readers o) :
    patternAt readers location (o.get .additionalHooks) = .ok o.additionalHooks := by
  cases hp : o.additionalHooks with
  | none => simp [get, hp, patternAt]
  | some p => simp [get, hp, patternAt, ho p hp]

theorem both_eq_ok {α β γ : Type} {f : α → β → γ} {a : Checked α} {b : Checked β} {c : γ}
    (h : Checked.both f a b = .ok c) : ∃ x y, a = .ok x ∧ b = .ok y ∧ f x y = c := by
  cases a <;> cases b <;> cases h
  exact ⟨_, _, rfl, rfl, rfl⟩

/-- The pattern of options that were read is the one that was read for it. -/
theorem readSetting_additionalHooks {members : Assoc String Value}
    (h : ofMembers readers members = .ok o) :
    readSetting members .additionalHooks none (patternAt readers) = .ok o.additionalHooks := by
  unfold ofMembers at h
  simp only at h
  split at h
  · next o' hknown _ =>
    obtain rfl := Except.ok.inj h
    obtain ⟨f, report, hf, -, rfl⟩ := both_eq_ok hknown
    obtain ⟨g, p, hg, hp, rfl⟩ := both_eq_ok hf
    obtain ⟨check, specs, -, -, rfl⟩ := both_eq_ok hg
    exact hp
  · cases h

theorem wellSourced_of_ofMembers {members : Assoc String Value}
    (h : ofMembers readers members = .ok o) : WellSourced readers o := by
  intro p hp
  have hread := readSetting_additionalHooks h
  rw [hp] at hread
  unfold readSetting at hread
  split at hread
  · next name _ =>
    cases hv : Assoc.get? members name with
    | none =>
      rw [hv] at hread
      cases hread
    | some v =>
      rw [hv] at hread
      exact pattern_source_of_patternAt hread
  · cases hread

end Sources

/-! ### All options that are loaded are well sourced -/

/-- The options, if there are any, are well sourced. -/
def Sourced (readers : Readers) (r : Loaded Options) : Prop :=
  ∀ o, r = .ok o → WellSourced readers o

section Sourced

variable {readers : Readers}

theorem Sourced.error (e : LoadError) : Sourced readers (.error e) := fun _ h => nomatch h

theorem Sourced.default : Sourced readers (.ok {}) := by
  rintro _ ⟨⟩ p hp
  cases hp

theorem Sourced.bind {α : Type} {r : Loaded α} {f : α → Loaded Options}
    (h : ∀ a, Sourced readers (f a)) : Sourced readers (r >>= f) := by
  cases r with
  | error e => exact .error e
  | ok a => exact h a

theorem sourced_parse (readers : Readers) (v : Value) (name : String) :
    Sourced readers (parse v name readers) := by
  intro o h
  cases v with
  | object members =>
    unfold parse ofValue ofChecked at h
    simp only at h
    split at h
    · next o' hmembers =>
      obtain rfl := Except.ok.inj h
      exact wellSourced_of_ofMembers hmembers
    · split at h <;> cases h
  | null | bool _ | int _ | decimal _ _ | string _ | mark _ | array _ => cases h

theorem sourced_readAs {t : FileTree} {file : Pathname} {absent : Loaded Options}
    (habsent : Sourced readers absent) (format : Format) :
    Sourced readers (readAs readers t file absent format) := by
  cases format with
  | json => exact .bind fun v => sourced_parse readers v _
  | toml =>
    refine .bind fun table => ?_
    cases table with
    | some table => exact sourced_parse readers _ _
    | none => exact habsent

theorem sourced_load (readers : Readers) (t : FileTree) (config : Config)
    (path folder : Option Pathname) : Sourced readers (load t config path folder readers) := by
  cases path with
  | some path =>
    show Sourced readers (loadFrom t path readers)
    rw [loadFrom_eq]
    refine .bind fun there => ?_
    split
    · exact sourced_readAs (.error _) _
    · exact .error _
  | none =>
    show Sourced readers (search t config (folder.getD t.workingDirectory) readers)
    rw [search_eq]
    refine .bind fun there => ?_
    split
    · exact sourced_readAs .default _
    · refine .bind fun there => ?_
      split
      · exact sourced_readAs .default _
      · exact .default

end Sourced

/-! ### Flags over options -/

/-- Options with a pattern from the command line, if it is one. -/
def withPattern (readers : Readers) (o : Options) (s : String) : Loaded Options :=
  match readers.pattern s with
  | .ok search => .ok { o with additionalHooks := some ⟨s, search⟩ }
  | .error .malformed =>
    .error (.invalid "command line" [⟨[.name Setting.additionalHooks.snake], .badPattern⟩])
  | .error .excessive => .error (.excessivePattern "command line")

section Flags

variable {readers : Readers} {o : Options}

/-- Options are read from their record, whichever names it uses. -/
theorem ofMembers_members (ho : WellSourced readers o) {name : Setting → String}
    (h : Naming name) : ofMembers readers (o.members name) = .ok o := by
  rw [members_eq_record, ofMembers_record readers h rfl rfl rfl, patternAt_get ho]

theorem parse_members (ho : WellSourced readers o) {name : Setting → String} (h : Naming name)
    (source : String) : parse (.object (o.members name)) source readers = .ok o := by
  rw [parse, ofValue, ofMembers_members ho h, ofChecked]

/-- Overriding is reading the record of the options with the new values in it. -/
theorem withOverrides_eq (readers : Readers) (o : Options)
    (overrides : List (Setting × Value)) :
    o.withOverrides readers overrides =
      ofMembers readers (record Setting.snake
        (overrides.foldl (fun f e => Function.update f e.1 e.2) o.get)) := by
  rw [withOverrides, members_eq_record, foldl_put_record]

/-- A switch from the command line. -/
theorem override_switch (ho : WellSourced readers o) (b : Bool) :
    o.override [(.checkMemoized, .bool b)] readers = .ok { o with checkMemoized := b } := by
  have hread : o.withOverrides readers [(.checkMemoized, .bool b)] =
      .ok { o with checkMemoized := b } := by
    rw [withOverrides_eq, List.foldl_cons, List.foldl_nil,
      ofMembers_record readers .snake rfl rfl rfl]
    have hkept : Function.update o.get .checkMemoized (.bool b) .additionalHooks =
        o.get .additionalHooks := Function.update_of_ne (by decide) _ _
    simp only [hkept, patternAt_get ho]
  simp [override, hread, ofChecked]

/-- A pattern from the command line, with or without a switch. -/
theorem override_pattern (readers : Readers) (o : Options) (check : Option Bool) (s : String) :
    o.override ((check.map fun b => (.checkMemoized, .bool b)).toList ++
        [(.additionalHooks, .string s)]) readers =
      withPattern readers { o with checkMemoized := check.getD o.checkMemoized } s := by
  have hread : o.withOverrides readers ((check.map fun b => (.checkMemoized, .bool b)).toList ++
        [(.additionalHooks, .string s)]) =
      match patternAt readers [.name Setting.additionalHooks.snake] (.string s) with
      | .ok p => .ok { o with checkMemoized := check.getD o.checkMemoized, additionalHooks := p }
      | .error ps => .error (sorted ps) := by
    rw [withOverrides_eq]
    cases check <;> exact ofMembers_record readers .snake rfl rfl rfl
  have hsome : ((check.map fun b => (Setting.checkMemoized, Value.bool b)).toList ++
      [(Setting.additionalHooks, Value.string s)]).isEmpty = false := by simp
  rw [override, hsome, if_neg Bool.false_ne_true, hread]
  cases hp : readers.pattern s with
  | ok search => simp [patternAt, withPattern, hp, ofChecked]
  | error fault => cases fault <;> simp [patternAt, withPattern, hp, ofChecked, sorted]

open Cli in
/-- The flags of the check command over loaded options. -/
theorem resolveOptions_of_load {t : FileTree} {config : Config} {a : CheckArguments}
    (h : load t config (a.config.map .ofString) none readers = .ok o) :
    resolveOptions t config a readers =
      a.additionalHooks.elim (.ok { o with checkMemoized := a.checkMemoized.getD o.checkMemoized })
        (withPattern readers { o with checkMemoized := a.checkMemoized.getD o.checkMemoized }) := by
  have ho : WellSourced readers o := sourced_load readers t config _ _ o h
  have hresolve : resolveOptions t config a readers =
      o.override ((a.checkMemoized.map fun b => (.checkMemoized, .bool b)).toList ++
        (a.additionalHooks.map fun s => (.additionalHooks, .string s)).toList) readers := by
    unfold resolveOptions
    rw [h]
    rfl
  rw [hresolve]
  cases a.additionalHooks with
  | some s => exact override_pattern readers o a.checkMemoized s
  | none =>
    cases a.checkMemoized with
    | some b => exact override_switch ho b
    | none => rfl

theorem withPattern_reported_iff {s : String} :
    (∃ e, withPattern readers o s = .error e ∧ e.isReported = true) ↔
      readers.pattern s = .error .malformed := by
  unfold withPattern
  cases readers.pattern s with
  | ok p => simp
  | error fault => cases fault <;> simp [LoadError.isReported]

theorem escapes_withPattern_iff {s : String} :
    Escapes (withPattern readers o s) ↔ readers.pattern s = .error .excessive := by
  unfold withPattern
  cases readers.pattern s with
  | ok p => simp
  | error fault => cases fault <;> simp [LoadError.isReported]

end Flags

open Cli in
/-- **Options survive being written, and flags change only what they name.**  Options that were
read are read again from what is shown of them, and from their members under names in snake case.
If no options can be loaded, the check command has the same error.  Otherwise it has the loaded
options with the fields of the given flags replaced, provided that a given pattern is one.  A given
text that is no regular expression is reported, and nothing else is; one that asks for too many
repetitions, and nothing else, ends the program. -/
theorem options_survive_and_flags_replace (readers : Readers) (t : FileTree) (config : Config)
    (a : CheckArguments) :
    (∀ v name o, parse v name readers = .ok o → ∀ source,
      parse o.toValue source readers = .ok o ∧
      parse (.object (o.members Setting.snake)) source readers = .ok o) ∧
    (∀ e, load t config (a.config.map .ofString) none readers = .error e →
      resolveOptions t config a readers = .error e) ∧
    ∀ o, load t config (a.config.map .ofString) none readers = .ok o →
      (a.additionalHooks = none → resolveOptions t config a readers =
        .ok { o with checkMemoized := a.checkMemoized.getD o.checkMemoized }) ∧
      (∀ s search, a.additionalHooks = some s → readers.pattern s = .ok search →
        resolveOptions t config a readers =
          .ok { o with
            checkMemoized := a.checkMemoized.getD o.checkMemoized
            additionalHooks := some ⟨s, search⟩ }) ∧
      ((∃ e, resolveOptions t config a readers = .error e ∧ e.isReported = true) ↔
        ∃ s, a.additionalHooks = some s ∧ readers.pattern s = .error .malformed) ∧
      ((∃ e, resolveOptions t config a readers = .error e ∧ e.isReported = false) ↔
        ∃ s, a.additionalHooks = some s ∧ readers.pattern s = .error .excessive) := by
  refine ⟨fun v name o h source => ?_, fun e h => ?_, fun o h => ?_⟩
  · have ho := sourced_parse readers v name o h
    exact ⟨parse_members ho .camel source, parse_members ho .snake source⟩
  · unfold resolveOptions
    rw [h]
    rfl
  · rw [resolveOptions_of_load h]
    cases a.additionalHooks with
    | none => simp
    | some s =>
      refine ⟨(fun hnone => nomatch hnone), fun s' search hs hsearch => ?_, ?_, ?_⟩
      · obtain rfl := Option.some.inj hs
        simp only [Option.elim_some, withPattern, hsearch]
      · rw [Option.elim_some, withPattern_reported_iff]
        simp
      · rw [Option.elim_some]
        refine escapes_withPattern_iff.trans ?_
        simp

theorem exists_ok_of_toOption {ε α β : Type} {r : Except ε α} {f : α → β} {b : β}
    (h : r.toOption.map f = some b) : ∃ a, r = .ok a ∧ f a = b := by
  cases r with
  | error e => cases h
  | ok a => exact ⟨a, rfl, Option.some.inj h⟩

/-- A check of one file with the options of the file `o` and both flags. -/
def checkWithFlags (pattern : String) : Cli.CheckArguments :=
  ⟨["a.js"], some "o", false, .text, some true, some pattern, false⟩

/-- Options with a list of a number and a word are shown with truth values; a pattern and a switch
from the command line leave the list as it is. -/
theorem options_survive_and_flags_replace_list :
    let v : Value := .object [("static_hooks", .object [("useX", .array [.int 0, .string "yes"])]),
      ("additionalHooks", .string "^(?<!_)useMy")]
    let t := folderWith "o" (encode ("\x7b\"static_hooks\": \x7b\"useX\": [0, \"yes\"]\x7d, " ++
      "\"additionalHooks\": \"(?i:^useMy)\"\x7d"))
    (∃ o, parse v "v" = .ok o ∧ o.staticHooks = [("useX", .positions [false, true])] ∧
      parse o.toValue "w" = .ok o ∧ parse (.object (o.members Setting.snake)) "w" = .ok o) ∧
    ∃ o search, load t {} (some ⟨"", ["o"]⟩) none = .ok o ∧
      ({} : Readers).pattern "My$" = .ok search ∧
      o.staticHooks = [("useX", .positions [false, true])] ∧
      Cli.resolveOptions t {} (checkWithFlags "My$") =
        .ok { o with checkMemoized := true, additionalHooks := some ⟨"My$", search⟩ } := by
  intro v t
  have hpath : (checkWithFlags "My$").config.map Pathname.ofString = some ⟨"", ["o"]⟩ := by cbv
  obtain ⟨hwritten, -, hflags⟩ :=
    options_survive_and_flags_replace {} t {} (checkWithFlags "My$")
  obtain ⟨o, ho, hspecs⟩ : ∃ o, parse v "v" = .ok o ∧
      o.staticHooks = [("useX", .positions [false, true])] :=
    exists_ok_of_toOption (by decide +kernel)
  obtain ⟨o', ho', hspecs'⟩ : ∃ o, load t {} (some ⟨"", ["o"]⟩) none = .ok o ∧
      o.staticHooks = [("useX", .positions [false, true])] :=
    exists_ok_of_toOption (by decide +kernel)
  obtain ⟨search, hsearch, -⟩ : ∃ search, ({} : Readers).pattern "My$" = .ok search ∧
      search "useMy" = true :=
    exists_ok_of_toOption (by decide +kernel)
  refine ⟨⟨o, ho, hspecs, hwritten v "v" o ho "w"⟩, o', search, ho', hsearch, hspecs', ?_⟩
  rw [← hpath] at ho'
  exact (hflags o' ho').2.1 "My$" search rfl hsearch

/-- A pattern that repeats too often is none, but its refusal is not reported. -/
theorem excessive_flag_escapes :
    let s := "a\x7b4294967295\x7d"
    let t := folderWith "o" (encode "\x7b\x7d")
    (load t {} ((checkWithFlags s).config.map .ofString) none).isOk = true ∧
    ¬ ((∃ e, Cli.resolveOptions t {} (checkWithFlags s) = .error e ∧ e.isReported = true) ↔
      ¬ ∃ search, ({} : Readers).pattern s = .ok search) := by
  intro s t
  have hpath : (checkWithFlags s).config.map Pathname.ofString = some ⟨"", ["o"]⟩ := by cbv
  have hescapes : Escapes (Cli.resolveOptions t {} (checkWithFlags s)) := by
    unfold Cli.resolveOptions
    rw [hpath]
    decide +kernel
  have hnone : ¬ ∃ search, ({} : Readers).pattern s = .ok search := by
    have hok : (({} : Readers).pattern s).isOk = false := by decide +kernel
    rintro ⟨search, hsearch⟩
    rw [hsearch] at hok
    cases hok
  refine ⟨?_, fun hiff => ?_⟩
  · rw [hpath]
    decide +kernel
  · obtain ⟨e, he, hreported⟩ := hiff.mpr hnone
    rw [he, escapes_error_iff, hreported] at hescapes
    cases hescapes

end HookLint.Options
