import HookLint.Cli.Run
import HookLint.Proofs.Options.Faults
import Mathlib

/-!
# Proofs.Options.LoadFailure — which bad options end the program

Loading fails with an error that is reported, or with one that ends the program (`Escapes`).  It
looks for a file at one or two paths (`lookedAt`), and consults at most one (`consulted?`).  Nothing
guards against a path that the system says nothing of, and `Unguarded readers format contents` lists
what nothing guards against in the file: the contents are no UTF-8 text; or the text asks for more
than its reader can do; or it is a document whose `tool` is no table; or it writes options whose
pattern for further hooks asks for too many repetitions.

Both formats go through the same stages: the text of the file, its value, the options in the value.
What escapes from one stage escapes from the whole (`escapes_bind_iff`), so the proof follows the
stages.  Nothing is assumed of the readers.
-/

namespace HookLint.Options

open Files

/-! ### What is consulted, and what is unguarded -/

/-- How options are written in a file. -/
inductive Format where
  | json | toml
deriving DecidableEq

/-- The options file of a folder, which is the working directory unless it is given. -/
def optionsFileOf (t : FileTree) (config : Config) (folder : Option Pathname) : Pathname :=
  (folder.getD t.workingDirectory).join (.ofString config.optionsFile)

/-- The project file of a folder. -/
def projectFileOf (t : FileTree) (folder : Option Pathname) : Pathname :=
  (folder.getD t.workingDirectory).join (.ofString projectFile)

/-- The paths at which a file is looked for: the given one, or else that of the options file of the
folder, and that of the project file if there is no options file. -/
def lookedAt (t : FileTree) (config : Config) (path folder : Option Pathname) : List Pathname :=
  match path with
  | some path => [path]
  | none =>
    optionsFileOf t config folder ::
      if t.isFile (optionsFileOf t config folder) then [] else [projectFileOf t folder]

/-- The file that is read for options, if there is one: the given one, or else the options file of
the folder, or else the project file. -/
def consulted? (t : FileTree) (config : Config) (path folder : Option Pathname) :
    Option (Format × Pathname) :=
  match path with
  | some path =>
    if t.isFile path then some (if path.suffix = ".toml" then .toml else .json, path) else none
  | none =>
    if t.isFile (optionsFileOf t config folder) then some (.json, optionsFileOf t config folder)
    else if t.isFile (projectFileOf t folder) then some (.toml, projectFileOf t folder)
    else none

/-- A text writes options with the given members. -/
inductive Writes (readers : Readers) : Format → String → Assoc String Value → Prop
  | json {text : String} {members : Assoc String Value}
      (h : readers.json text = .ok (.object members)) : Writes readers .json text members
  | toml {text : String} {document : Toml.Table} {tools members : Assoc String Value}
      (hdoc : readers.toml text = .ok document)
      (htool : Assoc.get? document "tool" = some (.object tools))
      (htable : Assoc.get? tools tableName = some (.object members)) :
      Writes readers .toml text members

/-- The texts that nothing guards against. -/
inductive UnguardedText (readers : Readers) : Format → String → Prop
  | json {text : String} (h : readers.json text = .error .excessive) :
      UnguardedText readers .json text
  | toml {text : String} (h : readers.toml text = .error .excessive) :
      UnguardedText readers .toml text
  | tool {text : String} {document : Toml.Table} {v : Value}
      (hdoc : readers.toml text = .ok document) (htool : Assoc.get? document "tool" = some v)
      (hno : ∀ tools, v ≠ .object tools) : UnguardedText readers .toml text
  | pattern {format : Format} {text : String} {members : Assoc String Value}
      (hw : Writes readers format text members) (hp : HasExcessivePattern readers members) :
      UnguardedText readers format text

/-- The contents of a file that nothing guards against: they are no text, or such a text. -/
def Unguarded (readers : Readers) (format : Format) (contents : Bytes) : Prop :=
  decode? contents = none ∨ ∃ text, decode? contents = some text ∧ UnguardedText readers format text

/-- What is looked at for options is unguarded: a path that the system says nothing of, or the
contents of the file that is consulted. -/
inductive MeetsUnguarded (readers : Readers) (t : FileTree) (config : Config)
    (path folder : Option Pathname) : Prop
  | look {p : Pathname} (hp : p ∈ lookedAt t config path folder) (h : t.answers p = false) :
      MeetsUnguarded readers t config path folder
  | file {format : Format} {file : Pathname} {contents : Bytes}
      (hc : consulted? t config path folder = some (format, file))
      (hread : t.read? file = some contents) (h : Unguarded readers format contents) :
      MeetsUnguarded readers t config path folder

/-- Loading fails with an error that is not reported. -/
def Escapes {α : Type} (r : Loaded α) : Prop := ∃ e, r = .error e ∧ e.isReported = false

section Stages

variable {α β : Type} {readers : Readers} {t : FileTree} {path : Pathname}

@[simp] theorem not_escapes_ok (a : α) : ¬ Escapes (.ok a) := fun ⟨_, h, _⟩ => nomatch h

@[simp] theorem escapes_error_iff {e : LoadError} :
    Escapes (.error e : Loaded α) ↔ e.isReported = false := by
  constructor
  · rintro ⟨e', h, he⟩
    obtain rfl := Except.error.inj h
    exact he
  · exact fun h => ⟨e, rfl, h⟩

instance (r : Loaded α) : Decidable (Escapes r) :=
  match r with
  | .ok a => isFalse (not_escapes_ok a)
  | .error _ => decidable_of_iff _ escapes_error_iff.symm

theorem escapes_bind_iff {r : Loaded α} {f : α → Loaded β} :
    Escapes (r >>= f) ↔ Escapes r ∨ ∃ a, r = .ok a ∧ Escapes (f a) := by
  cases r with
  | error e =>
    show Escapes (.error e) ↔ _
    simp
  | ok a =>
    show Escapes (f a) ↔ _
    simp

/-! ### The stages of reading -/

theorem escapes_ofChecked_iff {name : String} {c : Checked Options} :
    Escapes (ofChecked name c) ↔ ∃ p ∈ c.problems, p.kind = .excessivePattern := by
  cases c with
  | ok o => simp [ofChecked]
  | error ps =>
    unfold ofChecked
    by_cases h : (ps.any fun p => p.kind = .excessivePattern) = true
    · simp only [h, if_true, escapes_error_iff, LoadError.isReported, problems_error, true_iff]
      simpa using h
    · simp only [h, Bool.false_eq_true, if_false, escapes_error_iff, LoadError.isReported,
        problems_error]
      simpa using h

theorem escapes_parse_iff {members : Assoc String Value} {name : String} :
    Escapes (parse (.object members) name readers) ↔ HasExcessivePattern readers members := by
  unfold parse
  rw [escapes_ofChecked_iff]
  exact mem_excessive_ofMembers_iff readers members

/-- The stage of the text.  A file that may not be read is reported. -/
theorem escapes_readText_iff {f : String → Loaded α} : Escapes (readText t path >>= f) ↔
    ∃ contents, t.read? path = some contents ∧
      (decode? contents = none ∨ ∃ text, decode? contents = some text ∧ Escapes (f text)) := by
  rw [escapes_bind_iff]
  unfold readText
  cases t.read? path with
  | none => simp [LoadError.isReported]
  | some contents =>
    dsimp only
    cases hdecode : decode? contents with
    | none => simp [LoadError.isReported, hdecode]
    | some text => simp [hdecode]

/-- The stage of the value. -/
theorem escapes_ofParsed_iff {r : Text.Parsed α} {f : α → Loaded β} :
    Escapes (ofParsed path r >>= f) ↔
      r = .error .excessive ∨ ∃ a, r = .ok a ∧ Escapes (f a) := by
  rw [escapes_bind_iff]
  cases r with
  | ok a => simp [ofParsed]
  | error refusal => cases refusal <;> simp [ofParsed, LoadError.isReported]

/-- The stages of a JSON file. -/
theorem escapes_readObject_iff {name : String} :
    Escapes (readObject t path readers >>= fun v => parse v name readers) ↔
      ∃ contents, t.read? path = some contents ∧ Unguarded readers .json contents := by
  unfold readObject Unguarded
  rw [bind_assoc, escapes_readText_iff]
  refine exists_congr fun contents => and_congr_right fun _ =>
    or_congr_right (exists_congr fun text => and_congr_right fun _ => ?_)
  rw [bind_assoc, escapes_ofParsed_iff]
  constructor
  · rintro (h | ⟨v, hread, hesc⟩)
    · exact .json h
    · split at hesc
      · exact .pattern (.json hread) (escapes_parse_iff.mp hesc)
      · cases escapes_error_iff.mp hesc
  · rintro (h | - | - | ⟨⟨hread⟩, hp⟩)
    · exact .inl h
    · exact .inr ⟨_, hread, escapes_parse_iff.mpr hp⟩

/-- The options in the table of a document, or what stands in for a missing table. -/
def ofTable (readers : Readers) (name : String) (absent : Loaded Options) :
    Option Value → Loaded Options
  | some table => parse table name readers
  | none => absent

theorem escapes_findTable_iff {document : Toml.Table} {name : String} {absent : Loaded Options}
    (habsent : ¬ Escapes absent) :
    Escapes (findTable path document >>= ofTable readers name absent) ↔
      (∃ v, Assoc.get? document "tool" = some v ∧ ∀ tools, v ≠ .object tools) ∨
      ∃ tools members, Assoc.get? document "tool" = some (.object tools) ∧
        Assoc.get? tools tableName = some (.object members) ∧
        HasExcessivePattern readers members := by
  constructor
  · intro hesc
    unfold findTable at hesc
    split at hesc
    · exact absurd hesc habsent
    · next tools htool =>
      split at hesc
      · exact absurd hesc habsent
      · next members htable => exact .inr ⟨tools, members, htool, htable, escapes_parse_iff.mp hesc⟩
      · cases escapes_error_iff.mp hesc
    · next v hno htool => exact .inl ⟨v, htool, hno⟩
  · unfold findTable
    rintro (⟨v, htool, hno⟩ | ⟨tools, members, htool, htable, hp⟩)
    · rw [htool]
      cases v with
      | object tools => exact absurd rfl (hno tools)
      | null | bool _ | int _ | decimal _ _ | mark _ | string _ | array _ => exact ⟨_, rfl, rfl⟩
    · simp only [htool, htable]
      exact escapes_parse_iff.mpr hp

/-- The stages of a TOML file. -/
theorem escapes_readTable_iff {name : String} {absent : Loaded Options}
    (habsent : ¬ Escapes absent) :
    Escapes (readTable t path readers >>= ofTable readers name absent) ↔
      ∃ contents, t.read? path = some contents ∧ Unguarded readers .toml contents := by
  unfold readTable Unguarded
  rw [bind_assoc, escapes_readText_iff]
  refine exists_congr fun contents => and_congr_right fun _ =>
    or_congr_right (exists_congr fun text => and_congr_right fun _ => ?_)
  rw [bind_assoc, escapes_ofParsed_iff]
  constructor
  · rintro (h | ⟨document, hread, hesc⟩)
    · exact .toml h
    · rcases (escapes_findTable_iff habsent).mp hesc with
        ⟨v, htool, hno⟩ | ⟨tools, members, htool, htable, hp⟩
      · exact .tool hread htool hno
      · exact .pattern (.toml hread htool htable) hp
  · rintro (- | h | ⟨hread, htool, hno⟩ | ⟨- | ⟨hread, htool, htable⟩, hp⟩)
    · exact .inl h
    · exact .inr ⟨_, hread, (escapes_findTable_iff habsent).mpr (.inl ⟨_, htool, hno⟩)⟩
    · exact .inr ⟨_, hread, (escapes_findTable_iff habsent).mpr (.inr ⟨_, _, htool, htable, hp⟩)⟩

end Stages

/-! ### Loading -/

section Load

variable {readers : Readers} {t : FileTree} {config : Config} {path folder : Option Pathname}

/-- The options of a file that is there, in its format. -/
def readAs (readers : Readers) (t : FileTree) (file : Pathname) (absent : Loaded Options) :
    Format → Loaded Options
  | .json => readObject t file readers >>= fun v => parse v file.text readers
  | .toml => readTable t file readers >>= ofTable readers file.text absent

theorem escapes_readAs_iff {file : Pathname} {absent : Loaded Options} {format : Format}
    (habsent : ¬ Escapes absent) : Escapes (readAs readers t file absent format) ↔
      ∃ contents, t.read? file = some contents ∧ Unguarded readers format contents := by
  cases format with
  | json => exact escapes_readObject_iff
  | toml => exact escapes_readTable_iff habsent

/-- The stage of a look.  If the system answers, the file that is there is read, and otherwise
loading goes on. -/
theorem escapes_look_iff {file : Pathname} {format : Format} {absent rest : Loaded Options}
    (habsent : ¬ Escapes absent) :
    Escapes (hasFile t file >>= fun there =>
      if there then readAs readers t file absent format else rest) ↔
    t.answers file = false ∨
    (t.isFile file = true ∧
      ∃ contents, t.read? file = some contents ∧ Unguarded readers format contents) ∨
    (t.isFile file = false ∧ Escapes rest) := by
  rw [escapes_bind_iff]
  unfold hasFile
  cases t.answers file with
  | false => simp [LoadError.isReported]
  | true =>
    cases t.isFile file with
    | true => simp [← escapes_readAs_iff habsent]
    | false => simp

theorem meetsUnguarded_iff : MeetsUnguarded readers t config path folder ↔
    (∃ p ∈ lookedAt t config path folder, t.answers p = false) ∨
    ∃ format file, consulted? t config path folder = some (format, file) ∧
      ∃ contents, t.read? file = some contents ∧ Unguarded readers format contents := by
  constructor
  · rintro (⟨hp, h⟩ | ⟨hc, hread, h⟩)
    · exact .inl ⟨_, hp, h⟩
    · exact .inr ⟨_, _, hc, _, hread, h⟩
  · rintro (⟨p, hp, h⟩ | ⟨format, file, hc, contents, hread, h⟩)
    · exact .look hp h
    · exact .file hc hread h

theorem loadFrom_eq (t : FileTree) (path : Pathname) (readers : Readers) :
    loadFrom t path readers = hasFile t path >>= fun there =>
      if there then readAs readers t path (.error (.noTable path))
        (if path.suffix = ".toml" then .toml else .json)
      else .error (.notFound path) := by
  unfold loadFrom
  congr 1
  funext there
  cases there with
  | false => rfl
  | true => by_cases hs : path.suffix = ".toml" <;> simp only [hs, if_true, if_false] <;> rfl

theorem search_eq (t : FileTree) (config : Config) (folder : Option Pathname)
    (readers : Readers) : search t config (folder.getD t.workingDirectory) readers =
      hasFile t (optionsFileOf t config folder) >>= fun there =>
        if there then readAs readers t (optionsFileOf t config folder) (.ok {}) .json
        else hasFile t (projectFileOf t folder) >>= fun there =>
          if there then readAs readers t (projectFileOf t folder) (.ok {}) .toml
          else .ok {} := rfl

theorem escapes_loadFrom_iff {path : Pathname} : Escapes (loadFrom t path readers) ↔
    MeetsUnguarded readers t config (some path) folder := by
  have habsent : ¬ Escapes (.error (.noTable path) : Loaded Options) := by
    simp [LoadError.isReported]
  rw [loadFrom_eq, escapes_look_iff habsent, meetsUnguarded_iff]
  cases hfile : t.isFile path <;> simp [lookedAt, consulted?, hfile, LoadError.isReported]

theorem escapes_search_iff : Escapes (search t config (folder.getD t.workingDirectory) readers) ↔
    MeetsUnguarded readers t config none folder := by
  rw [search_eq, escapes_look_iff (not_escapes_ok _), escapes_look_iff (not_escapes_ok _),
    meetsUnguarded_iff]
  cases hoptions : t.isFile (optionsFileOf t config folder) with
  | true => simp [lookedAt, consulted?, hoptions]
  | false =>
    -- the project file is looked for as well
    cases hproject : t.isFile (projectFileOf t folder) <;>
      simp [lookedAt, consulted?, hoptions, hproject, or_assoc]

/-- Loading ends the program exactly if what it meets is unguarded. -/
theorem escapes_load_iff (readers : Readers) (t : FileTree) (config : Config)
    (path folder : Option Pathname) :
    Escapes (load t config path folder readers) ↔
      MeetsUnguarded readers t config path folder := by
  cases path with
  | some path => exact escapes_loadFrom_iff
  | none => exact escapes_search_iff

end Load

/-! ### Commands -/

open Cli in
/-- **Bad options are reported, unless what is met is unguarded.**  Loading fails with an error that
is not reported exactly if the system says nothing of a path that is looked at, or the file that is
consulted is no text, or asks for more than its reader can do, or is a document whose `tool` is no
table, or has a pattern with too many repetitions.  If options cannot be loaded, the check and the
config command end without an outcome in these cases.  In all others both end with exit code 2 and a
line that words the error, and leave the files as they were. -/
theorem load_failure_reported_unless_unguarded (parse : Lint.Parser) (t : FileTree)
    (config : Config) (setup : Setup) :
    (∀ path folder, (∃ e, load t config path folder setup.readers = .error e ∧
      e.isReported = false) ↔ MeetsUnguarded setup.readers t config path folder) ∧
    ∀ (a : CheckArguments) (e : LoadError),
      load t config (a.config.map .ofString) none setup.readers = .error e →
      (MeetsUnguarded setup.readers t config (a.config.map .ofString) none →
        runCheck parse config t a setup = .error { cause := .options e, files := t } ∧
        runConfig config t a.config setup = .error { cause := .options e, files := t }) ∧
      (¬ MeetsUnguarded setup.readers t config (a.config.map .ofString) none →
        runCheck parse config t a setup =
          .ok { exitCode := 2, error := some (setup.console.errorText "Error:" e.message),
                files := t } ∧
        runConfig config t a.config setup =
          .ok { exitCode := 2, error := some (setup.console.errorText "Config error:" e.message),
                files := t }) := by
  refine ⟨fun path folder => escapes_load_iff setup.readers t config path folder,
    fun a e hload => ?_⟩
  have hresolve : resolveOptions t config a setup.readers = .error e := by
    unfold resolveOptions
    rw [hload]
    rfl
  have hcheck : runCheck parse config t a setup =
      optionsOutcome setup.console "Error:" t e := by
    unfold runCheck
    rw [hresolve]
  have hconfig : runConfig config t a.config setup =
      optionsOutcome setup.console "Config error:" t e := by
    unfold runConfig
    rw [hload]
  have hiff := escapes_load_iff setup.readers t config (a.config.map .ofString) none
  rw [hload, escapes_error_iff] at hiff
  rw [hcheck, hconfig, ← hiff]
  unfold optionsOutcome
  refine ⟨fun h => ?_, fun h => ?_⟩
  · rw [h]
    exact ⟨rfl, rfl⟩
  · rw [Bool.not_eq_false] at h
    rw [h]
    exact ⟨rfl, rfl⟩

/-- A working directory with one file. -/
def folderWith (name : String) (contents : Bytes) : FileTree where
  files := [(["w", name], contents)]
  here := ["w"]

/-- A check of nothing, with options from the file `o`. -/
def checkWithO : Cli.CheckArguments := ⟨[], some "o", false, .text, none, none, false⟩

/-- A file that holds a single bracket is reported by both commands. -/
theorem load_failure_reported_bracket :
    let t := folderWith "o" (encode "[")
    let parse : Lint.Parser := fun _ => default
    ∃ e, load t {} (checkWithO.config.map .ofString) none = .error e ∧
      Cli.runCheck parse {} t checkWithO =
        .ok { exitCode := 2, error := some (Cli.Console.standard.errorText "Error:" e.message),
              files := t } ∧
      Cli.runConfig {} t checkWithO.config =
        .ok { exitCode := 2,
              error := some (Cli.Console.standard.errorText "Config error:" e.message),
              files := t } := by
  intro t parse
  have hpath : checkWithO.config.map Pathname.ofString = some ⟨"", ["o"]⟩ := by cbv
  have hfails : (load t {} (some ⟨"", ["o"]⟩) none).isOk = false := by decide +kernel
  have hno : ¬ Escapes (load t {} (some ⟨"", ["o"]⟩) none) := by decide +kernel
  obtain ⟨hiff, hcommands⟩ := load_failure_reported_unless_unguarded parse t {} {}
  rw [← hpath] at hfails hno
  cases hload : load t {} (checkWithO.config.map .ofString) none with
  | ok o =>
    rw [hload] at hfails
    cases hfails
  | error e => exact ⟨e, rfl, (hcommands checkWithO e hload).2 ((hiff _ _).not.mp hno)⟩

/-- Nothing guards against a byte that starts no character, a `tool` that is a number, a pattern
that repeats too often, and a name that is too long. -/
theorem load_escapes :
    Escapes (load (folderWith "o.json" [0xff]) {} (some ⟨"", ["o.json"]⟩) none) ∧
    Escapes (load (folderWith "o.toml" (encode "tool = 1")) {} (some ⟨"", ["o.toml"]⟩) none) ∧
    Escapes (load (folderWith "o.json"
      (encode "\x7b\"additionalHooks\": \"a\x7b4294967295\x7d\"\x7d")) {}
      (some ⟨"", ["o.json"]⟩) none) ∧
    Escapes (load (folderWith "o.json" []) {}
      (some ⟨"", [String.ofList (List.replicate 300 'o')]⟩) none) := by
  decide +kernel

end HookLint.Options
