import HookLint.Cli.Run
import HookLint.Proofs.Files.Listing
import HookLint.Proofs.Files.Writing
import HookLint.Proofs.Lint.Remaining
import Mathlib

/-!
# Proofs.Cli.CheckRun — what a check does to the files

One step of a check reads a file, and writes to it what is left of its text, if this differs
(`checkFile_of_readSource`); nothing else changes (`changesOnly_rewritten`).  A run is a row of such
steps (`Checked`), up to the first file that is no text, or that may not be written although it
should be.  What holds of each step carries over to the row by induction on it: only listed files
change, and since no file is listed twice, each holds in the end what its own step left there
(`Checked.settled`).

The exit code and the report are read off the records of the row.
-/

namespace HookLint.Cli

open Syntax Files Files.FileTree Lint Report

section Step

variable {rule : Rule} {parse : Parser} {fix : Bool} {t t' : FileTree} {path p : Pathname}
  {text left : String} {report : FileReport}

/-! ### Reading a file -/

/-- The file at a path is a text. -/
def Readable (t : FileTree) (path : Pathname) : Prop := ∃ text, readSource t path = .ok text

instance (t : FileTree) (path : Pathname) : Decidable (Readable t path) :=
  match h : readSource t path with
  | .ok text => isTrue ⟨text, h⟩
  | .error _ => isFalse fun ⟨_, htext⟩ => nomatch h.symm.trans htext

theorem readSource_eq_ok_iff : readSource t path = .ok text ↔
    ∃ contents, t.read? path = some contents ∧ decode? contents = some text := by
  rw [← Option.bind_eq_some_iff]
  unfold readSource
  cases (t.read? path).bind decode? <;> simp

theorem readSource_of_not_readable (h : ¬ Readable t path) :
    readSource t path = .error (.unreadable path) := by
  unfold Readable readSource at h
  unfold readSource
  cases hread : (t.read? path).bind decode? with
  | none => rfl
  | some text =>
    rw [hread] at h
    exact absurd ⟨text, rfl⟩ h

theorem readSource_congr (h : t'.read? p = t.read? p) : readSource t' p = readSource t p := by
  unfold readSource
  rw [h]

theorem readable_congr (h : t'.read? p = t.read? p) : Readable t' p ↔ Readable t p := by
  unfold Readable
  rw [readSource_congr h]

/-! ### One file -/

/-- The files after a check that leaves `left` of the text of a file; it is written only if it
differs. -/
def rewritten (t : FileTree) (path : Pathname) (text left : String) : FileTree :=
  if left = text then t else t.write path (encode left)

/-- What a check does to a file that is a text. -/
theorem checkFile_of_readSource (htext : readSource t path = .ok text)
    (hleft : remaining? rule parse fix path.text text = some (left, report))
    (hwrite : left = text ∨ t.grants .write path = true) :
    checkFile rule parse fix t path =
      .ok (⟨report, decide (left ≠ text)⟩, rewritten t path text left) := by
  unfold checkFile rewritten
  cases fix with
  | false =>
    obtain ⟨rfl, rfl⟩ := eq_of_remaining?_false hleft
    simp [lintFile, htext, Except.map]
  | true =>
    have hfixed : fixText rule parse path.text text = some (left, report) := hleft
    unfold fixFile
    rw [if_pos rfl, htext]
    dsimp only
    rw [hfixed]
    by_cases hsame : left = text
    · simp [hsame, Except.map]
    · simp [hsame, hwrite.resolve_left hsame, Except.map]

theorem checkFile_of_not_readable (rule : Rule) (parse : Parser) (fix : Bool)
    (h : ¬ Readable t path) :
    checkFile rule parse fix t path = .error (.source (.unreadable path)) := by
  unfold checkFile lintFile fixFile
  rw [readSource_of_not_readable h]
  cases fix <;> rfl

theorem changesOnly_rewritten (htext : readSource t path = .ok text) (left : String) :
    ChangesOnly [path] t (rewritten t path text left) := by
  obtain ⟨contents, hread, -⟩ := readSource_eq_ok_iff.mp htext
  unfold rewritten
  split
  · exact ChangesOnly.refl _ _
  · exact changesOnly_write hread _

/-- Written or not, the file holds what is left. -/
theorem read?_rewritten (htext : readSource t path = .ok text) (left : String) :
    (rewritten t path text left).read? path = some (encode left) := by
  obtain ⟨contents, hread, hdecode⟩ := readSource_eq_ok_iff.mp htext
  unfold rewritten
  split
  · next hsame => rw [hread, hsame, encode_of_decode? hdecode]
  · exact read?_write_self hread _

theorem read?_rewritten_of_apart (htext : readSource t path = .ok text) (left : String)
    (hp : t.Apart path p) : (rewritten t path text left).read? p = t.read? p := by
  refine (changesOnly_rewritten htext left).read?_eq fun q hq => ?_
  rw [List.mem_singleton.mp hq]
  exact hp

/-! ### Which files can be checked -/

/-- The file at a path is a text, and what the check leaves of it may be written if it differs. -/
def Checkable (rule : Rule) (parse : Parser) (fix : Bool) (t : FileTree) (path : Pathname) : Prop :=
  ∃ text left report, readSource t path = .ok text ∧
    remaining? rule parse fix path.text text = some (left, report) ∧
    (left = text ∨ t.grants .write path = true)

/-- The file at a path is a text of which the check leaves another one, but it may not be
written. -/
def Denied (rule : Rule) (parse : Parser) (fix : Bool) (t : FileTree) (path : Pathname) : Prop :=
  ∃ text left report, readSource t path = .ok text ∧
    remaining? rule parse fix path.text text = some (left, report) ∧ left ≠ text ∧
    t.grants .write path = false

theorem checkFile_of_denied (h : Denied rule parse fix t path) :
    checkFile rule parse fix t path = .error (.unwritable path) := by
  obtain ⟨text, left, report, htext, hleft, hne, hwrite⟩ := h
  unfold checkFile
  cases fix with
  | false => exact absurd (eq_of_remaining?_false hleft).1 hne
  | true =>
    have hfixed : fixText rule parse path.text text = some (left, report) := hleft
    unfold fixFile
    rw [if_pos rfl, htext]
    dsimp only
    rw [hfixed]
    simp [hne, hwrite, Except.map]

theorem checkable_or (hparse : ∀ text, (parse text).All (Bounded ⟨text⟩)) (rule : Rule)
    (fix : Bool) (t : FileTree) (path : Pathname) :
    Checkable rule parse fix t path ∨ ¬ Readable t path ∨ Denied rule parse fix t path := by
  by_cases hread : Readable t path
  · obtain ⟨text, htext⟩ := hread
    obtain ⟨left, report, hleft⟩ := exists_remaining? hparse rule fix path.text text
    by_cases hwrite : left = text ∨ t.grants .write path = true
    · exact .inl ⟨text, left, report, htext, hleft, hwrite⟩
    · obtain ⟨hne, hdenied⟩ := not_or.mp hwrite
      exact .inr (.inr ⟨text, left, report, htext, hleft, hne, Bool.eq_false_iff.mpr hdenied⟩)
  · exact .inr (.inl hread)

theorem Checkable.congr (h : Checkable rule parse fix t p) (hsame : SameNames t t')
    (hread : t'.read? p = t.read? p) : Checkable rule parse fix t' p := by
  unfold Checkable
  rw [readSource_congr hread, hsame.grants_eq]
  exact h

theorem Denied.congr (h : Denied rule parse fix t p) (hsame : SameNames t t')
    (hread : t'.read? p = t.read? p) : Denied rule parse fix t' p := by
  unfold Denied
  rw [readSource_congr hread, hsame.grants_eq]
  exact h

end Step

/-! ### A row of files -/

section Row

variable {rule : Rule} {parse : Parser} {fix : Bool} {t t' : FileTree} {path : Pathname}
  {paths before after : List Pathname} {records : List FileRecord} {e : LintError}

/-- Files are checked in turn.  Each of them is read as it is at that time, and what is left of its
text is written if it differs. -/
inductive Checked (rule : Rule) (parse : Parser) (fix : Bool) :
    FileTree → List Pathname → List FileRecord → FileTree → Prop where
  | nil {t : FileTree} : Checked rule parse fix t [] [] t
  | cons {t t' : FileTree} {path : Pathname} {paths : List Pathname} {text left : String}
      {report : FileReport} {records : List FileRecord} :
      readSource t path = .ok text →
      remaining? rule parse fix path.text text = some (left, report) →
      left = text ∨ t.grants .write path = true →
      Checked rule parse fix (rewritten t path text left) paths records t' →
      Checked rule parse fix t (path :: paths) (⟨report, decide (left ≠ text)⟩ :: records) t'

/-- A row of files that are checked can be followed by others. -/
theorem Checked.checkFiles_append (h : Checked rule parse fix t paths records t')
    (rest : List Pathname) :
    checkFiles rule parse fix t (paths ++ rest) =
      { checkFiles rule parse fix t' rest with
        records := records ++ (checkFiles rule parse fix t' rest).records } := by
  induction h with
  | nil => rfl
  | cons htext hleft hwrite _ ih =>
    rw [List.cons_append, checkFiles, checkFile_of_readSource htext hleft hwrite]
    dsimp only
    rw [ih]
    rfl

theorem Checked.checkFiles_eq (h : Checked rule parse fix t paths records t') :
    checkFiles rule parse fix t paths = { records, files := t' } := by
  have happend := h.checkFiles_append []
  rw [List.append_nil] at happend
  rw [happend]
  simp [checkFiles]

/-- A file that cannot be checked ends the row. -/
theorem Checked.checkFiles_of_error (h : Checked rule parse fix t paths records t')
    (he : checkFile rule parse fix t' path = .error e) (rest : List Pathname) :
    checkFiles rule parse fix t (paths ++ path :: rest) =
      { records, files := t', failure := some (path, e) } := by
  rw [h.checkFiles_append, checkFiles, he]
  simp

/-- **The frame of a row**: no file but those of the row changes. -/
theorem Checked.changesOnly (h : Checked rule parse fix t paths records t') :
    ChangesOnly paths t t' := by
  induction h with
  | nil => exact ChangesOnly.refl _ _
  | cons htext _ _ _ ih => exact (changesOnly_rewritten htext _).trans ih

/-- Without fixing no file changes. -/
theorem Checked.eq_of_not_fix (h : Checked rule parse false t paths records t') : t' = t := by
  induction h with
  | nil => rfl
  | cons _ hleft _ _ ih =>
    obtain ⟨rfl, -⟩ := eq_of_remaining?_false hleft
    exact ih.trans (if_pos rfl)

/-- A row of files each of which can be checked can be checked as a whole. -/
theorem exists_checked (hdistinct : t.Distinct paths)
    (hall : ∀ p ∈ paths, Checkable rule parse fix t p) :
    ∃ records t', Checked rule parse fix t paths records t' := by
  induction paths generalizing t with
  | nil => exact ⟨[], t, .nil⟩
  | cons path paths ih =>
    obtain ⟨hapart, hdistinct⟩ := List.pairwise_cons.mp hdistinct
    obtain ⟨text, left, report, htext, hleft, hwrite⟩ := hall path List.mem_cons_self
    have hstep := changesOnly_rewritten htext left
    -- the other files hold what they held, and may be written if they might be before
    have hall' : ∀ p ∈ paths, Checkable rule parse fix (rewritten t path text left) p := by
      intro p hp
      have hsame := read?_rewritten_of_apart htext left (hapart p hp)
      exact (hall p (List.mem_cons_of_mem _ hp)).congr hstep.toSameNames hsame
    obtain ⟨records, t', hrest⟩ := ih (hstep.distinct_iff.mpr hdistinct) hall'
    exact ⟨_, t', .cons htext hleft hwrite hrest⟩

/-- The file at a path holds in the end what the check leaves of the text that it held at first, and
the record tells of this: it has the report on what is left, and whether this differs. -/
def Settled (rule : Rule) (parse : Parser) (fix : Bool) (t t' : FileTree) (path : Pathname)
    (record : FileRecord) : Prop :=
  ∃ text left, readSource t path = .ok text ∧
    remaining? rule parse fix path.text text = some (left, record.report) ∧
    t'.read? path = some (encode left) ∧ record.fixed = decide (left ≠ text) ∧
    record.report.path = path.text

/-- **What a row leaves in its files.**  The tree `first` is that before the whole row; the files of
the row that are still to come hold in `t` what they held in `first`. -/
theorem Checked.settled_of_read? {first : FileTree} (h : Checked rule parse fix t paths records t')
    (hdistinct : t.Distinct paths) (hfirst : ∀ p ∈ paths, t.read? p = first.read? p) :
    List.Forall₂ (Settled rule parse fix first t') paths records := by
  induction h with
  | nil => exact List.Forall₂.nil
  | @cons t t' path paths text left report records htext hleft _ hrest ih =>
    obtain ⟨hapart, hdistinct⟩ := List.pairwise_cons.mp hdistinct
    have hstep := changesOnly_rewritten htext left
    refine List.Forall₂.cons ⟨text, left, ?_, hleft, ?_, rfl, ?_⟩ (ih ?_ ?_)
    · rw [← readSource_congr (hfirst path List.mem_cons_self)]
      exact htext
    · have hlater : ∀ p ∈ paths, (rewritten t path text left).Apart p path := fun p hp =>
        hstep.apart_iff.mpr (hapart p hp).symm
      rw [hrest.changesOnly.read?_eq hlater]
      exact read?_rewritten htext left
    · rw [report_of_remaining? hleft]
      exact path_lintText rule parse path.text left
    · exact hstep.distinct_iff.mpr hdistinct
    · intro p hp
      have hsame := read?_rewritten_of_apart htext left (hapart p hp)
      exact hsame.trans (hfirst p (List.mem_cons_of_mem _ hp))

theorem Checked.settled (h : Checked rule parse fix t paths records t')
    (hdistinct : t.Distinct paths) :
    List.Forall₂ (Settled rule parse fix t t') paths records :=
  h.settled_of_read? hdistinct fun _ _ => rfl

/-- The record of a file that is settled, given what the check leaves of its text. -/
theorem Settled.record_eq {record : FileRecord} {text left : String} {report : FileReport}
    (h : Settled rule parse fix t t' path record) (htext : readSource t path = .ok text)
    (hleft : remaining? rule parse fix path.text text = some (left, report)) :
    record = ⟨report, decide (left ≠ text)⟩ ∧ t'.read? path = some (encode left) := by
  obtain ⟨report', fixed⟩ := record
  obtain ⟨text', left', htext', hleft', hread, hfixed, -⟩ := h
  obtain rfl := Except.ok.inj (htext.symm.trans htext')
  obtain ⟨rfl, hreport⟩ := Prod.mk.inj (Option.some.inj (hleft.symm.trans hleft'))
  exact ⟨congrArg₂ FileRecord.mk hreport.symm hfixed, hread⟩

/-- What a row that ends early leaves: the files before the end are settled, the others hold what
they held, and no other file has changed; without fixing none has. -/
structure Cut (rule : Rule) (parse : Parser) (fix : Bool) (t : FileTree)
    (before rest : List Pathname) (t' : FileTree) : Prop where
  settled : ∃ records, List.Forall₂ (Settled rule parse fix t t') before records
  rest : ∀ p ∈ rest, t'.read? p = t.read? p
  frame : ChangesOnly before t t'
  kept : fix = false → t' = t

theorem Checked.cut (h : Checked rule parse fix t before records t')
    (hdistinct : t.Distinct (before ++ after)) : Cut rule parse fix t before after t' := by
  obtain ⟨hbefore, -, hapart⟩ := List.pairwise_append.mp hdistinct
  refine ⟨⟨records, h.settled hbefore⟩, fun p hp => ?_, h.changesOnly, fun hfix => ?_⟩
  · exact h.changesOnly.read?_eq fun q hq => hapart q hq p hp
  · rw [hfix] at h
    exact h.eq_of_not_fix

/-- All files of a row can be checked, or there is a first one that cannot. -/
theorem checkable_or_split (rule : Rule) (parse : Parser) (fix : Bool) (t : FileTree)
    (paths : List Pathname) : (∀ p ∈ paths, Checkable rule parse fix t p) ∨
      ∃ before path after, paths = before ++ path :: after ∧
        (∀ p ∈ before, Checkable rule parse fix t p) ∧ ¬ Checkable rule parse fix t path := by
  induction paths with
  | nil => exact .inl fun p hp => (List.not_mem_nil hp).elim
  | cons p paths ih =>
    by_cases hp : Checkable rule parse fix t p
    · rcases ih with hall | ⟨before, path, after, rfl, hbefore, hpath⟩
      · exact .inl (List.forall_mem_cons.mpr ⟨hp, hall⟩)
      · exact .inr ⟨p :: before, path, after, rfl, List.forall_mem_cons.mpr ⟨hp, hbefore⟩, hpath⟩
    · exact .inr ⟨[], p, paths, rfl, fun q hq => (List.not_mem_nil hq).elim, hp⟩

end Row

/-! ### The run -/

section Run

variable {rule : Rule} {parse : Parser} {console : Console} {a : CheckArguments} {t t' : FileTree}
  {paths before after : List Pathname} {path : Pathname} {records : List FileRecord}

/-- How many findings the records have. -/
def problems (records : List FileRecord) : Nat :=
  (records.map fun r => r.report.diagnostics.length).sum

/-- How many of them have a fix. -/
def fixable (records : List FileRecord) : Nat :=
  (records.map fun r => r.report.diagnostics.countP fun d => d.fix.isSome).sum

/-- How many records are of files that do not parse. -/
def unparsed (records : List FileRecord) : Nat :=
  (records.map fun r => r.report.fault.isSome.toNat).sum

/-- The report of records as an object. -/
def jsonReport (records : List FileRecord) : Value :=
  .object [("file_count", natValue records.length), ("problem_count", natValue (problems records)),
    ("fixable_count", natValue (fixable records)),
    ("parse_error_count", natValue (unparsed records)),
    ("files", .array (records.map FileRecord.toValue))]

/-- The last line of the report as text. -/
def totalsLine (records : List FileRecord) : String :=
  if problems records = 0 ∧ unparsed records = 0 then
    "[green]No problems found[/green] in " ++ toString records.length ++ " file(s)."
  else
    "[bold]" ++ toString (problems records) ++ " problem(s)[/bold] in " ++
      toString records.length ++ " file(s)" ++
      (if fixable records = 0 then ""
        else ", " ++ toString (fixable records) ++ " fixable with --fix") ++
      (if unparsed records = 0 then ""
        else ", " ++ toString (unparsed records) ++ " file(s) could not be parsed") ++ "."

/-- The line of a finding. -/
def findingLine (console : Console) (path : String) (d : Diagnostic) : String :=
  console.escape path ++ ":" ++ toString d.position.line ++ ":" ++ toString d.position.column ++
    " [yellow]" ++ d.kind.name ++ "[/yellow] " ++ console.escape d.message

/-- The lines of the report as text: for each record in turn a line for the fault and one for each
finding, then the totals. -/
def textLines (console : Console) (records : List FileRecord) : List String :=
  (records.flatMap fun r =>
    (r.report.fault.toList.map fun f =>
      console.escape r.report.path ++ ": [red]parse error[/red] " ++ console.escape f.message) ++
    r.report.diagnostics.map (findingLine console r.report.path)) ++
    [totalsLine records]

theorem totals_eq (records : List FileRecord) : Console.totals ⟨records⟩ = totalsLine records := by
  unfold Console.totals totalsLine Summary.clean problems fixable unparsed
  rw [Summary.problemCount_eq_sum, Summary.fixableCount_eq_sum, Summary.faultCount_eq_sum]
  simp only [Bool.and_eq_true, decide_eq_true_eq, String.append_assoc]
  rfl

theorem renderSummary_json (console : Console) (records : List FileRecord) :
    renderSummary console .json ⟨records⟩ = Json.render .report (jsonReport records) ++ "\n" := by
  unfold jsonReport problems fixable unparsed
  rw [← Summary.problemCount_eq_sum ⟨records⟩, ← Summary.fixableCount_eq_sum ⟨records⟩,
    ← Summary.faultCount_eq_sum ⟨records⟩]
  rfl

theorem renderSummary_text (console : Console) (records : List FileRecord) :
    renderSummary console .text ⟨records⟩ =
      String.join ((textLines console records).map console.print) := by
  show String.join ((console.lines ⟨records⟩).map console.print) = _
  unfold Console.lines textLines
  rw [totals_eq]
  rfl

/-- What becomes of a check whose files can all be checked: they hold what the check left of them,
no other file has changed, and without fixing none has.  The report shows one record for each file,
in the order of the files, and totals that are the sums over the records; the exit code tells
whether there is anything in them. -/
structure Completed (rule : Rule) (parse : Parser) (console : Console) (a : CheckArguments)
    (t : FileTree) (paths : List Pathname) (records : List FileRecord) (out : Outcome) : Prop where
  exitCode : out.exitCode =
    if ∀ r ∈ records, r.report.diagnostics = [] ∧ r.report.fault = none then 0 else 1
  settled : List.Forall₂ (Settled rule parse a.fix t out.files) paths records
  frame : ChangesOnly paths t out.files
  kept : a.fix = false → out.files = t
  json : a.format = .json → out.output = Json.render .report (jsonReport records) ++ "\n"
  text : a.format = .text →
    out.output = String.join ((textLines console records).map console.print)
  error : out.error = none
  log : out.events.isSome = a.log

/-- What becomes of a check that comes to a file that is no text: there is no report. -/
structure Aborted (rule : Rule) (parse : Parser) (console : Console) (a : CheckArguments)
    (t : FileTree) (before : List Pathname) (path : Pathname) (after : List Pathname)
    (out : Outcome) : Prop extends Cut rule parse a.fix t before (path :: after) out.files where
  exitCode : out.exitCode = 2
  output : out.output = ""
  error : out.error = some (console.errorText "Error:" ("Cannot read " ++ path.text))
  log : out.events.isSome = a.log

/-- What becomes of a check that comes to a file that may not be written: it ends the program. -/
structure Stopped (rule : Rule) (parse : Parser) (a : CheckArguments)
    (t : FileTree) (before : List Pathname) (path : Pathname) (after : List Pathname)
    (crash : Crash) : Prop extends Cut rule parse a.fix t before (path :: after) crash.files where
  cause : crash.cause = .lint (.unwritable path)
  log : crash.events.isSome = a.log

theorem exists_completed (hdistinct : t.Distinct paths)
    (hall : ∀ p ∈ paths, Checkable rule parse a.fix t p) :
    ∃ records out, checkOutcome console a (checkFiles rule parse a.fix t paths) = .ok out ∧
      Completed rule parse console a t paths records out := by
  obtain ⟨records, t', h⟩ := exists_checked hdistinct hall
  have hcut : Cut rule parse a.fix t paths [] t' := h.cut (by rwa [List.append_nil])
  have hsettled := h.settled hdistinct
  rw [h.checkFiles_eq]
  refine ⟨records, _, rfl, ?_, hsettled, hcut.frame, hcut.kept, fun hformat => ?_,
    fun hformat => ?_, rfl, ?_⟩
  · exact if_congr (Summary.clean_iff ⟨records⟩) rfl rfl
  · show renderSummary console a.format ⟨records⟩ = _
    rw [hformat]
    exact renderSummary_json console records
  · show renderSummary console a.format ⟨records⟩ = _
    rw [hformat]
    exact renderSummary_text console records
  · cases a.log <;> rfl

/-- A file that cannot be checked ends the run. -/
theorem exists_ended (hdistinct : t.Distinct (before ++ path :: after))
    (hbefore : ∀ p ∈ before, Checkable rule parse a.fix t p) :
    ∃ t', Cut rule parse a.fix t before (path :: after) t' ∧ SameNames t t' ∧
      t'.read? path = t.read? path ∧
      ∀ e, checkFile rule parse a.fix t' path = .error e → ∃ records,
        checkFiles rule parse a.fix t (before ++ path :: after) =
          { records, files := t', failure := some (path, e) } := by
  obtain ⟨records, t', h⟩ := exists_checked (List.pairwise_append.mp hdistinct).1 hbefore
  have hcut := h.cut hdistinct
  exact ⟨t', hcut, hcut.frame.toSameNames, hcut.rest path List.mem_cons_self,
    fun e he => ⟨records, h.checkFiles_of_error he after⟩⟩

theorem exists_aborted (hdistinct : t.Distinct (before ++ path :: after))
    (hbefore : ∀ p ∈ before, Checkable rule parse a.fix t p) (hpath : ¬ Readable t path) :
    ∃ out, checkOutcome console a (checkFiles rule parse a.fix t (before ++ path :: after)) =
        .ok out ∧ Aborted rule parse console a t before path after out := by
  obtain ⟨t', hcut, -, hread, hend⟩ := exists_ended hdistinct hbefore
  have hpath' : ¬ Readable t' path := (readable_congr hread).not.mpr hpath
  obtain ⟨records, hfiles⟩ := hend _ (checkFile_of_not_readable rule parse a.fix hpath')
  rw [hfiles]
  refine ⟨_, rfl, hcut, rfl, rfl, rfl, ?_⟩
  cases a.log <;> rfl

theorem exists_stopped (hdistinct : t.Distinct (before ++ path :: after))
    (hbefore : ∀ p ∈ before, Checkable rule parse a.fix t p)
    (hpath : Denied rule parse a.fix t path) :
    ∃ crash, checkOutcome console a (checkFiles rule parse a.fix t (before ++ path :: after)) =
        .error crash ∧ Stopped rule parse a t before path after crash := by
  obtain ⟨t', hcut, hsame, hread, hend⟩ := exists_ended hdistinct hbefore
  obtain ⟨records, hfiles⟩ := hend _ (checkFile_of_denied (hpath.congr hsame hread))
  rw [hfiles]
  refine ⟨_, rfl, hcut, rfl, ?_⟩
  cases a.log <;> rfl

theorem run_check (parse : Parser) {words : List String} {setup : Setup} {o : Options}
    (hwords : setup.command words = some (.check a))
    (ho : resolveOptions t {} a setup.readers = .ok o)
    (hpaths : sourceFiles {} t (a.paths.map .ofString) = .ok paths) :
    run parse t words setup =
      checkOutcome setup.console a (checkFiles (.ofOptions o) parse a.fix t paths) := by
  unfold run
  rw [hwords]
  dsimp only
  unfold runCheck
  rw [ho]
  dsimp only
  rw [hpaths]

/-- Paths that the system does not say enough of end the program before anything is checked. -/
theorem run_of_not_answered (parse : Parser) {words : List String} {setup : Setup} {o : Options}
    (hwords : setup.command words = some (.check a))
    (ho : resolveOptions t {} a setup.readers = .ok o)
    (hstands : ∀ p ∈ a.paths.map Pathname.ofString, Stands t p)
    (hpaths : ¬ ∀ p ∈ a.paths.map Pathname.ofString, Answered t p) :
    ∃ p ∈ a.paths.map Pathname.ofString, run parse t words setup =
      .error { cause := .source (.inaccessible p), files := t } := by
  cases hfiles : sourceFiles {} t (a.paths.map .ofString) with
  | ok found => exact absurd (fun p hp => (stands_of_sourceFiles hfiles p hp).1) hpaths
  | error e =>
    obtain ⟨before, p, after, hsplit, -, hp⟩ := sourceFiles_eq_error_iff.mp hfiles
    have hmem : p ∈ a.paths.map Pathname.ofString := by
      rw [hsplit]
      exact List.mem_append_right _ List.mem_cons_self
    obtain ⟨rfl, -⟩ | ⟨-, -, hnot⟩ := hp
    · refine ⟨p, hmem, ?_⟩
      unfold run
      rw [hwords]
      dsimp only
      unfold runCheck
      rw [ho]
      dsimp only
      rw [hfiles]
      rfl
    · exact absurd (hstands p hmem) hnot

end Run

/-- How a check of listed files ends.  It is completed if all of them are texts and those that are
to change may be written.  Otherwise there is a first file for which this is not so, and the run
ends there: it is aborted if that file is no text, and the program ends if it may not be written. -/
structure Ends (rule : Rule) (parse : Parser) (console : Console) (a : CheckArguments)
    (t : FileTree) (listed : List Pathname) (result : Except Crash Outcome) : Prop where
  completed : (∀ p ∈ listed, Checkable rule parse a.fix t p) →
    ∃ records out, result = .ok out ∧ Completed rule parse console a t listed records out
  aborted : ∀ before path after, listed = before ++ path :: after →
    (∀ p ∈ before, Checkable rule parse a.fix t p) → ¬ Readable t path →
    ∃ out, result = .ok out ∧ Aborted rule parse console a t before path after out
  stopped : ∀ before path after, listed = before ++ path :: after →
    (∀ p ∈ before, Checkable rule parse a.fix t p) → Denied rule parse a.fix t path →
    ∃ crash, result = .error crash ∧ Stopped rule parse a t before path after crash
  total : (∀ p ∈ listed, Checkable rule parse a.fix t p) ∨
    ∃ before path after, listed = before ++ path :: after ∧
      (∀ p ∈ before, Checkable rule parse a.fix t p) ∧
      (¬ Readable t path ∨ Denied rule parse a.fix t path)

/-- A working directory with options and four files, the last of which may not be written. -/
def folderOfFive (o a b c d : Bytes) : FileTree where
  files := [(["w", "o"], o), (["w", "a"], a), (["w", "b"], b), (["w", "c"], c), (["w", "d"], d)]
  here := ["w"]
  denies r name := r = .write && name = ["w", "d"]

/-- The files. -/
def swingFiles : FileTree :=
  folderOfFive (encode "\x7b\x7d") (encode (swingText true false)) [0xff]
    (encode (swingText true false)) (encode (swingText true false))

theorem read?_swingFiles :
    swingFiles.read? ⟨"", ["a"]⟩ = some (encode (swingText true false)) ∧
    swingFiles.read? ⟨"/", ["w", "b"]⟩ = some [0xff] ∧
    swingFiles.read? ⟨"", ["c"]⟩ = some (encode (swingText true false)) ∧
    swingFiles.read? ⟨"", ["d"]⟩ = some (encode (swingText true false)) := by
  -- whatever the files hold
  have hread : ∀ o a b c d, let t := folderOfFive o a b c d
      t.read? ⟨"", ["a"]⟩ = some a ∧ t.read? ⟨"/", ["w", "b"]⟩ = some b ∧
      t.read? ⟨"", ["c"]⟩ = some c ∧ t.read? ⟨"", ["d"]⟩ = some d :=
    fun _ _ _ _ _ => ⟨rfl, rfl, rfl, rfl⟩
  exact hread _ _ _ _ _

theorem grants_write_swingFiles : swingFiles.grants .write ⟨"", ["a"]⟩ = true ∧
    swingFiles.grants .write ⟨"", ["c"]⟩ = true ∧
    swingFiles.grants .write ⟨"", ["d"]⟩ = false := by
  have hgrants : ∀ o a b c d, let t := folderOfFive o a b c d
      t.grants .write ⟨"", ["a"]⟩ = true ∧ t.grants .write ⟨"", ["c"]⟩ = true ∧
      t.grants .write ⟨"", ["d"]⟩ = false :=
    fun _ _ _ _ _ => ⟨rfl, rfl, rfl⟩
  exact hgrants _ _ _ _ _

/-- What a check of these files is asked for. -/
def swingArguments (fix : Bool) (format : Format) (paths : List String) : CheckArguments :=
  ⟨paths, some "o", fix, format, some true, none, false⟩

/-- The words of such a check. -/
def swingWords (flags paths : List String) : List String :=
  "check" :: "--config=o" :: "--check-memoized-static" :: flags ++ paths

theorem resolveOptions_swing (paths : List String) (fix : Bool) (format : Format) :
    resolveOptions swingFiles {} (swingArguments fix format paths) =
      .ok { checkMemoized := true } := by
  have hconfig : (some "o").map Pathname.ofString = some ⟨"", ["o"]⟩ := by cbv
  unfold resolveOptions swingArguments
  dsimp only
  rw [hconfig]
  generalize hloaded : (Options.load _ _ _ _ _ >>= _) = loaded
  have hvalues : loaded.toOption.any (fun o => o.checkMemoized && o.staticHooks.isEmpty &&
      o.additionalHooks.isNone && !o.reportStatic) = true := by
    rw [← hloaded]
    decide +kernel
  cases loaded with
  | error e => cases hvalues
  | ok o =>
    obtain ⟨checkMemoized, staticHooks, additionalHooks, reportStatic⟩ := o
    simp only [Except.toOption, Option.any_some, Bool.and_eq_true, List.isEmpty_iff,
      Option.isNone_iff_eq_none, Bool.not_eq_true'] at hvalues
    obtain ⟨⟨⟨rfl, rfl⟩, rfl⟩, rfl⟩ := hvalues
    rfl

theorem fixText_swing (path : String) : ∃ report,
    fixText (.ofOptions { checkMemoized := true }) swingParser path (swingText true false) =
      some (swingText true true, report) := by
  have hfill := (pass?_path (swingRule false) swingParser path "swing.js" _).trans swing_fills
  have hrest := (pass?_path (swingRule false) swingParser path "swing.js" _).trans swing_rests
  exact ⟨_, fixText_eq_some_iff.mpr ⟨rfl, Or.inl ⟨1, by decide, .succ hfill (by decide) .zero,
    hrest⟩⟩⟩

theorem readSource_swing (name : String) (h : name = "a" ∨ name = "c" ∨ name = "d") :
    readSource swingFiles ⟨"", [name]⟩ = .ok (swingText true false) := by
  obtain ⟨ha, -, hc, hd⟩ := read?_swingFiles
  refine readSource_eq_ok_iff.mpr ⟨_, ?_, decode?_encode _⟩
  rcases h with rfl | rfl | rfl
  · exact ha
  · exact hc
  · exact hd

theorem not_readable_swing : ¬ Readable swingFiles ⟨"/", ["w", "b"]⟩ := by
  rintro ⟨text, htext⟩
  obtain ⟨contents, hread, htext⟩ := readSource_eq_ok_iff.mp htext
  obtain rfl := Option.some.inj (hread.symm.trans read?_swingFiles.2.1)
  cases htext

theorem checkable_swing (name : String) (h : name = "a" ∨ name = "c") :
    Checkable (.ofOptions { checkMemoized := true }) swingParser true swingFiles ⟨"", [name]⟩ := by
  obtain ⟨ha, hc, -⟩ := grants_write_swingFiles
  obtain ⟨report, hfix⟩ := fixText_swing (Pathname.text ⟨"", [name]⟩)
  refine ⟨_, _, report, readSource_swing name (h.imp_right .inl), hfix, .inr ?_⟩
  rcases h with rfl | rfl
  · exact ha
  · exact hc

/-- The finding in the text of these files. -/
def swingFinding : Diagnostic where
  kind := .missingDependency
  message := "React Hook useMemo has a missing dependency: 'a'. " ++
    "Either include it or remove the dependency array."
  hook := "useMemo"
  names := ["a"]
  position := ⟨1, 62⟩
  start := 61
  stop := 63
  fix := some (arrayFix (swingArray 61 false) "[a]")

/-- The findings in a text with a filled left array. -/
def swingFindings (j : Bool) : List Diagnostic := cond j [] [swingFinding]

theorem lintText_swing (path : String) (j : Bool) :
    lintText (.ofOptions { checkMemoized := true }) swingParser path (swingText true j) =
      ⟨path, swingFindings j, none⟩ := by
  have hcheck : ∀ j, (swingRule false).plainCheck? ⟨swingText true j⟩ (swingProgram true j)
      ["a", "b", "p"] = some (swingFindings j) := by
    decide +kernel
  have hparse := swingParser_swingText true j
  have hfault : Fault.ofTree? ⟨swingText true j⟩ (swingParser (swingText true j)) = none := by
    rw [hparse]
    cases j <;> rfl
  have hcheck := hcheck j
  rw [← hparse] at hcheck
  refine lintText_of_plainCheck? isExpressible_letter hfault hcheck ?_
  cases j
  · exact List.pairwise_singleton _ _
  · exact .nil

/-- The report on the file `a` as it is. -/
def swingReport : Value :=
  .object [("file_count", .int 1), ("problem_count", .int 1), ("fixable_count", .int 1),
    ("parse_error_count", .int 0),
    ("files", .array [.object [("file_path", .string "a"),
      ("diagnostics", .array [diagnosticValue swingFinding]), ("parse_error", .null),
      ("fixed", .bool false)]])]

section Swing

variable {result : Except Crash Outcome}

/-- How a check of these files ends. -/
def SwingEnds (fix : Bool) (format : Format) (paths : List String) (listed : List Pathname)
    (result : Except Crash Outcome) : Prop :=
  Ends (.ofOptions { checkMemoized := true }) swingParser .standard
    (swingArguments fix format paths) swingFiles listed result

theorem text_swing : Pathname.text ⟨"", ["a"]⟩ = "a" := rfl

theorem checkable_first_swing : ∀ p ∈ [(⟨"", ["a"]⟩ : Pathname)],
    Checkable (.ofOptions { checkMemoized := true }) swingParser true swingFiles p :=
  List.forall_mem_singleton.mpr (checkable_swing "a" (.inl rfl))

theorem reported_swing (h : SwingEnds false .json ["a"] [⟨"", ["a"]⟩] result) :
    ∃ out, result = .ok out ∧ out.exitCode = 1 ∧ out.files = swingFiles ∧
      out.output = Json.render .report swingReport ++ "\n" := by
  have hread := readSource_swing "a" (.inl rfl)
  obtain ⟨records, out, hout, h⟩ := h.completed
    (List.forall_mem_singleton.mpr ⟨_, _, _, hread, rfl, .inl rfl⟩)
  obtain ⟨record, rfl⟩ := List.length_eq_one_iff.mp h.settled.length_eq.symm
  obtain ⟨rfl, -⟩ := (List.forall₂_cons.mp h.settled).1.record_eq hread rfl
  rw [text_swing, lintText_swing] at h
  refine ⟨out, hout, ?_, h.kept rfl, (h.json rfl).trans ?_⟩
  · rw [h.exitCode, if_neg]
    simp [swingFindings]
  · rfl

theorem fixed_swing (h : SwingEnds true .text ["a"] [⟨"", ["a"]⟩] result) :
    ∃ out, result = .ok out ∧ out.exitCode = 0 ∧
      out.files.read? ⟨"", ["a"]⟩ = some (encode (swingText true true)) ∧
      out.output = "No problems found in 1 file(s).\n" := by
  obtain ⟨report, hfix⟩ := fixText_swing (Pathname.text ⟨"", ["a"]⟩)
  obtain ⟨records, out, hout, h⟩ := h.completed checkable_first_swing
  obtain ⟨record, rfl⟩ := List.length_eq_one_iff.mp h.settled.length_eq.symm
  obtain ⟨rfl, hleft⟩ :=
    (List.forall₂_cons.mp h.settled).1.record_eq (readSource_swing "a" (.inl rfl)) hfix
  have hreport : report = ⟨"a", [], none⟩ := by
    rw [(fixText_eq_some_iff.mp hfix).1, text_swing]
    exact lintText_swing "a" true
  rw [hreport] at h
  refine ⟨out, hout, ?_, hleft, (h.text rfl).trans (by decide +kernel)⟩
  rw [h.exitCode, if_pos]
  simp

theorem aborted_swing (h : SwingEnds true .text ["a", "/w/b", "c"]
      [⟨"", ["a"]⟩, ⟨"/", ["w", "b"]⟩, ⟨"", ["c"]⟩] result) :
    ∃ out, result = .ok out ∧ out.exitCode = 2 ∧ out.output = "" ∧
      out.files.read? ⟨"", ["a"]⟩ = some (encode (swingText true true)) ∧
      out.files.read? ⟨"/", ["w", "b"]⟩ = some [0xff] ∧
      out.files.read? ⟨"", ["c"]⟩ = some (encode (swingText true false)) := by
  obtain ⟨report, hfix⟩ := fixText_swing (Pathname.text ⟨"", ["a"]⟩)
  obtain ⟨out, hout, h⟩ := h.aborted [⟨"", ["a"]⟩] ⟨"/", ["w", "b"]⟩ [⟨"", ["c"]⟩] rfl
    checkable_first_swing not_readable_swing
  obtain ⟨records, hsettled⟩ := h.settled
  refine ⟨out, hout, h.exitCode, h.output, ?_, ?_, ?_⟩
  · cases hsettled with
    | cons hsettled _ => exact (hsettled.record_eq (readSource_swing "a" (.inl rfl)) hfix).2
  · exact (h.rest _ (by decide)).trans read?_swingFiles.2.1
  · exact (h.rest _ (by decide)).trans read?_swingFiles.2.2.1

theorem stopped_swing (h : SwingEnds true .text ["a", "d", "c"]
      [⟨"", ["a"]⟩, ⟨"", ["d"]⟩, ⟨"", ["c"]⟩] result) :
    ∃ crash, result = .error crash ∧ crash.cause = .lint (.unwritable ⟨"", ["d"]⟩) ∧
      crash.files.read? ⟨"", ["a"]⟩ = some (encode (swingText true true)) ∧
      crash.files.read? ⟨"", ["c"]⟩ = some (encode (swingText true false)) := by
  obtain ⟨report, hfix⟩ := fixText_swing (Pathname.text ⟨"", ["a"]⟩)
  obtain ⟨reportD, hfixD⟩ := fixText_swing (Pathname.text ⟨"", ["d"]⟩)
  obtain ⟨crash, hcrash, h⟩ := h.stopped [⟨"", ["a"]⟩] ⟨"", ["d"]⟩ [⟨"", ["c"]⟩] rfl
    checkable_first_swing
    ⟨_, _, reportD, readSource_swing "d" (by decide), hfixD, by decide,
      grants_write_swingFiles.2.2⟩
  obtain ⟨records, hsettled⟩ := h.settled
  refine ⟨crash, hcrash, h.cause, ?_, ?_⟩
  · cases hsettled with
    | cons hsettled _ => exact (hsettled.record_eq (readSource_swing "a" (.inl rfl)) hfix).2
  · exact (h.rest _ (by decide)).trans read?_swingFiles.2.2.1

end Swing

end HookLint.Cli
