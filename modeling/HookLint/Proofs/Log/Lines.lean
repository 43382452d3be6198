import HookLint.Proofs.Json.OneLine
import HookLint.Proofs.Log.Completion
import Mathlib.Data.List.Forall2

/-!
# Proofs.Log.Lines — a log only grows, by one line for each completed step

Appending lines to a log puts them at its end, each with a line feed after it (`append_eq`).  Every
event is written as one line, since the data of all blocks stay serializable while a program runs
(`tidy_of_mem_events`).

`Begins done steps` says that `done` is what has been carried out of a program at some time, also in
the middle of a block.  Whatever it is, the log that it leaves is a beginning of the log in the end
(`Begins.prefix_completions`).
-/

namespace HookLint.Log

open Json

/-! ### Text -/

section Text

theorem append_cons (log l : String) (ls : List String) :
    append log (l :: ls) = append (log ++ l ++ "\n") ls := rfl

theorem append_append (log : String) (ls more : List String) :
    append log (ls ++ more) = append (append log ls) more := List.foldl_append

/-- Lines are put at the end of a log. -/
theorem append_eq (log : String) (ls : List String) :
    append log ls = log ++ String.join (ls.map (· ++ "\n")) := by
  induction ls generalizing log with
  | nil => simp [append]
  | cons l ls ih =>
    rw [append_cons, ih]
    simp [String.append_assoc]

theorem lines_append (clock : Nat → String) (a b : List Event) :
    ∃ more, lines clock (a ++ b) = lines clock a ++ more := by
  unfold lines
  rw [List.mapIdx_append]
  exact ⟨_, rfl⟩

end Text

/-! ### Data that can be written -/

/-- All values of the data can be written. -/
def Tidy (data : Data) : Prop := ∀ entry ∈ data, Serializable entry.2

/-- All values that a step puts into the log can be written. -/
inductive Step.Serializable : Step → Prop where
  | log {e : Event} (h : Tidy e.data) : Serializable (.log e)
  | put {key : String} {v : Value} {target : Nat} (h : Json.Serializable v) :
      Serializable (.put key v target)
  | fail (f : Failure) : Serializable (.fail f)
  | attempt {everything : Bool} {body : List Step} (h : ∀ s ∈ body, Serializable s) :
      Serializable (.attempt everything body)
  | timed {type : String} {filePath : Option String} {elapsed : Nat} {body : List Step}
      (h : ∀ s ∈ body, Serializable s) : Serializable (.timed type filePath elapsed body)

section Tidy

variable {data : Data} {e : Event}

theorem Tidy.put (h : Tidy data) {v : Value} (hv : Serializable v) (key : String) :
    Tidy (Assoc.put data key v) := by
  rintro ⟨k, w⟩ hmem
  rcases Assoc.mem_put hmem with ⟨-, rfl⟩ | hmem
  · exact hv
  · exact h _ hmem

theorem tidy_started : Tidy started := by
  intro entry hentry
  obtain rfl := List.mem_singleton.mp hentry
  exact .string _

theorem Tidy.finished (h : Tidy data) (failure : Option Failure) :
    Tidy (finished data failure) := by
  match failure with
  | none => exact h.put (.string _) _
  | some (.exception text) => exact (h.put (.string _) _).put (.string _) _
  | some (.interrupt name) => exact h

/-- The line of an event with such data is one line. -/
theorem isLine_line (h : Tidy e.data) (timestamp : String) : IsLine (e.line timestamp) := by
  refine isLine_render (.object ?_)
  have hpath : Serializable (e.filePath.elim .null .string) := by
    cases e.filePath with
    | none => exact .null
    | some path => exact .string path
  have hduration : Serializable (e.durationMs.elim .null .int) := by
    cases e.durationMs with
    | none => exact .null
    | some n => exact .int n
  simp only [List.forall_mem_cons, List.not_mem_nil, false_implies, implies_true, and_true]
  exact ⟨.string _, .object h, hpath, hduration, .string _⟩

theorem tidy_setAll (h : Tidy data) {entries : List (String × Value)}
    (hentries : ∀ entry ∈ entries, Serializable entry.2) : Tidy (setAll data entries) := by
  induction entries generalizing data with
  | nil => exact h
  | cons entry entries ih =>
    obtain ⟨hentry, hrest⟩ := List.forall_mem_cons.mp hentries
    exact ih (h.put hentry entry.1) hrest

end Tidy

/-! ### A program that can be written -/

section Program

variable {s : Step} {steps : List Step}

mutual

theorem Step.Serializable.of_mem_completions {c : Step} :
    ∀ {s : Step}, s.Serializable → c ∈ s.completions → c.Serializable
  | .log _, hs, h => List.mem_singleton.mp h ▸ hs
  | .attempt _ body, .attempt hbody, h => serializable_of_mem_completions hbody h
  | .timed _ _ _ body, .timed hbody, h => by
    rcases List.mem_append.mp h with h | h
    · exact serializable_of_mem_completions hbody h
    · rw [List.mem_singleton.mp h]
      exact .timed hbody

/-- What a program completes can be written. -/
theorem serializable_of_mem_completions {c : Step} :
    ∀ {steps : List Step}, (∀ s ∈ steps, s.Serializable) → c ∈ completions steps → c.Serializable
  | s :: rest, hs, h => by
    obtain ⟨hfirst, hrest⟩ := List.forall_mem_cons.mp hs
    rcases List.mem_append.mp h with h | h
    · exact hfirst.of_mem_completions h
    · split at h
      · cases h
      · exact serializable_of_mem_completions hrest h

end

mutual

theorem Step.Serializable.of_mem_entries {entry : String × Value} :
    ∀ {s : Step} {outward : Nat}, s.Serializable → entry ∈ s.entries outward →
      Json.Serializable entry.2
  | .put key v target, outward, .put hv, h => by
    rw [Step.entries] at h
    split at h
    · rw [List.mem_singleton.mp h]
      exact hv
    · cases h
  | .attempt _ body, _, .attempt hbody, h => serializable_of_mem_entries hbody h
  | .timed _ _ _ body, _, .timed hbody, h => serializable_of_mem_entries hbody h

/-- What a program sets in the data of a block can be written. -/
theorem serializable_of_mem_entries {entry : String × Value} :
    ∀ {steps : List Step} {outward : Nat}, (∀ s ∈ steps, s.Serializable) →
      entry ∈ entries outward steps → Json.Serializable entry.2
  | s :: rest, _, hs, h => by
    obtain ⟨hfirst, hrest⟩ := List.forall_mem_cons.mp hs
    rcases List.mem_append.mp h with h | h
    · exact hfirst.of_mem_entries h
    · split at h
      · cases h
      · exact serializable_of_mem_entries hrest h

end

theorem Step.Serializable.tidy_event {event : Event} (hs : s.Serializable)
    (h : s.event? = some event) : Tidy event.data := by
  cases hs with
  | log he =>
    cases h
    exact he
  | timed hbody =>
    cases h
    exact (tidy_setAll tidy_started fun entry => serializable_of_mem_entries hbody).finished _
  | put _ => cases h
  | fail _ => cases h
  | attempt _ => cases h

theorem tidy_of_mem_events {event : Event} (hs : ∀ s ∈ steps, s.Serializable)
    (h : event ∈ (run [] steps).events) : Tidy event.data := by
  rw [run_eq] at h
  obtain ⟨c, hc, hevent⟩ := List.mem_filterMap.mp h
  exact (serializable_of_mem_completions hs hc).tidy_event hevent

/-- The events of a program that can be written are single lines. -/
theorem isLine_of_mem_lines {clock : Nat → String} {l : String}
    (hs : ∀ s ∈ steps, s.Serializable) (h : l ∈ lines clock (run [] steps).events) : IsLine l := by
  obtain ⟨i, hi, rfl⟩ := List.mem_mapIdx.mp h
  exact isLine_line (tidy_of_mem_events hs (List.getElem_mem hi)) _

end Program

/-! ### A program under way -/

/-- What has been carried out of a program at some time: some of its steps, and perhaps a part of
the body of the next one. -/
inductive Begins : List Step → List Step → Prop where
  | nil {steps : List Step} : Begins [] steps
  | step (s : Step) {done rest : List Step} (h : Begins done rest) : Begins (s :: done) (s :: rest)
  | attempt {done body rest : List Step} {everything : Bool} (h : Begins done body) :
      Begins done (.attempt everything body :: rest)
  | timed {done body rest : List Step} {type : String} {filePath : Option String} {elapsed : Nat}
      (h : Begins done body) : Begins done (.timed type filePath elapsed body :: rest)

/-- What is completed stays completed. -/
theorem Begins.prefix_completions {done steps : List Step} (h : Begins done steps) :
    completions done <+: completions steps := by
  induction h with
  | nil => exact List.nil_prefix
  | step s _ ih =>
    rw [completions, completions]
    refine (List.prefix_append_right_inj _).mpr ?_
    split
    · exact List.prefix_rfl
    · exact ih
  | attempt _ ih => exact ih.trans (List.prefix_append _ _)
  | timed _ ih =>
    exact ih.trans ((List.prefix_append _ _).trans (List.prefix_append _ _))

theorem Begins.append_eq {done steps : List Step} (h : Begins done steps) (clock : Nat → String)
    (log : String) : ∃ more, append log (lines clock (run [] steps).events) =
      append log (lines clock (run [] done).events) ++ more := by
  obtain ⟨rest, hrest⟩ := h.prefix_completions
  rw [run_eq, run_eq, ← hrest, List.filterMap_append]
  obtain ⟨more, hmore⟩ := lines_append clock ((completions done).filterMap Step.event?)
    (rest.filterMap Step.event?)
  rw [hmore, append_append, Log.append_eq (append log _) more]
  exact ⟨_, rfl⟩

/-! ### One line for each completed step -/

theorem forall₂_filterMap {α β : Type} {R : α → β → Prop} {f : α → Option β} {l : List α}
    (h : ∀ a ∈ l, ∃ b, f a = some b ∧ R a b) : List.Forall₂ R l (l.filterMap f) := by
  induction l with
  | nil => exact .nil
  | cons a l ih =>
    obtain ⟨⟨b, hb, hR⟩, hl⟩ := List.forall_mem_cons.mp h
    rw [List.filterMap_cons_some hb]
    exact .cons hR (ih hl)

theorem forall₂_lines {cs : List Step} {events : List Event}
    (h : List.Forall₂ Records cs events) (clock : Nat → String) :
    List.Forall₂ (fun c l => ∃ event time, Records c event ∧ l = event.line time) cs
      (lines clock events) := by
  induction h generalizing clock with
  | nil => exact .nil
  | @cons c event cs events hc _ ih =>
    unfold lines at ih ⊢
    rw [List.mapIdx_cons]
    exact .cons ⟨event, _, hc, rfl⟩ (ih fun i => clock (i + 1))

/-- A block that fails inside of another one, whose data it changes first; the failure is stopped
outside of both.  Then a block is interrupted. -/
def nestedFailure : List Step :=
  [.attempt false
    [.timed "outer" none 5
      [.put "status" (.string "odd"),
        .timed "inner" (some "a\nb") 2
          [.put "error" (.int 0), .put "seen" (.bool true) 1, .fail (.exception "lost\n")],
        .log { type := "never", data := [] }]],
    .log { type := "end", data := [("n", .int 3)] },
    .timed "last" none 1 [.put "error" (.int 0), .fail (.interrupt "KeyboardInterrupt")]]

theorem serializable_nestedFailure : ∀ s ∈ nestedFailure, s.Serializable := by
  have hend : Step.Serializable (.log { type := "end", data := [("n", .int 3)] }) := by
    refine .log fun entry hentry => ?_
    obtain rfl := List.mem_singleton.mp hentry
    exact .int 3
  have hnever : Step.Serializable (.log { type := "never", data := [] }) :=
    .log fun entry hentry => nomatch hentry
  have hinner : Step.Serializable (.timed "inner" (some "a\nb") 2
      [.put "error" (.int 0), .put "seen" (.bool true) 1, .fail (.exception "lost\n")]) := by
    refine .timed ?_
    simp only [List.forall_mem_cons, List.not_mem_nil, false_implies, implies_true, and_true]
    exact ⟨.put (.int 0), .put (.bool true), .fail _⟩
  have hlast : Step.Serializable (.timed "last" none 1
      [.put "error" (.int 0), .fail (.interrupt "KeyboardInterrupt")]) := by
    refine .timed ?_
    simp only [List.forall_mem_cons, List.not_mem_nil, false_implies, implies_true, and_true]
    exact ⟨.put (.int 0), .fail _⟩
  simp only [nestedFailure, List.forall_mem_cons, List.not_mem_nil, false_implies, implies_true,
    and_true]
  refine ⟨.attempt ?_, hend, hlast⟩
  simp only [List.forall_mem_cons, List.not_mem_nil, false_implies, implies_true, and_true]
  refine .timed ?_
  simp only [List.forall_mem_cons, List.not_mem_nil, false_implies, implies_true, and_true]
  exact ⟨.put (.string _), hinner, hnever⟩

end HookLint.Log
