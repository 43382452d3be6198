import HookLint.Log.Event
import HookLint.Proofs.Data.Assoc
import Mathlib.Data.List.Induction

/-!
# Proofs.Log.Completion — one line for each step that completes

Three questions about a program can be answered without running it: which failure it ends with
(`failure?`), which log calls and timed blocks it completes, in the order in which they complete
(`completions`), and which entries it sets in the data of a block around it (`entries`).  A run is
these three answers put together (`run_eq`); the proof goes through the steps one by one, and
through the body of a block before the block itself.

So the log gets one event for each completed step, whatever the data of the blocks around, and the
event says what the body of the step did (`records_of_mem`).
-/

namespace HookLint.Log

/-! ### What steps do -/

mutual

/-- The failure that leaves a step. -/
def Step.failure? : Step → Option Failure
  | .log _ => none
  | .put _ _ _ => none
  | .fail f => some f
  | .attempt everything body => passing everything (failure? body)
  | .timed _ _ _ body => failure? body

/-- The failure that steps end with: that of the first step that fails. -/
def failure? : List Step → Option Failure
  | [] => none
  | s :: rest => s.failure? <|> failure? rest

end

mutual

/-- The log calls and blocks that a step completes, inner blocks before outer ones. -/
def Step.completions : Step → List Step
  | .log e => [.log e]
  | .put _ _ _ => []
  | .fail _ => []
  | .attempt _ body => completions body
  | .timed type filePath elapsed body =>
    completions body ++ [.timed type filePath elapsed body]

/-- The log calls and blocks that steps complete, up to the first step that fails. -/
def completions : List Step → List Step
  | [] => []
  | s :: rest => s.completions ++ if s.failure?.isSome then [] else completions rest

end

mutual

/-- The entries that a step sets in the data of the block `outward` blocks further out, in turn. -/
def Step.entries (outward : Nat) : Step → List (String × Value)
  | .log _ => []
  | .put key v target => if target = outward then [(key, v)] else []
  | .fail _ => []
  | .attempt _ body => entries outward body
  | .timed _ _ _ body => entries (outward + 1) body

/-- The entries that steps set there, up to the first step that fails. -/
def entries (outward : Nat) : List Step → List (String × Value)
  | [] => []
  | s :: rest => s.entries outward ++ if s.failure?.isSome then [] else entries outward rest

end

/-- Data after entries are set in turn. -/
def setAll (data : Data) (entries : List (String × Value)) : Data :=
  entries.foldl (fun data entry => Assoc.put data entry.1 entry.2) data

/-- The data of blocks after entries are set in each of them. -/
def setIn (blocks : List Data) (entries : Nat → List (String × Value)) : List Data :=
  blocks.mapIdx fun i data => setAll data (entries i)

/-- The event of a completed step. -/
def Step.event? : Step → Option Event
  | .log e => some e
  | .timed type filePath elapsed body =>
    some ⟨type, finished (setAll started (Log.entries 0 body)) (Log.failure? body), filePath,
      some elapsed⟩
  | _ => none

/-! ### A run -/

section Run

theorem setAll_append (data : Data) (a b : List (String × Value)) :
    setAll data (a ++ b) = setAll (setAll data a) b := List.foldl_append

theorem setIn_nil (blocks : List Data) : setIn blocks (fun _ => []) = blocks := by
  refine List.ext_getElem? fun i => ?_
  simp [setIn, setAll]

theorem setIn_cons (data : Data) (blocks : List Data) (f : Nat → List (String × Value)) :
    setIn (data :: blocks) f = setAll data (f 0) :: setIn blocks fun i => f (i + 1) :=
  List.mapIdx_cons

theorem setIn_setIn (blocks : List Data) (f g : Nat → List (String × Value)) :
    setIn (setIn blocks f) g = setIn blocks fun i => f i ++ g i := by
  unfold setIn
  rw [List.mapIdx_mapIdx]
  refine congrArg (List.mapIdx · blocks) (funext fun i => funext fun data => ?_)
  exact (setAll_append data (f i) (g i)).symm

theorem modify_put (blocks : List Data) (key : String) (v : Value) (target : Nat) :
    (blocks.modify target fun data => Assoc.put data key v) =
      setIn blocks fun i => (Step.put key v target).entries i := by
  refine List.ext_getElem? fun i => ?_
  unfold setIn
  rw [List.getElem?_modify, List.getElem?_mapIdx]
  simp only [Step.entries]
  split <;> simp [setAll]

mutual

/-- What running a step comes to. -/
theorem runStep_eq (blocks : List Data) : ∀ s : Step, runStep blocks s =
    ⟨s.completions.filterMap Step.event?, setIn blocks s.entries, s.failure?⟩
  | .log e => by
    rw [runStep]
    exact congrArg (Run.mk [e] · none) (setIn_nil blocks).symm
  | .put key v target => by
    rw [runStep, modify_put]
    rfl
  | .fail f => by
    rw [runStep]
    exact congrArg (Run.mk [] · (some f)) (setIn_nil blocks).symm
  | .attempt everything body => by
    rw [runStep, run_eq blocks body]
    rfl
  | .timed type filePath elapsed body => by
    rw [runStep, run_eq (started :: blocks) body, setIn_cons]
    simp [Step.completions, Step.entries, Step.failure?, Step.event?]

/-- **A run is its completions, its entries and its failure.** -/
theorem run_eq (blocks : List Data) : ∀ steps : List Step, run blocks steps =
    ⟨(completions steps).filterMap Step.event?, setIn blocks fun i => entries i steps,
      failure? steps⟩
  | [] => by
    rw [run]
    exact congrArg (Run.mk [] · none) (setIn_nil blocks).symm
  | s :: rest => by
    rw [run, runStep_eq blocks s]
    cases hs : s.failure? with
    | some f => simp [completions, entries, failure?, hs]
    | none =>
      rw [run_eq _ rest, setIn_setIn]
      simp [completions, entries, failure?, hs]

end

end Run

/-! ### The event of a block -/

/-- The value that is set last under a key. -/
def lastSet? (entries : List (String × Value)) (key : String) : Option Value :=
  Assoc.get? entries.reverse key

/-- What the event of a timed block says: whether its body came to its end, the text of the
exception if one left it, and else what the body set last under each key.  An interrupt leaves the
status as the body set it last, or as it was when the block was entered. -/
structure Reports (type : String) (filePath : Option String) (elapsed : Nat) (body : List Step)
    (event : Event) : Prop where
  type : event.type = type
  filePath : event.filePath = filePath
  durationMs : event.durationMs = some (elapsed : Int)
  keys : (Assoc.keys event.data).Nodup
  success : failure? body = none →
    Assoc.get? event.data "status" = some (.string "success")
  error : ∀ text, failure? body = some (.exception text) →
    Assoc.get? event.data "status" = some (.string "error") ∧
    Assoc.get? event.data "error" = some (.string text)
  interrupt : ∀ name, failure? body = some (.interrupt name) →
    Assoc.get? event.data "status" =
      (lastSet? (entries 0 body) "status").or (some (.string "started"))
  other : ∀ key, key ≠ "status" →
    (key = "error" → ∀ text, failure? body ≠ some (.exception text)) →
    Assoc.get? event.data key = lastSet? (entries 0 body) key

/-- What the event of a completed step says. -/
def Records : Step → Event → Prop
  | .log e, event => event = e
  | .timed type filePath elapsed body, event => Reports type filePath elapsed body event
  | _, _ => False

section Data

variable {data : Data} {key : String}

theorem nodup_keys_setAll (h : (Assoc.keys data).Nodup) (entries : List (String × Value)) :
    (Assoc.keys (setAll data entries)).Nodup := by
  induction entries generalizing data with
  | nil => exact h
  | cons e entries ih => exact ih (Assoc.nodup_keys_put h e.1 e.2)

/-- Of the entries under a key the last one counts. -/
theorem get?_setAll (data : Data) (entries : List (String × Value)) (key : String) :
    Assoc.get? (setAll data entries) key = (lastSet? entries key).or (Assoc.get? data key) := by
  induction entries using List.reverseRecOn with
  | nil => rfl
  | append_singleton entries e ih =>
    obtain ⟨k, v⟩ := e
    rw [setAll_append]
    show Assoc.get? (Assoc.put (setAll data entries) k v) key = _
    unfold lastSet? at ih ⊢
    rw [Assoc.get?_put, ih, List.reverse_append, List.reverse_singleton, List.singleton_append,
      Assoc.get?_cons]
    split <;> rfl

theorem nodup_keys_finished (h : (Assoc.keys data).Nodup) (failure : Option Failure) :
    (Assoc.keys (finished data failure)).Nodup := by
  match failure with
  | none => exact Assoc.nodup_keys_put h _ _
  | some (.exception text) => exact Assoc.nodup_keys_put (Assoc.nodup_keys_put h _ _) _ _
  | some (.interrupt name) => exact h

theorem get?_finished_of_ne (data : Data) {failure : Option Failure} (hstatus : key ≠ "status")
    (herror : key = "error" → ∀ text, failure ≠ some (.exception text)) :
    Assoc.get? (finished data failure) key = Assoc.get? data key := by
  match failure with
  | none => exact Assoc.get?_put_of_ne _ _ (Ne.symm hstatus)
  | some (.exception text) =>
    have hne : "error" ≠ key := fun h => herror h.symm text rfl
    rw [finished, Assoc.get?_put_of_ne _ _ hne, Assoc.get?_put_of_ne _ _ (Ne.symm hstatus)]
  | some (.interrupt name) => rfl

end Data

/-- A block reports its status, its failure and its own entries. -/
theorem reports_event (type : String) (filePath : Option String) (elapsed : Nat)
    (body : List Step) : Reports type filePath elapsed body
      ⟨type, finished (setAll started (entries 0 body)) (failure? body), filePath,
        some elapsed⟩ where
  type := rfl
  filePath := rfl
  durationMs := rfl
  keys := nodup_keys_finished (nodup_keys_setAll (by decide) _) _
  success := by
    intro hnone
    rw [hnone]
    exact Assoc.get?_put_self _ _ _
  error := by
    intro text htext
    rw [htext, finished, Assoc.get?_put_of_ne _ _ (by decide)]
    exact ⟨Assoc.get?_put_self _ _ _, Assoc.get?_put_self _ _ _⟩
  interrupt := by
    intro name hname
    rw [hname, finished, get?_setAll]
    rfl
  other := by
    intro key hstatus herror
    rw [get?_finished_of_ne _ hstatus herror, get?_setAll]
    have hstarted : Assoc.get? started key = none := if_neg (Ne.symm hstatus)
    rw [hstarted, Option.or_none]

mutual

/-- A completed step has an event, which says what it should. -/
theorem records_of_mem_step {c : Step} : ∀ {s : Step}, c ∈ s.completions →
    ∃ event, c.event? = some event ∧ Records c event
  | .log e, h => by
    obtain rfl := List.mem_singleton.mp h
    exact ⟨e, rfl, rfl⟩
  | .attempt _ body, h => by
    have hbody : c ∈ completions body := h
    exact records_of_mem hbody
  | .timed type filePath elapsed body, h => by
    rcases List.mem_append.mp h with h | h
    · exact records_of_mem h
    · obtain rfl := List.mem_singleton.mp h
      exact ⟨_, rfl, reports_event type filePath elapsed body⟩

theorem records_of_mem {c : Step} : ∀ {steps : List Step}, c ∈ completions steps →
    ∃ event, c.event? = some event ∧ Records c event
  | s :: rest, h => by
    rcases List.mem_append.mp h with h | h
    · exact records_of_mem_step h
    · split at h
      · cases h
      · exact records_of_mem h

end

end HookLint.Log
