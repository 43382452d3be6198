import HookLint.Json.Printer

/-!
# Event — the log of a run

An event is one line of JSON text, which is appended to the log.  A timed block is logged when it is
left, with the data that was put into it: its status is `success` if its body came to its end, and
`error`, with the text of the exception, if an exception left it.  An interrupt leaves the data as
the body left it.  Either failure goes on to the block around, up to an attempt that stops it or to
the end of the program.
-/

namespace HookLint.Log

/-- The entries of an event, or of a block that is not left yet. -/
abbrev Data := Assoc String Value

/-- A line of the log, but for the time at which it is written. -/
structure Event where
  type : String
  data : Data
  filePath : Option String := none
  durationMs : Option Int := none

/-- The line of an event that is written at the given time. -/
def Event.line (e : Event) (timestamp : String) : String :=
  Json.render .line (.object
    [("event_type", .string e.type), ("data", .object e.data),
      ("file_path", e.filePath.elim .null .string), ("duration_ms", e.durationMs.elim .null .int),
      ("timestamp", .string timestamp)])

/-- The lines of events; the clock gives the time at which each of them is written. -/
def lines (clock : Nat → String) (events : List Event) : List String :=
  events.mapIdx fun i e => e.line (clock i)

/-- The text of a log after lines are appended to it in turn. -/
def append (log : String) (lines : List String) : String :=
  lines.foldl (fun log line => log ++ line ++ "\n") log

/-- How a body is left before its end. -/
inductive Failure where
  /-- By an exception with the given wording. -/
  | exception (text : String)
  /-- By what ends a program and is no exception, so handlers of exceptions let it pass. -/
  | interrupt (name : String)
deriving DecidableEq, Repr

/-- Whether the failure is an interrupt. -/
def Failure.isInterrupt : Failure → Bool
  | .exception _ => false
  | .interrupt _ => true

/-- What a program does that concerns its log. -/
inductive Step where
  /-- Logs an event. -/
  | log (e : Event)
  /-- Sets an entry of the data of the block around, or of the one that lies `outward` blocks
  further out. -/
  | put (key : String) (v : Value) (outward : Nat := 0)
  /-- Leaves all blocks around, up to the nearest attempt that stops the failure. -/
  | fail (f : Failure)
  /-- Runs a body; an exception goes no further, nor does an interrupt if `everything` is
  stopped. -/
  | attempt (everything : Bool) (body : List Step)
  /-- Runs a body; `elapsed` is how many milliseconds it takes. -/
  | timed (type : String) (filePath : Option String) (elapsed : Nat) (body : List Step)

/-- What steps come to: the events in the order in which they are logged, the data of the blocks
around after them, the innermost first, and the failure they end with, if they do. -/
structure Run where
  events : List Event
  blocks : List Data
  failure : Option Failure

/-- The data of a block when it is entered. -/
def started : Data := [("status", .string "started")]

/-- The data of a block when it is left. -/
def finished (data : Data) : Option Failure → Data
  | none => Assoc.put data "status" (.string "success")
  | some (.exception text) =>
    Assoc.put (Assoc.put data "status" (.string "error")) "error" (.string text)
  | some (.interrupt _) => data

/-- What is left of a failure after an attempt. -/
def passing (everything : Bool) (failure : Option Failure) : Option Failure :=
  failure.filter fun f => !everything && f.isInterrupt

mutual

/-- Runs a step inside blocks with the given data. -/
def runStep (blocks : List Data) : Step → Run
  | .log e => ⟨[e], blocks, none⟩
  | .put key v outward => ⟨[], blocks.modify outward fun data => Assoc.put data key v, none⟩
  | .fail f => ⟨[], blocks, some f⟩
  | .attempt everything body =>
    let inner := run blocks body
    { inner with failure := passing everything inner.failure }
  | .timed type filePath elapsed body =>
    let inner := run (started :: blocks) body
    let data := finished (inner.blocks.headD started) inner.failure
    ⟨inner.events ++ [⟨type, data, filePath, some elapsed⟩], inner.blocks.tail, inner.failure⟩

/-- Runs steps in turn, up to the first that fails. -/
def run (blocks : List Data) : List Step → Run
  | [] => ⟨[], blocks, none⟩
  | step :: rest =>
    let first := runStep blocks step
    if first.failure.isSome then first
    else
      let after := run first.blocks rest
      { after with events := first.events ++ after.events }

end

end HookLint.Log
