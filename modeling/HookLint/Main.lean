import HookLint.Cli.Feed
import HookLint.Cli.Run
import Std.Time.Format
import Std.Time.Zoned

/-!
# Main — the command

The command runs on the files of the working directory.  Its standard input is the feed of the
parser; its arguments are those of `Cli.Command`.
-/

namespace HookLint.Cli

open Files

/-- All lines of a stream. -/
partial def readLines (input : IO.FS.Stream) (lines : List String) : IO (List String) := do
  let line ← input.getLine
  if line.isEmpty then return lines.reverse else readLines input (line :: lines)

/-- The contents of a file, if it can be read. -/
def readFile? (path : String) : IO (Option Bytes) := do
  try return some (← IO.FS.readBinFile path).toList
  catch _ => return none

/-- The files that a run may look at: those of the feed, those of the command line, and those that
hold options. -/
def lookedAt (feed : Feed) (words : List String) : List String :=
  feed.paths ++ words ++ [({} : Config).optionsFile, Options.projectFile]

/-- The files that a run may look at, from the working directory. -/
def readFiles (paths : List String) : IO FileTree := do
  let here := (Pathname.ofString (toString (← IO.currentDir))).parts
  paths.foldlM (fun t path => do
    match ← readFile? path with
    | some contents => return addFile t path contents
    | none => return t) { here }

/-- Writes the files that a run changed. -/
def writeChanges (before after : FileTree) : IO Unit :=
  (changes before after).forM fun (path, contents) =>
    IO.FS.writeBinFile path.text ⟨contents.toArray⟩

/-- Appends events to the log of the day. -/
def appendEvents (events : List Log.Event) : IO Unit := do
  let now := Std.Time.DateTime.ofTimestamp (← Std.Time.Timestamp.now) .UTC
  let folder := (← IO.getEnv "HOME").getD "." ++ "/.exhaustive-deps/logs"
  IO.FS.createDirAll folder
  let name := folder ++ "/exhaustive-deps-" ++ now.format "uuuu-MM-dd" ++ ".jsonl"
  let log ← IO.FS.Handle.mk name .append
  let timestamp := now.format "uuuu-MM-dd'T'HH:mm:ss.SSSSSSxxx"
  log.putStr (Log.append "" (Log.lines (fun _ => timestamp) events))

/-- The wording of what ends a run. -/
def crashText : CrashCause → String
  | .options e => e.message
  | .source e => e.message
  | .lint e => failureText e

end HookLint.Cli

open HookLint.Cli in
/-- Runs a command and answers with its exit code. -/
def main (words : List String) : IO UInt32 := do
  let feed := Feed.ofLines (← readLines (← IO.getStdin) [])
  let files ← readFiles (lookedAt feed words)
  match run feed.parser files words with
  | .error crash =>
    writeChanges files crash.files
    crash.events.forM appendEvents
    IO.eprintln (crashText crash.cause)
    return 1
  | .ok outcome =>
    writeChanges files outcome.files
    outcome.events.forM appendEvents
    IO.print outcome.output
    outcome.error.forM IO.eprint
    return outcome.exitCode.toUInt32
