/-!
# Arguments — the command line

Options are words that start with a hyphen.  An option takes its value from the same word, after an
equals sign, or from the next one.  Of repeated options the last counts.  Two hyphens end the
options.  Everything else is a path.
-/

namespace HookLint.Cli

/-- How a report is written. -/
inductive Format where
  | text | json
deriving DecidableEq, Repr

/-- The arguments of the check command. -/
structure CheckArguments where
  paths : List String
  config : Option String
  fix : Bool
  format : Format
  checkMemoized : Option Bool
  additionalHooks : Option String
  log : Bool
deriving DecidableEq, Repr

/-- A command with its arguments. -/
inductive Command where
  | check (a : CheckArguments)
  | config (file : Option String)
deriving DecidableEq, Repr

/-- Words sorted into options with their values and all else. -/
structure Words where
  options : List (String × String) := []
  others : List String := []

/-- Whether a word is an option. -/
def isOption (word : String) : Bool :=
  match word.toList with
  | '-' :: _ :: _ => true
  | _ => false

/-- The name of an option and the value in the same word, if there is one. -/
def splitOption (word : String) : String × Option String :=
  let name := word.toList.takeWhile (· ≠ '=')
  match word.toList.dropWhile (· ≠ '=') with
  | _ :: value => (String.ofList name, some (String.ofList value))
  | [] => (word, none)

/-- Sorts words, given the names of options with values and of those without.  There is no result
if an option is unknown, lacks its value or has one too many. -/
def sortWords (valued flags : List String) : List String → Option Words
  | [] => some {}
  | word :: rest =>
    if word = "--" then some { others := rest }
    else if isOption word then
      match splitOption word with
      | (name, some value) =>
        if valued.contains name then
          (sortWords valued flags rest).map fun w =>
            { w with options := (name, value) :: w.options }
        else none
      | (name, none) =>
        if flags.contains name then
          (sortWords valued flags rest).map fun w => { w with options := (name, "") :: w.options }
        else if valued.contains name then
          match rest with
          | value :: rest =>
            (sortWords valued flags rest).map fun w =>
              { w with options := (name, value) :: w.options }
          | [] => none
        else none
    else (sortWords valued flags rest).map fun w => { w with others := word :: w.others }

/-- The last value of an option. -/
def Words.last? (w : Words) (name : String) : Option String :=
  (w.options.reverse.find? fun o => o.1 = name).map Prod.snd

/-- Whether a flag is given. -/
def Words.has (w : Words) (name : String) : Bool := w.options.any fun o => o.1 = name

/-- Which of a flag and its opposite is given last. -/
def Words.switch? (w : Words) (yes no : String) : Option Bool :=
  (w.options.reverse.find? fun o => o.1 = yes || o.1 = no).map fun o => o.1 = yes

/-- The format with the given name. -/
def Format.ofName? : String → Option Format
  | "text" => some .text
  | "json" => some .json
  | _ => none

/-- The arguments of the check command; at least one path. -/
def checkArguments? (words : List String) : Option CheckArguments := do
  let w ← sortWords ["--config", "--format", "--additional-hooks"]
    ["--fix", "--log", "--check-memoized-static", "--no-check-memoized-static"] words
  let format ← Format.ofName? ((w.last? "--format").getD "text")
  if w.others.isEmpty then none
  else
    some {
      paths := w.others
      config := w.last? "--config"
      fix := w.has "--fix"
      format
      checkMemoized := w.switch? "--check-memoized-static" "--no-check-memoized-static"
      additionalHooks := w.last? "--additional-hooks"
      log := w.has "--log" }

/-- The arguments of the config command, which takes no paths. -/
def configArguments? (words : List String) : Option Command := do
  let w ← sortWords ["--config"] [] words
  if w.others.isEmpty then some (.config (w.last? "--config")) else none

/-- The command that words write. -/
def Command.ofWords? : List String → Option Command
  | [] => none
  | word :: rest =>
    if word = "check" then (checkArguments? rest).map .check
    else if word = "config" then configArguments? rest
    else if word = "--" then
      match rest with
      | "check" :: rest => (checkArguments? rest).map .check
      | "config" :: rest => configArguments? rest
      | _ => none
    else none

end HookLint.Cli
