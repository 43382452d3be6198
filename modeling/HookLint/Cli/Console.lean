import HookLint.Lint.Summary
import HookLint.Text.Rest

/-!
# Console — reports as text

Each finding is one line: the path, the position, the kind and the message.  A last line gives the
totals.  Lines are written in the markup of a console, which takes words in brackets as tags; texts
from outside are escaped first.

What a console makes of a line is its own matter, so the reports are written for any console.  The
usual one (`Console.standard`) drops tags and control characters, shows pictures in the place of
their names between colons, and widens tabs to the next multiple of eight columns.
-/

namespace HookLint.Cli

open Lint Text

/-! ### Markup -/

/-- A console: how it keeps a text from being taken as markup, and what it shows for a line of
markup. -/
structure Console where
  escape : String → String
  print : String → String

/-- A tag after its opening bracket: a letter or a mark first, and a closing bracket before the next
opening one. -/
def tag? (cs : List Char) : Option (List Char × Less cs) :=
  match cs with
  | c :: t =>
    if c.isLower || c = '#' || c = '/' || c = '@' then
      let r := Rest.dropWhile (fun d => d ≠ '[' && d ≠ ']') t
      (take? ']' r.1).map fun s => (c :: t.takeWhile (fun d => d ≠ '[' && d ≠ ']'),
        (r.shrink s).after c)
    else none
  | [] => none

/-- The characters with their tags escaped; `slashes` is how many backslashes stand before them. -/
def escapeTags (slashes : Nat) : List Char → List Char
  | [] => List.replicate slashes '\\'
  | c :: cs =>
    if c = '\\' then escapeTags (slashes + 1) cs
    else if c = '[' && (tag? cs).isSome then
      List.replicate (2 * slashes + 1) '\\' ++ c :: escapeTags 0 cs
    else List.replicate slashes '\\' ++ c :: escapeTags 0 cs

/-- A text that is not to be taken as markup.  A single backslash at its end is doubled. -/
def escapeMarkup (s : String) : String :=
  let cs := escapeTags 0 s.toList
  match cs.reverse with
  | '\\' :: '\\' :: _ => String.ofList cs
  | '\\' :: _ => String.ofList (cs ++ ['\\'])
  | _ => String.ofList cs

/-- The pieces of plain text between tags; `plain` is the piece that is not ended yet, and `slashes`
is how many backslashes follow it.  Two backslashes before a tag are one; a single one makes the tag
a piece of its own. -/
def pieces (plain : List Char) (slashes : Nat) (cs : List Char) : List (List Char) :=
  let behind := plain ++ List.replicate slashes '\\'
  match cs with
  | [] => [behind]
  | c :: t =>
    if c = '\\' then pieces plain (slashes + 1) t
    else
      match if c = '[' then tag? t else none with
      | some (tag, ⟨r, _hr⟩) =>
        let escaped := if slashes % 2 = 1 then [c :: tag ++ [']']] else []
        plain :: List.replicate (slashes / 2) '\\' :: escaped ++ pieces [] 0 r
      | none => pieces (behind ++ [c]) 0 t
termination_by cs.length

/-- The characters without the backslashes before brackets. -/
def dropBackslashes : List Char → List Char
  | '\\' :: '[' :: cs => '[' :: dropBackslashes cs
  | c :: cs => c :: dropBackslashes cs
  | [] => []

/-- Characters that the console drops. -/
def isDropped (c : Char) : Bool := [7, 8, 11, 12, 13].contains c.toNat

/-- The characters up to a closing colon, and those after it; none if a blank comes first. -/
def colonName? : List Char → Option (List Char × List Char)
  | [] => none
  | c :: cs =>
    if c = ':' then some ([], cs)
    else if c.isWhitespace then none
    else (colonName? cs).map fun r => (c :: r.1, r.2)

theorem colonName?_length {cs name rest : List Char} (h : colonName? cs = some (name, rest)) :
    rest.length < cs.length := by
  induction cs generalizing name with
  | nil => simp [colonName?] at h
  | cons c cs ih =>
    rw [colonName?] at h
    split at h
    · cases h
      simp
    · split at h
      · cases h
      · obtain ⟨⟨n, r⟩, hr, he⟩ := Option.map_eq_some_iff.mp h
        cases he
        exact Nat.lt_succ_of_lt (ih hr)

/-- Shows pictures in the place of their names between colons, from the left to the right. -/
def showPictures (pictures : String → Option String) (cs : List Char) : List Char :=
  match cs with
  | [] => []
  | c :: t =>
    if c = ':' then
      match _h : colonName? t with
      | some (name, rest) =>
        match pictures (String.ofList name) with
        | some picture => picture.toList ++ showPictures pictures rest
        | none => ':' :: name ++ ':' :: showPictures pictures rest
      | none => ':' :: showPictures pictures t
    else c :: showPictures pictures t
termination_by cs.length
decreasing_by
  · have := colonName?_length (by assumption); simp; omega
  · have := colonName?_length (by assumption); simp; omega
  · simp
  · simp

/-- Widens tabs, given the column of the first character. -/
def widenTabs : Nat → List Char → List Char
  | _, [] => []
  | column, c :: cs =>
    if c = '\t' then List.replicate (8 - column % 8) ' ' ++ widenTabs (column + (8 - column % 8)) cs
    else if c = '\n' then c :: widenTabs 0 cs
    else c :: widenTabs (column + 1) cs

/-- The pictures of numbers, which positions in a file may look like. -/
def numberPictures : String → Option String
  | "100" => some "💯"
  | "1234" => some "🔢"
  | _ => none

/-- The usual console, with the given pictures. -/
def Console.standard (pictures : String → Option String := numberPictures) : Console where
  escape := escapeMarkup
  print line :=
    let shown := (pieces [] 0 line.toList).flatMap fun p =>
      showPictures pictures (dropBackslashes p)
    String.ofList (widenTabs 0 (shown.filter fun c => !isDropped c)) ++ "\n"

/-! ### Reports -/

namespace Console

variable (console : Console)

/-- The line of a file that does not parse. -/
def faultLines (r : FileReport) : List String :=
  r.fault.toList.map fun f =>
    console.escape r.path ++ ": [red]parse error[/red] " ++ console.escape f.message

/-- The lines of the findings of a file. -/
def findingLines (r : FileReport) : List String :=
  r.diagnostics.map fun d =>
    console.escape r.path ++ ":" ++ toString d.position.line ++ ":" ++
      toString d.position.column ++ " [yellow]" ++ d.kind.name ++ "[/yellow] " ++
      console.escape d.message

/-- The line of the totals. -/
def totals (s : Summary) : String :=
  let files := " in " ++ toString s.fileCount ++ " file(s)"
  if s.clean then "[green]No problems found[/green]" ++ files ++ "."
  else
    "[bold]" ++ toString s.problemCount ++ " problem(s)[/bold]" ++ files ++
      (if s.fixableCount = 0 then ""
        else ", " ++ toString s.fixableCount ++ " fixable with --fix") ++
      (if s.faultCount = 0 then ""
        else ", " ++ toString s.faultCount ++ " file(s) could not be parsed") ++ "."

/-- The lines of a summary. -/
def lines (s : Summary) : List String :=
  (s.records.flatMap fun r => console.faultLines r.report ++ console.findingLines r.report) ++
    [totals s]

/-- A summary as text. -/
def renderText (s : Summary) : String := String.join ((console.lines s).map console.print)

/-- The line that reports bad input. -/
def errorText (heading message : String) : String :=
  console.print ("[red]" ++ heading ++ "[/red] " ++ console.escape message)

end Console

end HookLint.Cli
