import HookLint.Regex.Basic
import HookLint.Text.Identifier
import HookLint.Text.Rest

/-!
# Regex.Parser — reading regular expressions

Alternatives are divided by `|`; a sequence is made of atoms, each with at most one quantifier.  A
brace that starts no quantifier stands for itself.  Flags for the whole expression stand at its
start; a group may set and clear flags for itself.  While reading, the groups are kept account of: a
reference may only be to a group that is closed, and what looks behind must have one width.

A text is refused at its first fault.  Counts that are too large are a fault of their own; faults of
widths and of conditions are found at the end.
-/

namespace HookLint.Regex

open Text

/-! ### Flags -/

/-- What flags say of an expression. -/
structure Flags where
  mode : Mode := {}
  multiline : Bool := false
  dotAll : Bool := false
  verbose : Bool := false
deriving DecidableEq, Repr

/-- The letters of flags. -/
def flagLetters : List Char := ['i', 'L', 'm', 's', 'x', 'a', 't', 'u']

/-- The flags after some are added and some are cleared. -/
def Flags.change (f : Flags) (added cleared : List Char) : Flags :=
  let after (c : Char) (before : Bool) := (before || added.contains c) && !cleared.contains c
  { mode :=
      { caseless := after 'i' f.mode.caseless
        ascii := added.contains 'a' || (f.mode.ascii && !added.contains 'u') }
    multiline := after 'm' f.multiline
    dotAll := after 's' f.dotAll
    verbose := after 'x' f.verbose }

/-- Whether flags may be given together. -/
def agree (added : List Char) : Bool :=
  !added.contains 'L' && !(added.contains 'a' && added.contains 'u')

/-- Whether a group may add some flags and clear others. -/
def mayChange (added cleared : List Char) : Bool :=
  agree added && !added.contains 't' && cleared.all fun c =>
    !(['a', 'u', 'L', 't'].contains c) && !added.contains c

/-- The letters of flags at the front. -/
def letters (cs : List Char) : List Char × Rest cs :=
  (cs.takeWhile flagLetters.contains, Rest.dropWhile flagLetters.contains cs)

/-- Flags for the whole expression, as in `(?im)`. -/
def wholeFlags? (cs : List Char) : Option (List Char × Less cs) :=
  match cs with
  | '(' :: '?' :: t =>
    let (added, r) := letters t
    match take? ')' r.1 with
    | some s =>
      if added.isEmpty || !agree added then none
      else some (added, ((r.shrink s).after _).after _)
    | none => none
  | _ => none

/-- Flags of a group, as in `(?i-m:`, after the question mark. -/
def groupFlags? (cs : List Char) : Option ((List Char × List Char) × Less cs) :=
  let (added, r) := letters cs
  match take? ':' r.1, take? '-' r.1 with
  | some s, _ => if mayChange added [] then some ((added, []), r.shrink s) else none
  | none, some s =>
    let (cleared, t) := letters s.1
    match take? ':' t.1 with
    | some u =>
      if !cleared.isEmpty && mayChange added cleared then
        some ((added, cleared), r.shrink (s.trans (t.shrink u).le))
      else none
    | none => none
  | none, none => none

/-! ### Groups -/

/-- The account of the groups: their widths once they are closed, their names, how many there were
where looking behind began, the greatest number that a condition asks for, and whether something
that looks behind has several widths. -/
structure Groups where
  widths : List (Option Width) := []
  names : Assoc String Nat := []
  behind : Option Nat := none
  awaited : Nat := 0
  loose : Bool := false
  /-- Whether something is repeated. -/
  repeated : Bool := false

namespace Groups

/-- Opens the next group; none if another one has the name. -/
def open? (g : Groups) (name : Option String) : Option (Nat × Groups) :=
  let number := g.widths.length + 1
  let g := { g with widths := g.widths ++ [none] }
  match name with
  | none => some (number, g)
  | some name =>
    if Assoc.has g.names name then none
    else some (number, { g with names := Assoc.put g.names name number })

/-- Closes a group. -/
def close (g : Groups) (number : Nat) (width : Width) : Groups :=
  { g with widths := g.widths.set (number - 1) (some width) }

/-- The width of a group that is closed. -/
def width? (g : Groups) (number : Nat) : Option Width :=
  if number = 0 then none else (g.widths[number - 1]?).join

/-- Whether what looks behind may refer to a group: one that was closed before it began. -/
def mayRefer (g : Groups) (number : Nat) : Bool :=
  g.behind.all fun before => (g.width? number).isSome && decide (number ≤ before)

/-- The expression for what a group holds. -/
def reference? (g : Groups) (mode : Mode) (number : Nat) : Option Regex :=
  match g.width? number with
  | some width => if g.mayRefer number then some (.same mode number width) else none
  | none => none

end Groups

/-! ### Widths -/

/-- Widths beyond this are not told apart. -/
def widthLimit : Nat := 1 <<< 64

namespace Width

/-- The width of one expression after another. -/
def followedBy (v w : Width) : Width :=
  ⟨min widthLimit (v.least + w.least), min widthLimit (v.most + w.most)⟩

/-- The width of one of two expressions. -/
def or (v w : Width) : Width := ⟨min v.least w.least, max v.most w.most⟩

/-- The width of a repetition. -/
def times (w : Width) (least : Nat) : Option Nat → Width
  | some most => ⟨min widthLimit (w.least * least), min widthLimit (w.most * most)⟩
  | none => ⟨min widthLimit (w.least * least), if w.most = 0 then 0 else widthLimit⟩

end Width

/-- How many characters matches of an expression have. -/
def width : Regex → Width
  | .empty | .anchor _ | .look _ _ _ => ⟨0, 0⟩
  | .any _ | .set _ _ _ => ⟨1, 1⟩
  | .seq r s => (width r).followedBy (width s)
  | .alt r s | .given _ r s => (width r).or (width s)
  | .group _ r | .atomic r => width r
  | .times r least most _ => (width r).times least most
  | .same _ _ w => w

/-! ### Characters and sets -/

section Escapes

-- the characters that have names
variable (named : String → Option Char)

/-- An expression for one character. -/
def literal (mode : Mode) (n : Nat) : Regex := .set mode false [.range n n]

/-- The character that a letter after a backslash stands for. -/
def control? : Char → Option Char
  | 'n' => some '\n'
  | 't' => some '\t'
  | 'r' => some '\r'
  | 'f' => some '\x0c'
  | 'v' => some '\x0b'
  | 'a' => some '\x07'
  | _ => none

/-- The class of characters that a letter after a backslash stands for. -/
def class? : Char → Option Item
  | 'w' => some (.word true)
  | 'W' => some (.word false)
  | 'd' => some (.digit true)
  | 'D' => some (.digit false)
  | 's' => some (.blank true)
  | 'S' => some (.blank false)
  | _ => none

/-- The place that a letter after a backslash stands for. -/
def place? (ascii : Bool) : Char → Option Anchor
  | 'b' => some (.boundary ascii true)
  | 'B' => some (.boundary ascii false)
  | 'A' => some .textStart
  | 'Z' => some .textEnd
  | _ => none

/-- The number of exactly `k` hexadecimal digits, after `n`. -/
def hexDigits? : (k n : Nat) → (cs : List Char) → Option (Nat × Rest cs)
  | 0, n, cs => some (n, Rest.all cs)
  | k + 1, n, c :: t =>
    match hexDigit? c with
    | some d => (hexDigits? k (16 * n + d) t).map fun (m, r) => (m, (r.after c).le)
    | none => none
  | _ + 1, _, [] => none

/-- Whether a character is an octal digit. -/
def isOctal (c : Char) : Bool := decide ('0' ≤ c) && decide (c ≤ '7')

/-- The number of up to `k` octal digits, after `n`. -/
def octalDigits : (k n : Nat) → (cs : List Char) → Nat × Rest cs
  | k + 1, n, c :: t =>
    if isOctal c then
      let (m, r) := octalDigits k (8 * n + decimalNumber [c]) t
      (m, (r.after c).le)
    else (n, Rest.all _)
  | _, n, cs => (n, Rest.all cs)

/-- The characters up to the next `stop`, at least one, and the rest after it. -/
def until? (stop : Char) (cs : List Char) : Option (List Char × Less cs) :=
  let r := Rest.dropWhile (· ≠ stop) cs
  let name := cs.takeWhile (· ≠ stop)
  if name.isEmpty then none else (take? stop r.1).map fun s => (name, r.shrink s)

/-- The code point of an escape by its number or its name, after the backslash. -/
def codeEscape? (cs : List Char) : Option (Nat × Less cs) :=
  match cs with
  | 'x' :: t => (hexDigits? 2 0 t).map fun (n, r) => (n, r.after _)
  | 'u' :: t => (hexDigits? 4 0 t).map fun (n, r) => (n, r.after _)
  | 'U' :: t =>
    match hexDigits? 8 0 t with
    | some (n, r) => if n ≤ 0x10FFFF then some (n, r.after _) else none
    | none => none
  | 'N' :: '\x7b' :: t =>
    match until? '\x7d' t with
    | some (name, r) => (named (String.ofList name)).map fun c => (c.toNat, (r.after _).after _)
    | none => none
  | _ => none

/-- A member of a set that is written with an escape, after the backslash. -/
def memberEscape? (cs : List Char) : Option (Item × Less cs) :=
  match cs with
  | [] => none
  | c :: t =>
    let one (n : Nat) (r : Rest t) : Item × Less (c :: t) := (.range n n, r.after c)
    match class? c, if c = 'b' then some '\x08' else control? c with
    | some item, _ => some (item, (Rest.all t).after c)
    | none, some d => some (one d.toNat (Rest.all t))
    | none, none =>
      if isOctal c then
        let (n, r) := octalDigits 2 (decimalNumber [c]) t
        if n ≤ 0xFF then some (one n r) else none
      else if c.isDigit then none
      else if c.isAlpha then
        (codeEscape? named (c :: t)).map fun (n, r) => (.range n n, r)
      else some (one c.toNat (Rest.all t))

/-- A member of a set: a character, or a class. -/
def member? (cs : List Char) : Option (Item × Less cs) :=
  match cs with
  | '\\' :: t => (memberEscape? named t).map fun (item, r) => (item, r.after _)
  | c :: t => some (.range c.toNat c.toNat, (Rest.all t).after c)
  | [] => none

/-- The range between two members, if both are single characters in order. -/
def rangeOf? : Item → Item → Option Item
  | .range a a', .range b b' => if a = a' ∧ b = b' ∧ a ≤ b then some (.range a b) else none
  | _, _ => none

/-- The members of a set up to its closing bracket.  A bracket in the first place stands for
itself, and so does a hyphen in the last. -/
def members? (first : Bool) (cs : List Char) : Option (List Item × Less cs) :=
  match take? ']' cs, first with
  | some ⟨t, ht⟩, false => some ([], ⟨t, ht⟩)
  | _, _ =>
    match member? named cs with
    | none => none
    | some (item, ⟨r, hr⟩) =>
      match take? '-' r with
      | none =>
        match members? false r with
        | none => none
        | some (items, ⟨u, hu⟩) => some (item :: items, ⟨u, by omega⟩)
      | some ⟨s, hs⟩ =>
        match take? ']' s with
        | some ⟨u, hu⟩ => some ([item, .range '-'.toNat '-'.toNat], ⟨u, by omega⟩)
        | none =>
          match member? named s with
          | none => none
          | some (item', ⟨u, hu⟩) =>
            match rangeOf? item item', members? false u with
            | some range, some (items, ⟨w, hw⟩) => some (range :: items, ⟨w, by omega⟩)
            | _, _ => none
termination_by cs.length

/-- A reference by number, or an octal escape of three digits, after the backslash. -/
def reference? (mode : Mode) (g : Groups) (cs : List Char) : Option (Regex × Less cs) :=
  match cs with
  | c :: d :: e :: t =>
    if isOctal c && isOctal d && isOctal e then
      let n := 64 * decimalNumber [c] + 8 * decimalNumber [d] + decimalNumber [e]
      if n ≤ 0xFF then some (literal mode n, (((Rest.all t).after e).after d).after c) else none
    else short c (d :: e :: t)
  | c :: t => short c t
  | [] => none
where
  short (c : Char) (t : List Char) : Option (Regex × Less (c :: t)) :=
    match t with
    | d :: u =>
      if d.isDigit then
        (g.reference? mode (decimalNumber [c, d])).map fun r => (r, ((Rest.all u).after d).after c)
      else (g.reference? mode (decimalNumber [c])).map fun r => (r, (Rest.all _).after c)
    | [] => (g.reference? mode (decimalNumber [c])).map fun r => (r, (Rest.all _).after c)

/-- What an escape stands for outside of sets, after the backslash. -/
def escapeAtom? (mode : Mode) (g : Groups) (cs : List Char) : Option (Regex × Less cs) :=
  match cs with
  | [] => none
  | c :: t =>
    let one (r : Regex) : Regex × Less (c :: t) := (r, (Rest.all t).after c)
    match place? mode.ascii c, class? c, control? c with
    | some a, _, _ => some (one (.anchor a))
    | none, some item, _ => some (one (.set mode false [item]))
    | none, none, some d => some (one (literal mode d.toNat))
    | none, none, none =>
      if c = '0' then
        let (n, r) := octalDigits 2 0 t
        some (literal mode n, r.after c)
      else if c.isDigit then reference? mode g (c :: t)
      else if c.isAlpha then
        (codeEscape? named (c :: t)).map fun (n, r) => (literal mode n, r)
      else some (one (literal mode c.toNat))

/-- An atom of one character, an escape or a set. -/
def simpleAtom? (f : Flags) (g : Groups) (cs : List Char) : Option (Regex × Less cs) :=
  match cs with
  | '[' :: '^' :: t =>
    (members? named true t).map fun (is, r) => (.set f.mode true is, (r.after _).after _)
  | '[' :: t => (members? named true t).map fun (is, r) => (.set f.mode false is, r.after _)
  | '\\' :: t => (escapeAtom? named f.mode g t).map fun (a, r) => (a, r.after _)
  | '.' :: t => some (.any f.dotAll, (Rest.all t).after _)
  | '^' :: t =>
    some (.anchor (if f.multiline then .lineStart else .textStart), (Rest.all t).after _)
  | '$' :: t =>
    some (.anchor (if f.multiline then .lineEnd else .lastLineEnd), (Rest.all t).after _)
  | c :: t => some (literal f.mode c.toNat, (Rest.all t).after c)
  | [] => none

end Escapes

/-! ### What stands for nothing -/

/-- The rest after a comment in a group, after its number sign. -/
def commentEnd? : (cs : List Char) → Option (Less cs)
  | '\\' :: _ :: t => (commentEnd? t).map fun r => (r.after _).after _
  | c :: t => if c = ')' then some ((Rest.all t).after c) else (commentEnd? t).map (·.after c)
  | [] => none

/-- The rest after a comment up to the end of its line.  A backslash hides what follows it. -/
def lineEnd : (cs : List Char) → Rest cs
  | '\\' :: _ :: t => ((lineEnd t).after _ |>.after _).le
  | ['\\'] => Rest.all _
  | c :: t => if c = '\n' then ((Rest.all t).after c).le else ((lineEnd t).after c).le
  | [] => Rest.all []

/-- The rest after comments, and after blanks if these stand for nothing; none if a comment is not
closed. -/
def skip? (verbose : Bool) (cs : List Char) : Option (Rest cs) :=
  match cs with
  | '(' :: '?' :: '#' :: t =>
    match commentEnd? t with
    | none => none
    | some r => (skip? verbose r.1).map fun s => ((((r.trans s).after _).after _).after _).le
  | c :: t =>
    if verbose && isBlank true c then (skip? verbose t).map fun s => (s.after c).le
    else if verbose && c = '#' then
      let r := lineEnd t
      (skip? verbose r.1).map fun s => ((r.trans s).after c).le
    else some (Rest.all _)
  | [] => some (Rest.all [])
termination_by cs.length
decreasing_by
  · exact (((r.after _).after _).after _).2
  · exact Nat.lt_succ_self _
  · exact (r.after c).2

/-! ### Quantifiers -/

/-- The least count that a quantifier may not have. -/
def countLimit : Nat := 4294967295

/-- The count that digits write.  More digits than a number may have are no count at all. -/
def count (digits : List Char) : Parsed Nat :=
  if digitLimit < digits.length then .error .malformed
  else if countLimit ≤ decimalNumber digits then .error .excessive
  else .ok (decimalNumber digits)

/-- The counts of a quantifier in braces, from the digits of its bounds, if it has them. -/
def counts (least most : List Char) : Parsed (Nat × Option Nat) :=
  match if least.isEmpty then .ok 0 else count least,
    if most.isEmpty then .ok none else (count most).map some with
  | .error e, _ => .error e
  | .ok _, .error e => .error e
  | .ok n, .ok m => if m.all (n ≤ ·) then .ok (n, m) else .error .malformed

/-- The digits of the bounds of a quantifier in braces, after the opening one. -/
def bounds? (cs : List Char) : Option ((List Char × List Char) × Less cs) :=
  let digits (cs : List Char) : List Char × Rest cs :=
    (cs.takeWhile Char.isDigit, Rest.dropWhile Char.isDigit cs)
  let (least, r) := digits cs
  match take? ',' r.1, take? '\x7d' r.1 with
  | some s, _ =>
    let (most, t) := digits s.1
    (take? '\x7d' t.1).map fun u => ((least, most), r.shrink (s.trans (t.shrink u).le))
  | none, some s => if least.isEmpty then none else some ((least, least), r.shrink s)
  | none, none => none

/-- A quantifier at the front.  A backslash at the end of the text is met before its counts are. -/
def quantifier? (cs : List Char) : Option (Parsed (Nat × Option Nat) × Less cs) :=
  match cs with
  | '*' :: t => some (.ok (0, none), (Rest.all t).after _)
  | '+' :: t => some (.ok (1, none), (Rest.all t).after _)
  | '?' :: t => some (.ok (0, some 1), (Rest.all t).after _)
  | '\x7b' :: t =>
    (bounds? t).map fun ((least, most), r) =>
      (if r.1 = ['\\'] then .error .malformed else counts least most, r.after _)
  | _ => none

/-- The mark after a quantifier. -/
def manner (cs : List Char) : Manner × Rest cs :=
  match take? '?' cs, take? '+' cs with
  | some r, _ => (.lazy, r.le)
  | none, some r => (.possessive, r.le)
  | none, none => (.greedy, Rest.all cs)

/-- Whether an expression may be repeated. -/
def repeatable : Regex → Bool
  | .anchor _ => false
  | _ => true

/-- The atom with the quantifier that follows it, if one does, and the rest after comments. -/
def quantified (f : Flags) (atom : Regex) (g : Groups) (cs : List Char) :
    Parsed ((Regex × Groups) × Rest cs) :=
  match skip? f.verbose cs with
  | none => .error .malformed
  | some r =>
    match quantifier? r.1 with
    | none => .ok ((atom, g), r)
    | some (.error e, _) => .error e
    | some (.ok (least, most), s) =>
      if repeatable atom then
        let (m, t) := manner s.1
        .ok ((.times atom least most m, { g with repeated := true }), r.trans (s.trans t).le)
      else .error .malformed

/-! ### Starts of groups -/

/-- How a group starts, after its opening parenthesis. -/
inductive Opening where
  | capture (name : Option String)
  | plain (f : Flags)
  | atomic
  | look (ahead positive : Bool)
  /-- What the group with the given name holds; nothing follows. -/
  | named (name : String)
  | given (number : Nat)

/-- The digits of a whole number, with underscores between them. -/
def separatedDigits? : List Char → Option (List Nat)
  | [] => none
  | [c] => (decimalValue? c).map fun d => [d]
  | c :: '_' :: t => do return (← decimalValue? c) :: (← separatedDigits? t)
  | c :: t => do return (← decimalValue? c) :: (← separatedDigits? t)

/-- The whole number that a text writes; blanks may stand around it, and a plus before it. -/
def wholeNumber? (cs : List Char) : Option Nat :=
  let trimmed := ((cs.dropWhile Text.isBlank).reverse.dropWhile Text.isBlank).reverse
  let digits := if trimmed.head? = some '+' then trimmed.tail else trimmed
  match separatedDigits? digits with
  | some ds => if ds.length ≤ digitLimit then some (ds.foldl (fun n d => 10 * n + d) 0) else none
  | none => none

/-- The name of a group up to a closing mark. -/
def groupName? (stop : Char) (cs : List Char) : Option (String × Less cs) :=
  match until? stop cs with
  | some (name, r) => if isIdentifier name then some (String.ofList name, r) else none
  | none => none

/-- The group that a condition is about, up to its closing parenthesis: by its name or its
number. -/
def condition? (g : Groups) (cs : List Char) : Option ((Nat × Groups) × Less cs) :=
  match until? ')' cs with
  | none => none
  | some (name, r) =>
    if isIdentifier name then
      match Assoc.get? g.names (String.ofList name) with
      | some number => if g.mayRefer number then some ((number, g), r) else none
      | none => none
    else
      match wholeNumber? name with
      | some number =>
        if number ≠ 0 && g.mayRefer number then
          some ((number, { g with awaited := max g.awaited number }), r)
        else none
      | none => none

/-- The start of a group, after a question mark. -/
def markedOpening? (f : Flags) (g : Groups) (cs : List Char) :
    Option ((Opening × Groups) × Less cs) :=
  match cs with
  | 'P' :: '<' :: t =>
    (groupName? '>' t).map fun (name, r) => ((.capture name, g), (r.after _).after _)
  | 'P' :: '=' :: t =>
    (groupName? ')' t).map fun (name, r) => ((.named name, g), (r.after _).after _)
  | ':' :: t => some ((.plain f, g), (Rest.all t).after _)
  | '=' :: t => some ((.look true true, g), (Rest.all t).after _)
  | '!' :: t => some ((.look true false, g), (Rest.all t).after _)
  | '<' :: '=' :: t => some ((.look false true, g), ((Rest.all t).after _).after _)
  | '<' :: '!' :: t => some ((.look false false, g), ((Rest.all t).after _).after _)
  | '>' :: t => some ((.atomic, g), (Rest.all t).after _)
  | '(' :: t => (condition? g t).map fun ((number, g), r) => ((.given number, g), r.after _)
  | cs =>
    (groupFlags? cs).map fun ((added, cleared), r) => ((.plain (f.change added cleared), g), r)

/-- The start of a group, after its opening parenthesis. -/
def opening? (f : Flags) (g : Groups) (cs : List Char) : Option ((Opening × Groups) × Rest cs) :=
  match take? '?' cs with
  | some r => (markedOpening? f g r.1).map fun (o, s) => (o, (r.trans s.le).le)
  | none => some ((.capture none, g), Rest.all cs)

/-! ### Expressions -/

/-- Whether a sequence ends here: at the end, a bar or a closing parenthesis. -/
def endsSequence : List Char → Bool
  | [] => true
  | c :: _ => c = '|' || c = ')'

section Expressions

variable (named : String → Option Char)

mutual

/-- Alternatives, up to the end of the text or a closing parenthesis. -/
def alternatives (f : Flags) (g : Groups) (cs : List Char) : Parsed ((Regex × Groups) × Rest cs) :=
  match sequence f g cs with
  | .error e => .error e
  | .ok ((r, g), ⟨t, ht⟩) =>
    match take? '|' t with
    | none => .ok ((r, g), ⟨t, ht⟩)
    | some ⟨u, hu⟩ =>
      match alternatives f g u with
      | .error e => .error e
      | .ok ((s, g), ⟨w, hw⟩) => .ok ((.alt r s, g), ⟨w, by omega⟩)
termination_by 5 * cs.length + 3

/-- A sequence of atoms with their quantifiers. -/
def sequence (f : Flags) (g : Groups) (cs : List Char) : Parsed ((Regex × Groups) × Rest cs) :=
  match skip? f.verbose cs with
  | none => .error .malformed
  | some ⟨r, hr⟩ =>
    if endsSequence r then .ok ((.empty, g), ⟨r, hr⟩)
    else
      match quantifier? r with
      | some (.error e, _) => .error e
      | some (.ok _, _) => .error .malformed
      | none =>
        match atom f g r with
        | .error e => .error e
        | .ok ((a, g), ⟨t, ht⟩) =>
          match quantified f a g t with
          | .error e => .error e
          | .ok ((q, g), ⟨u, hu⟩) =>
            match sequence f g u with
            | .error e => .error e
            | .ok ((s, g), ⟨w, hw⟩) => .ok ((.seq q s, g), ⟨w, by omega⟩)
termination_by 5 * cs.length + 2

/-- A group, or a simple atom. -/
def atom (f : Flags) (g : Groups) (cs : List Char) : Parsed ((Regex × Groups) × Less cs) :=
  match take? '(' cs with
  | none => .ofOption ((simpleAtom? named f g cs).map fun (a, r) => ((a, g), r))
  | some ⟨t, ht⟩ =>
    match opening? f g t with
    | none => .error .malformed
    | some ((o, g), ⟨u, hu⟩) =>
      match groupBody f g o u with
      | .error e => .error e
      | .ok (a, ⟨w, hw⟩) => .ok (a, ⟨w, by omega⟩)
termination_by 5 * cs.length

/-- The rest of a group that starts in the given way, up to its closing parenthesis. -/
def groupBody (f : Flags) (g : Groups) (o : Opening) (cs : List Char) :
    Parsed ((Regex × Groups) × Rest cs) :=
  let closed (g : Groups) (r : Regex) (w : List Char) (hw : w.length ≤ cs.length) :
      Parsed ((Regex × Groups) × Rest cs) :=
    match take? ')' w with
    | some ⟨x, hx⟩ => .ok ((r, g), ⟨x, by omega⟩)
    | none => .error .malformed
  match o with
  | .named name =>
    match (Assoc.get? g.names name).bind (g.reference? f.mode) with
    | some r => .ok ((r, g), Rest.all cs)
    | none => .error .malformed
  | .capture name =>
    match g.open? name with
    | none => .error .malformed
    | some (number, g) =>
      match alternatives f g cs with
      | .error e => .error e
      | .ok ((r, g), ⟨w, hw⟩) => closed (g.close number (width r)) (.group (some number) r) w hw
  | .plain inner =>
    match alternatives inner g cs with
    | .error e => .error e
    | .ok ((r, g), ⟨w, hw⟩) => closed g (.group none r) w hw
  | .atomic =>
    match alternatives f g cs with
    | .error e => .error e
    | .ok ((r, g), ⟨w, hw⟩) => closed g (.atomic r) w hw
  | .look true positive =>
    match alternatives f g cs with
    | .error e => .error e
    | .ok ((r, g), ⟨w, hw⟩) => closed g (.look 0 positive r) w hw
  | .look false positive =>
    -- the outermost of nested ones that look behind sets which groups they may refer to
    let outer := g.behind
    match alternatives f { g with behind := some (outer.getD g.widths.length) } cs with
    | .error e => .error e
    | .ok ((r, g), ⟨w, hw⟩) =>
      let back := (width r).least
      let loose := g.loose || back ≠ (width r).most || decide (countLimit < back)
      closed { g with behind := outer, loose } (.look back positive r) w hw
  | .given number =>
    match sequence f g cs with
    | .error e => .error e
    | .ok ((r, g), ⟨w, hw⟩) =>
      match take? '|' w with
      | none => closed g (.given number r .empty) w hw
      | some ⟨x, hx⟩ =>
        match sequence f g x with
        | .error e => .error e
        | .ok ((s, g), ⟨y, hy⟩) => closed g (.given number r s) y (by omega)
termination_by 5 * cs.length + 4

end

/-- The flags for the whole expression at its start, with their letters, and the rest after them. -/
def preamble (f : Flags) (added : List Char) (cs : List Char) :
    Option ((Flags × List Char) × List Char) :=
  match skip? f.verbose cs with
  | none => none
  | some ⟨r, _hr⟩ =>
    match wholeFlags? r with
    | none => some ((f, added), r)
    | some (more, ⟨s, _hs⟩) => preamble (f.change more []) (added ++ more) s
termination_by cs.length

/-- The search for the pattern that a text writes. -/
def compile (source : String) : Parsed (String → Bool) :=
  match preamble {} [] source.toList with
  | none => .error .malformed
  | some ((f, added), cs) =>
    match alternatives named f {} cs with
    | .ok ((r, g), ⟨[], _⟩) =>
      if !agree added || g.loose || decide (g.widths.length < g.awaited) ||
        (g.repeated && added.contains 't') then .error .malformed
      else .ok r.search
    | .ok _ => .error .malformed
    | .error e => .error e

end Expressions

end HookLint.Regex
