import HookLint.Data.Value
import HookLint.Text.Rest

/-!
# Toml.Scalar — keys, strings, numbers and dates

The lexical part of TOML.  Strings come in four forms: basic ones take escapes, literal ones do not,
and both may span lines.  Numbers may have underscores between digits.  Dates and times are checked
and kept as text.  A decimal whole number with too many digits ends the reading.
-/

namespace HookLint.Toml

open Text

/-- Control characters other than tabs; no string or comment holds them. -/
def isControl (c : Char) : Bool := (c.toNat < 0x20 && c ≠ '\t') || c.toNat = 0x7F

/-- White space within a line. -/
def isSpace (c : Char) : Bool := c = ' ' || c = '\t'

/-- Characters of keys that need no quotes. -/
def isBareKey (c : Char) : Bool := c.isAlphanum || c = '-' || c = '_'

/-- The rest after white space within the line. -/
def skipSpace (cs : List Char) : Rest cs := Rest.dropWhile isSpace cs

/-- The rest after a comment, if one stands here; none if it holds a control character. -/
def skipComment? (cs : List Char) : Option (Rest cs) :=
  match cs with
  | '#' :: t =>
    if (t.takeWhile (· ≠ '\n')).any isControl then none
    else some ((Rest.dropWhile (· ≠ '\n') t).after '#').le
  | cs => some (Rest.all cs)

/-! ### Strings -/

/-- The character of a one-letter escape. -/
def escape? : Char → Option Char
  | 'b' => some '\x08'
  | 't' => some '\t'
  | 'n' => some '\n'
  | 'f' => some '\x0c'
  | 'r' => some '\r'
  | '"' => some '"'
  | '\\' => some '\\'
  | _ => none

/-- The character that hexadecimal digits name. -/
def scalar? (digits : List Char) : Option Char := do
  let n ← hexNumber? digits
  if n.isValidChar then some (Char.ofNat n) else none

/-- The character of an escape, after its backslash. -/
def escapeChar? (cs : List Char) : Option (Char × Less cs) :=
  match cs with
  | 'u' :: a :: b :: c :: d :: t =>
    (scalar? [a, b, c, d]).map fun x => (x, ⟨t, by simp; omega⟩)
  | 'U' :: a :: b :: c :: d :: e :: f :: g :: h :: t =>
    (scalar? [a, b, c, d, e, f, g, h]).map fun x => (x, ⟨t, by simp; omega⟩)
  | e :: t => (escape? e).map fun x => (x, (Rest.all t).after e)
  | [] => none

/-- A basic string, after its opening quote. -/
def basic? (cs : List Char) : Option (List Char × Less cs) :=
  match cs with
  | [] => none
  | c :: t =>
    if c = '"' then some ([], (Rest.all t).after c)
    else if c = '\\' then
      match escapeChar? t with
      | none => none
      | some (x, ⟨r, hr⟩) =>
        match basic? r with
        | none => none
        | some (xs, ⟨s, hs⟩) =>
          some (x :: xs, ⟨s, Nat.lt_succ_of_lt (Nat.lt_trans hs hr)⟩)
    else if isControl c then none
    else
      match basic? t with
      | none => none
      | some (xs, s) => some (c :: xs, s.after c)
termination_by cs.length
decreasing_by
  · exact Nat.lt_succ_of_lt hr
  · exact Nat.lt_succ_self _

/-- A literal string, after its opening quote. -/
def literal? : (cs : List Char) → Option (List Char × Less cs)
  | [] => none
  | c :: t =>
    if c = '\x27' then some ([], (Rest.all t).after c)
    else if isControl c then none
    else (literal? t).map fun (xs, r) => (c :: xs, r.after c)

/-- The rest after three quotes, if they stand here. -/
def triple? (quote : Char) (cs : List Char) : Option (Less cs) :=
  match cs with
  | a :: b :: c :: t =>
    if a = quote ∧ b = quote ∧ c = quote then some ⟨t, by simp; omega⟩ else none
  | _ => none

/-- The rest after a backslash at the end of a line: the line end and all white space after it. -/
def lineJoin? (cs : List Char) : Option (Less cs) :=
  match skipSpace cs with
  | ⟨'\n' :: t, h⟩ =>
    let r := Rest.dropWhile (fun c => isSpace c || c = '\n') t
    some ⟨r.1, by have := r.2; simp at h; omega⟩
  | _ => none

/-- A basic string over several lines, after its opening quotes. -/
def multiBasic? (cs : List Char) : Option (List Char × Less cs) :=
  match triple? '"' cs with
  | some r => some ([], r)
  | none =>
    match cs with
    | [] => none
    | c :: t =>
      if c = '\\' then
        match lineJoin? t, escapeChar? t with
        | some ⟨r, hr⟩, _ =>
          match multiBasic? r with
          | none => none
          | some (xs, ⟨s, hs⟩) => some (xs, ⟨s, Nat.lt_succ_of_lt (Nat.lt_trans hs hr)⟩)
        | none, some (x, ⟨r, hr⟩) =>
          match multiBasic? r with
          | none => none
          | some (xs, ⟨s, hs⟩) =>
            some (x :: xs, ⟨s, Nat.lt_succ_of_lt (Nat.lt_trans hs hr)⟩)
        | none, none => none
      else if isControl c ∧ c ≠ '\n' then none
      else
        match multiBasic? t with
        | none => none
        | some (xs, s) => some (c :: xs, s.after c)
termination_by cs.length
decreasing_by
  · exact Nat.lt_succ_of_lt hr
  · exact Nat.lt_succ_of_lt hr
  · exact Nat.lt_succ_self _

/-- A literal string over several lines, after its opening quotes. -/
def multiLiteral? : (cs : List Char) → Option (List Char × Less cs)
  | [] => none
  | c :: t =>
    match triple? '\x27' (c :: t) with
    | some r => some ([], r)
    | none =>
      if isControl c ∧ c ≠ '\n' then none
      else (multiLiteral? t).map fun (xs, r) => (c :: xs, r.after c)

/-- Up to two quotes that belong to the string before the closing ones. -/
def extraQuotes (quote : Char) (cs : List Char) : List Char × Rest cs :=
  match take? quote cs with
  | none => ([], Rest.all cs)
  | some r =>
    match take? quote r.1 with
    | none => ([quote], r.le)
    | some s => ([quote, quote], (r.trans s.le).le)

/-- A string over several lines, after its opening quotes.  A line end right after them is
dropped. -/
def multi? (quote : Char) (cs : List Char) : Option (String × Less cs) :=
  let start : Rest cs :=
    match take? '\n' cs with
    | some r => r.le
    | none => Rest.all cs
  let body := if quote = '"' then multiBasic? start.1 else multiLiteral? start.1
  body.map fun (xs, r) =>
    let (more, s) := extraQuotes quote r.1
    (String.ofList (xs ++ more), start.shrink (r.trans s))

/-- A string on one line. -/
def lineString? (cs : List Char) : Option (String × Less cs) :=
  match cs with
  | '"' :: t => (basic? t).map fun (xs, r) => (String.ofList xs, r.after _)
  | '\x27' :: t => (literal? t).map fun (xs, r) => (String.ofList xs, r.after _)
  | _ => none

/-- A string. -/
def string? (cs : List Char) : Option (String × Less cs) :=
  match triple? '"' cs, triple? '\x27' cs with
  | some r, _ => (multi? '"' r.1).map fun (s, t) => (s, r.trans t.le)
  | none, some r => (multi? '\x27' r.1).map fun (s, t) => (s, r.trans t.le)
  | none, none => lineString? cs

/-! ### Keys -/

/-- One part of a key: bare, or a string on one line. -/
def keyPart? (cs : List Char) : Option (String × Less cs) :=
  match cs with
  | c :: t =>
    if isBareKey c then
      some (String.ofList (c :: t.takeWhile isBareKey), (Rest.dropWhile isBareKey t).after c)
    else lineString? (c :: t)
  | [] => none

/-- A dotted key, with the white space after it. -/
def key? (cs : List Char) : Option (List String × Less cs) :=
  match keyPart? cs with
  | none => none
  | some (k, ⟨r, hr⟩) =>
    match skipSpace r with
    | ⟨s, hs⟩ =>
      match take? '.' s with
      | none => some ([k], ⟨s, Nat.lt_of_le_of_lt hs hr⟩)
      | some ⟨t, ht⟩ =>
        match skipSpace t with
        | ⟨u, hu⟩ =>
          have hlt : u.length < cs.length :=
            Nat.lt_of_le_of_lt hu (Nat.lt_trans ht (Nat.lt_of_le_of_lt hs hr))
          match key? u with
          | none => none
          | some (ks, ⟨w, hw⟩) => some (k :: ks, ⟨w, Nat.lt_trans hw hlt⟩)
termination_by cs.length

/-! ### Numbers -/

/-- More digits of a number; an underscore may stand before each. -/
def moreDigits (p : Char → Bool) : (cs : List Char) → List Char × Rest cs
  | '_' :: d :: t =>
    if p d then
      let (ds, r) := moreDigits p t
      (d :: ds, ((r.after d).after '_').le)
    else ([], Rest.all _)
  | d :: t =>
    if p d then
      let (ds, r) := moreDigits p t
      (d :: ds, (r.after d).le)
    else ([], Rest.all _)
  | [] => ([], Rest.all _)

/-- One or more digits. -/
def someDigits? (p : Char → Bool) (cs : List Char) : Option (List Char × Less cs) :=
  match cs with
  | d :: t =>
    if p d then
      let (ds, r) := moreDigits p t
      some (d :: ds, r.after d)
    else none
  | [] => none

/-- The number that digits write in a base up to sixteen. -/
def numberIn (base : Nat) (digits : List Char) : Nat :=
  digits.foldl (fun n c => base * n + (hexDigit? c).getD 0) 0

/-- A number in base sixteen, eight or two, after its leading zero. -/
def based? (cs : List Char) : Option (Value × Less cs) :=
  let read (base : Nat) (p : Char → Bool) (t : List Char) : Option (Value × Less t) :=
    (someDigits? p t).map fun (ds, r) => (.int (numberIn base ds), r)
  match cs with
  | 'x' :: t => (read 16 (fun c => (hexDigit? c).isSome) t).map fun (v, r) => (v, r.after _)
  | 'o' :: t => (read 8 (fun c => '0' ≤ c && c ≤ '7') t).map fun (v, r) => (v, r.after _)
  | 'b' :: t => (read 2 (fun c => c = '0' || c = '1') t).map fun (v, r) => (v, r.after _)
  | _ => none

/-- The digits of a fraction, after the integer part. -/
def fraction (cs : List Char) : List Char × Rest cs :=
  match take? '.' cs with
  | none => ([], Rest.all cs)
  | some r =>
    match someDigits? Char.isDigit r.1 with
    | none => ([], Rest.all cs)
    | some (ds, s) => (ds, (r.trans s.le).le)

/-- A sign, if one stands here: whether it is a minus, and the rest. -/
def sign (cs : List Char) : Bool × Rest cs :=
  match take? '-' cs, take? '+' cs with
  | some r, _ => (true, r.le)
  | none, some r => (false, r.le)
  | none, none => (false, Rest.all cs)

/-- An exponent, after the digits. -/
def exponent (cs : List Char) : Option Int × Rest cs :=
  match take? 'e' cs <|> take? 'E' cs with
  | none => (none, Rest.all cs)
  | some r =>
    let (negative, s) := sign r.1
    match someDigits? Char.isDigit s.1 with
    | none => (none, Rest.all cs)
    | some (ds, t) =>
      let n : Int := decimalNumber ds
      (some (if negative then -n else n), (r.trans (s.trans t.le)).le)

/-- The integer part of a decimal number: a zero alone, or digits that start with none. -/
def wholePart? (cs : List Char) : Option (List Char × Less cs) :=
  match take? '0' cs with
  | some r => some (['0'], r)
  | none => someDigits? Char.isDigit cs

/-- A decimal number with a sign, a fraction and an exponent, if it has them. -/
def decimal (cs : List Char) : Parsed (Value × Less cs) :=
  let (negative, s) := sign cs
  match wholePart? s.1 with
  | none => .error .malformed
  | some (whole, r) =>
    let (ds, t) := fraction r.1
    let (e, u) := exponent t.1
    let signed := fun n : Nat => if negative then -(n : Int) else n
    let rest := s.shrink (r.trans (t.trans u))
    if ds.isEmpty ∧ e.isNone then
      (wholeNumber whole).map fun n => (.int (signed n), rest)
    else .ok (.decimal (signed (decimalNumber (whole ++ ds))) (e.getD 0 - ds.length), rest)

/-- A number in any base. -/
def number (cs : List Char) : Parsed (Value × Less cs) :=
  match take? '0' cs with
  | some r =>
    match based? r.1 with
    | some (v, s) => .ok (v, r.trans s.le)
    | none => decimal cs
  | none => decimal cs

/-- Infinity or not-a-number, with a sign or without. -/
def unbounded? (cs : List Char) : Option (Value × Less cs) :=
  let (_, s) := sign cs
  let word (a b c : Char) : Option (Less cs) := do
    let r ← take? a s.1
    let t ← take? b r.1
    let u ← take? c t.1
    some (s.shrink (r.trans (t.trans u.le).le))
  ((word 'i' 'n' 'f').map fun r => (.mark "inf", r)) <|>
    (word 'n' 'a' 'n').map fun r => (.mark "nan", r)

/-! ### Dates and times -/

/-- The number of two digits. -/
def two? (a b : Char) : Option Nat :=
  if a.isDigit ∧ b.isDigit then some (decimalNumber [a, b]) else none

/-- The days of a month. -/
def daysIn (year month : Nat) : Nat :=
  if month = 2 then
    if year % 4 = 0 ∧ (year % 100 ≠ 0 ∨ year % 400 = 0) then 29 else 28
  else if [4, 6, 9, 11].contains month then 30
  else 31

/-- Whether the characters write a day, as in `1979-05-27`. -/
def isDay : List Char → Bool
  | [a, b, c, d, '-', e, f, '-', g, h] =>
    match two? a b, two? c d, two? e f, two? g h with
    | some century, some years, some month, some day =>
      let year := 100 * century + years
      decide (1 ≤ year) && decide (1 ≤ month) && decide (month ≤ 12) && decide (1 ≤ day) &&
        decide (day ≤ daysIn year month)
    | _, _, _, _ => false
  | _ => false

/-- Whether two pairs of digits write hours and minutes. -/
def isClock (a b c d : Char) : Bool :=
  (two? a b).any (· < 24) && (two? c d).any (· < 60)

/-- Whether the characters write a time, as in `07:32:00.5`. -/
def isTime : List Char → Bool
  | a :: b :: ':' :: c :: d :: ':' :: e :: f :: rest =>
    isClock a b c d && (two? e f).any (· < 60) &&
      match rest with
      | [] => true
      | '.' :: x :: xs => (x :: xs).all Char.isDigit
      | _ => false
  | _ => false

/-- Whether the characters write a time with an offset, if they have one. -/
def isOffsetTime (cs : List Char) : Bool :=
  isTime cs || (cs.getLast?.any (fun c => c = 'Z' || c = 'z') && isTime cs.dropLast) ||
    match cs.reverse with
    | d :: c :: ':' :: b :: a :: s :: rest =>
      (s = '+' || s = '-') && isClock a b c d && isTime rest.reverse
    | _ => false

/-- Characters of dates and times. -/
def isMomentChar (c : Char) : Bool := c.isAlphanum || c = ':' || c = '-' || c = '+' || c = '.'

/-- Whether the characters write a day, a time, or a day and a time with a letter between them. -/
def isMoment (cs : List Char) : Bool :=
  isDay cs || isTime cs ||
    (isDay (cs.take 10) && ((cs.drop 10).head?.any fun c => c = 'T' || c = 't') &&
      isOffsetTime (cs.drop 11))

/-- A date, a time, or both; a blank may stand between them. -/
def moment? (cs : List Char) : Option (Value × Less cs) :=
  match cs with
  | c :: t =>
    let word := c :: t.takeWhile isMomentChar
    let r := Rest.dropWhile isMomentChar t
    if !c.isDigit then none
    else if isDay word then
      match take? ' ' r.1 with
      | none => some (.mark (String.ofList word), r.after c)
      | some s =>
        let time := s.1.takeWhile isMomentChar
        if isOffsetTime time then
          some (.mark (String.ofList (word ++ ' ' :: time)),
            (r.trans (s.trans (Rest.dropWhile isMomentChar s.1)).le).after c)
        else some (.mark (String.ofList word), r.after c)
    else if isMoment word then some (.mark (String.ofList word), r.after c)
    else none
  | [] => none

/-- A value that is no array or table. -/
def scalarValue (cs : List Char) : Parsed (Value × Less cs) :=
  match cs with
  | 't' :: 'r' :: 'u' :: 'e' :: t => .ok (.bool true, ⟨t, by simp; omega⟩)
  | 'f' :: 'a' :: 'l' :: 's' :: 'e' :: t => .ok (.bool false, ⟨t, by simp; omega⟩)
  | c :: t =>
    if c = '"' ∨ c = '\x27' then .ofOption ((string? (c :: t)).map fun (s, r) => (.string s, r))
    else
      match moment? (c :: t) <|> unbounded? (c :: t) with
      | some found => .ok found
      | none => number (c :: t)
  | [] => .error .malformed

end HookLint.Toml
