import HookLint.Data.Value
import HookLint.Text.Rest

/-!
# Json.Reader — reading JSON text

The grammar is that of JSON, with `NaN`, `Infinity` and `-Infinity` as numbers.  A string may not
hold control characters.  Of two members with one name the later counts, in the place of the
earlier.  Two `\u` escapes that form a surrogate pair are one character; a surrogate on its own is
read as the replacement character.  A whole number with too many digits ends the reading.
-/

namespace HookLint.Json

open Text

/-- White space between tokens. -/
def isBlank (c : Char) : Bool := c = ' ' || c = '\t' || c = '\n' || c = '\r'

/-- The code point of a one-letter escape. -/
def escape? : Char → Option Nat
  | '"' => some 0x22
  | '\\' => some 0x5C
  | '/' => some 0x2F
  | 'b' => some 0x08
  | 'f' => some 0x0C
  | 'n' => some 0x0A
  | 'r' => some 0x0D
  | 't' => some 0x09
  | _ => none

/-- The code points and surrogates of a string, read up to its closing quote. -/
def units? : (cs : List Char) → Option (List Nat × Less cs)
  | [] => none
  | '"' :: cs => some ([], (Rest.all cs).after '"')
  | '\\' :: 'u' :: a :: b :: c :: d :: cs => do
    let n ← hexNumber? [a, b, c, d]
    let (ns, r) ← units? cs
    some (n :: ns, (((((r.after d).after c).after b).after a).after 'u').after '\\')
  | '\\' :: e :: cs => do
    let n ← escape? e
    let (ns, r) ← units? cs
    some (n :: ns, (r.after e).after '\\')
  | c :: cs =>
    if c.toNat < 0x20 ∨ c = '\\' then none else do
      let (ns, r) ← units? cs
      some (c.toNat :: ns, r.after c)

/-- Joins surrogate pairs; a surrogate on its own becomes the replacement character. -/
def joinSurrogates : List Nat → List Char
  | [] => []
  | [n] => [scalar n]
  | hi :: lo :: ns =>
    if 0xD800 ≤ hi ∧ hi < 0xDC00 ∧ 0xDC00 ≤ lo ∧ lo < 0xE000 then
      Char.ofNat (0x10000 + (hi - 0xD800) * 0x400 + (lo - 0xDC00)) :: joinSurrogates ns
    else scalar hi :: joinSurrogates (lo :: ns)
where
  scalar (n : Nat) : Char := if 0xD800 ≤ n ∧ n < 0xE000 then '\uFFFD' else Char.ofNat n

/-- A string after its opening quote. -/
def string? (cs : List Char) : Option (String × Less cs) := do
  let (ns, r) ← units? cs
  some (String.ofList (joinSurrogates ns), r)

/-- The digits at the front, with the rest. -/
def digits (cs : List Char) : List Char × Rest cs :=
  (cs.takeWhile Char.isDigit, Rest.dropWhile Char.isDigit cs)

/-- A fraction: a point with at least one digit after it. -/
def fraction (cs : List Char) : List Char × Rest cs :=
  match cs with
  | '.' :: d :: t =>
    if d.isDigit then
      let (ds, r) := digits t
      (d :: ds, ((r.after d).after '.').le)
    else ([], Rest.all _)
  | _ => ([], Rest.all _)

/-- An exponent: the letter, a sign if any, and at least one digit. -/
def exponent (cs : List Char) : Option Int × Rest cs :=
  match cs with
  | e :: d :: t =>
    if e = 'e' ∨ e = 'E' then
      if d.isDigit then
        let (ds, r) := digits t
        (some (decimalNumber (d :: ds)), ((r.after d).after e).le)
      else match t with
        | d' :: t' =>
          if (d = '+' ∨ d = '-') ∧ d'.isDigit then
            let (ds, r) := digits t'
            let n : Int := decimalNumber (d' :: ds)
            (some (if d = '-' then -n else n), (((r.after d').after d).after e).le)
          else (none, Rest.all _)
        | [] => (none, Rest.all _)
    else (none, Rest.all _)
  | _ => (none, Rest.all _)

/-- What follows the digits of the integer part `whole`, and the number they make together. -/
def numberTail (negative : Bool) (whole : List Char) (cs : List Char) : Parsed (Value × Rest cs) :=
  let (ds, r) := fraction cs
  let (e, s) := exponent r.1
  let signed := fun n : Nat => if negative then -(n : Int) else n
  if ds.isEmpty ∧ e.isNone then
    (wholeNumber whole).map fun n => (.int (signed n), r.trans s)
  else .ok (.decimal (signed (decimalNumber (whole ++ ds))) (e.getD 0 - ds.length), r.trans s)

/-- A number without its sign.  No digit follows a leading zero. -/
def number (negative : Bool) (cs : List Char) : Parsed (Value × Less cs) :=
  match cs with
  | c :: t =>
    if c = '0' then (numberTail negative ['0'] t).map fun (v, r) => (v, r.after c)
    else if c.isDigit then
      let (ds, r) := digits t
      (numberTail negative (c :: ds) r.1).map fun (v, s) => (v, (r.trans s).after c)
    else .error .malformed
  | [] => .error .malformed

/-- The rest after the letters of `word`, if they stand at the front. -/
def word? (word : List Char) (cs : List Char) : Option (Rest cs) :=
  match word, cs with
  | [], cs => some (Rest.all cs)
  | w :: ws, c :: t => if w = c then (word? ws t).map fun r => (r.after c).le else none
  | _ :: _, [] => none

/-- A value that is no array or object: a word, a number or a string. -/
def scalar (cs : List Char) : Parsed (Value × Less cs) :=
  match cs with
  | [] => .error .malformed
  | c :: t =>
    match c with
    | '"' => .ofOption ((string? t).map fun (s, r) => (.string s, r.after _))
    | 'n' => .ofOption ((word? ['u', 'l', 'l'] t).map fun r => (.null, r.after _))
    | 't' => .ofOption ((word? ['r', 'u', 'e'] t).map fun r => (.bool true, r.after _))
    | 'f' => .ofOption ((word? ['a', 'l', 's', 'e'] t).map fun r => (.bool false, r.after _))
    | 'N' => .ofOption ((word? ['a', 'N'] t).map fun r => (.mark "NaN", r.after _))
    | 'I' => .ofOption ((word? "nfinity".toList t).map fun r => (.mark "Infinity", r.after _))
    | '-' =>
      match word? "Infinity".toList t with
      | some r => .ok (.mark "-Infinity", r.after _)
      | none => (number true t).map fun (v, r) => (v, r.after _)
    | c => number false (c :: t)

/-- The rest after white space. -/
def skip (cs : List Char) : Rest cs := Rest.dropWhile isBlank cs

/-- The name of a member, with the colon after it and the white space around that. -/
def member? (cs : List Char) : Option (String × Less cs) := do
  let q ← take? '"' cs
  let (name, r) ← string? q.1
  let colon ← take? ':' (skip r.1).1
  some (name, ((q.le.shrink r).trans (skip r.1)).trans (colon.trans (skip colon.1)).le)

mutual

/-- A value, without white space before it. -/
def value (cs : List Char) : Parsed (Value × Less cs) :=
  match take? '[' cs, take? '\x7b' cs with
  | some ⟨t, ht⟩, _ =>
    match skip t with
    | ⟨u, hu⟩ =>
      match take? ']' u with
      | some ⟨r, hr⟩ => .ok (.array [], ⟨r, by omega⟩)
      | none =>
        match items u with
        | .error e => .error e
        | .ok (vs, ⟨r, hr⟩) => .ok (.array vs, ⟨r, by omega⟩)
  | none, some ⟨t, ht⟩ =>
    match skip t with
    | ⟨u, hu⟩ =>
      match take? '\x7d' u with
      | some ⟨r, hr⟩ => .ok (.object [], ⟨r, by omega⟩)
      | none =>
        match members u with
        | .error e => .error e
        | .ok (ms, ⟨r, hr⟩) => .ok (.object (Assoc.ofList ms), ⟨r, by omega⟩)
  | none, none => scalar cs
termination_by 2 * cs.length

/-- The items of an array up to its closing bracket; at least one. -/
def items (cs : List Char) : Parsed (List Value × Less cs) :=
  match value cs with
  | .error e => .error e
  | .ok (v, ⟨r, hr⟩) =>
    match skip r with
    | ⟨u, hu⟩ =>
      match take? ']' u, take? ',' u with
      | some ⟨w, hw⟩, _ => .ok ([v], ⟨w, by omega⟩)
      | none, some ⟨w, hw⟩ =>
        match skip w with
        | ⟨x, hx⟩ =>
          match items x with
          | .error e => .error e
          | .ok (vs, ⟨y, hy⟩) => .ok (v :: vs, ⟨y, by omega⟩)
      | none, none => .error .malformed
termination_by 2 * cs.length + 1

/-- The members of an object up to its closing brace; at least one. -/
def members (cs : List Char) : Parsed (List (String × Value) × Less cs) :=
  match member? cs with
  | none => .error .malformed
  | some (k, ⟨r, hr⟩) =>
    match value r with
    | .error e => .error e
    | .ok (v, ⟨t, ht⟩) =>
      match skip t with
      | ⟨u, hu⟩ =>
        match take? '\x7d' u, take? ',' u with
        | some ⟨w, hw⟩, _ => .ok ([(k, v)], ⟨w, by omega⟩)
        | none, some ⟨w, hw⟩ =>
          match skip w with
          | ⟨x, hx⟩ =>
            match members x with
            | .error e => .error e
            | .ok (ms, ⟨y, hy⟩) => .ok ((k, v) :: ms, ⟨y, by omega⟩)
        | none, none => .error .malformed
termination_by 2 * cs.length + 1

end

/-- The value that a text writes: one value with white space around it. -/
def read (text : String) : Parsed Value :=
  match value (skip text.toList).1 with
  | .error e => .error e
  | .ok (v, r) => if (skip r.1).1.isEmpty then .ok v else .error .malformed

/-- The value that a text writes, if it does. -/
def read? (text : String) : Option Value := (read text).toOption

end HookLint.Json
