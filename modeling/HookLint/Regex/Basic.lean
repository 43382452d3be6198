import HookLint.Data.Assoc
import HookLint.Text.Blank
import HookLint.Text.Case
import HookLint.Text.Digit
import HookLint.Text.Word

/-!
# Regex — regular expressions and where they match

An expression is matched by trying its choices in order.  `ends` lists the spots at which a match
that starts at a spot may end, in the order in which a backtracking matcher finds them, each spot
once; a spot is a position together with what the groups hold.  The order matters where only the
first match counts: in atomic groups, in possessive repetitions and in looking around.
-/

namespace HookLint

namespace Regex

/-- How characters are compared and classified. -/
structure Mode where
  /-- Characters that differ in case only are the same. -/
  caseless : Bool := false
  /-- Letters, digits, blanks and cases are those of ASCII. -/
  ascii : Bool := false
deriving DecidableEq, Repr, Inhabited

/-- A member of a character set; ranges hold code points. -/
inductive Item where
  | range (first last : Nat)
  | word (positive : Bool)
  | digit (positive : Bool)
  | blank (positive : Bool)
deriving DecidableEq, Repr

/-- A place that takes no character. -/
inductive Anchor where
  | textStart
  | lineStart
  | textEnd
  | lineEnd
  /-- The end of the text, or before a line feed that ends it. -/
  | lastLineEnd
  /-- The start or the end of a word, or neither.  The empty text has no such place. -/
  | boundary (ascii positive : Bool)
deriving DecidableEq, Repr

/-- In which order the counts of a repetition are tried: the most first, or the fewest first.  A
possessive repetition takes as many as it can and gives none back. -/
inductive Manner where
  | greedy | lazy | possessive
deriving DecidableEq, Repr

/-- How many characters matches have, from the fewest to the most. -/
structure Width where
  least : Nat
  most : Nat
deriving DecidableEq, Repr

end Regex

/-- A regular expression. -/
inductive Regex where
  | empty
  /-- Any character, but for line feeds if they are not taken. -/
  | any (lineFeeds : Bool)
  | set (mode : Regex.Mode) (negated : Bool) (items : List Regex.Item)
  | anchor (a : Regex.Anchor)
  | seq (r s : Regex)
  | alt (r s : Regex)
  /-- A group; with a number, it holds what it matched. -/
  | group (number : Option Nat) (r : Regex)
  /-- Only the first match counts. -/
  | atomic (r : Regex)
  | times (r : Regex) (least : Nat) (most : Option Nat) (manner : Regex.Manner)
  /-- Whether an expression matches, or does not, from so many characters before. -/
  | look (back : Nat) (positive : Bool) (r : Regex)
  /-- What a group holds, once more. -/
  | same (mode : Regex.Mode) (number : Nat) (width : Regex.Width)
  /-- One of two expressions: the first if the group holds something. -/
  | given (number : Nat) (yes no : Regex)
deriving Repr, Inhabited

namespace Regex

/-! ### Characters -/

/-- The code points that are the same as a character. -/
def forms (mode : Mode) (c : Char) : List Nat :=
  if !mode.caseless then [c.toNat]
  else if mode.ascii then
    if c.isUpper then [c.toNat, c.toNat + 32]
    else if c.isLower then [c.toNat, c.toNat - 32]
    else [c.toNat]
  else Text.variants c

/-- Whether a character belongs to words. -/
def isWord (ascii : Bool) (c : Char) : Bool :=
  if ascii then c.isAlphanum || c = '_' else Text.isWord c

/-- Whether a character is a decimal digit. -/
def isDigit (ascii : Bool) (c : Char) : Bool := if ascii then c.isDigit else Text.isDecimal c

/-- Whether a character is white space. -/
def isBlank (ascii : Bool) (c : Char) : Bool :=
  if ascii then [9, 10, 11, 12, 13, 32].contains c.toNat else Text.isBlank c

/-- Whether a member holds a character.  A range holds it in any of its forms; classes do not
depend on case. -/
def Item.holds (mode : Mode) (c : Char) : Item → Bool
  | .range first last => (forms mode c).any fun n => decide (first ≤ n) && decide (n ≤ last)
  | .word positive => isWord mode.ascii c == positive
  | .digit positive => isDigit mode.ascii c == positive
  | .blank positive => isBlank mode.ascii c == positive

/-- Whether a set holds a character. -/
def inSet (mode : Mode) (negated : Bool) (items : List Item) (c : Char) : Bool :=
  items.any (Item.holds mode c) != negated

/-- Whether two characters are the same, as one repeats the other. -/
def sameChar (mode : Mode) (c d : Char) : Bool :=
  if !mode.caseless then c = d
  else if mode.ascii then c.toLower = d.toLower
  else Text.lower c.toNat = Text.lower d.toNat

/-! ### Places -/

/-- Whether a word starts or ends at position `i`. -/
def isBoundary (ascii : Bool) (text : Array Char) (i : Nat) : Bool :=
  (decide (0 < i) && text[i - 1]?.any (isWord ascii)) != text[i]?.any (isWord ascii)

/-- Whether a position is such a place. -/
def Anchor.holds (text : Array Char) (i : Nat) : Anchor → Bool
  | .textStart => i = 0
  | .lineStart => i = 0 || text[i - 1]? = some '\n'
  | .textEnd => i = text.size
  | .lineEnd => i = text.size || text[i]? = some '\n'
  | .lastLineEnd => i = text.size || (i + 1 = text.size && text[i]? = some '\n')
  | .boundary ascii positive => text.size ≠ 0 && isBoundary ascii text i == positive

/-! ### Matching -/

/-- A position, and the spans that groups hold there. -/
structure Spot where
  position : Nat
  groups : Assoc Nat (Nat × Nat) := []
deriving DecidableEq

/-- The spots after a round from each of some spots. -/
def round (once : Spot → List Spot) (spots : List Spot) : List Spot :=
  (spots.flatMap once).eraseDups

/-- The spots after `n` rounds. -/
def rounds (next : List Spot → List Spot) : Nat → List Spot → List Spot
  | 0, spots => spots
  | n + 1, spots =>
    let after := next spots
    if after.isEmpty || after = spots then after else rounds next n after

/-- What was found of a repetition: the ends, and the spots that were gone on from, each with how
many more rounds it allows. -/
structure Explored where
  ends : List Spot := []
  visited : List (Option Nat × Spot) := []

/-- Adds an end. -/
def Explored.add (e : Explored) (s : Spot) : Explored :=
  if e.ends.contains s then e else { e with ends := e.ends ++ [s] }

/-- The ends of at most `left` more rounds.  A round that takes nothing is the last.  `fuel` bounds
the rounds that take something. -/
def explore (once : Spot → List Spot) (lazy : Bool) :
    (fuel : Nat) → Explored → Option Nat → Spot → Explored
  | 0, e, _, s => e.add s
  | fuel + 1, e, left, s =>
    if e.visited.contains (left, s) then e
    else
      let further (e : Explored) : Explored :=
        if left = some 0 then e
        else (once s).foldl (fun e t =>
          if t.position = s.position then e.add t
          else explore once lazy fuel e (left.map (· - 1)) t) e
      let e := { e with visited := (left, s) :: e.visited }
      if lazy then further (e.add s) else (further e).add s

/-- The end of as many rounds as there can be, up to `left`. -/
def exhaust (once : Spot → List Spot) : (fuel : Nat) → Option Nat → Spot → Spot
  | 0, _, s => s
  | fuel + 1, left, s =>
    if left = some 0 then s
    else
      match (once s).head? with
      | none => s
      | some t => if t.position = s.position then t else exhaust once fuel (left.map (· - 1)) t

/-- Whether the characters of a span stand again at a position. -/
def repeats (mode : Mode) (text : Array Char) (span : Nat × Nat) (i : Nat) : Bool :=
  (List.range (span.2 - span.1)).all fun k =>
    match text[span.1 + k]?, text[i + k]? with
    | some c, some d => sameChar mode c d
    | _, _ => false

/-- Where a match that starts at a spot may end. -/
def ends (text : Array Char) : Regex → Spot → List Spot
  | .empty, s => [s]
  | .any lineFeeds, s =>
    if text[s.position]?.any fun c => lineFeeds || c ≠ '\n' then
      [{ s with position := s.position + 1 }]
    else []
  | .set mode negated items, s =>
    if text[s.position]?.any (inSet mode negated items) then
      [{ s with position := s.position + 1 }]
    else []
  | .anchor a, s => if a.holds text s.position then [s] else []
  | .seq q r, s => round (ends text r) (ends text q s)
  | .alt q r, s => (ends text q s ++ ends text r s).eraseDups
  | .group none r, s => ends text r s
  | .group (some number) r, s =>
    (ends text r s).map fun t =>
      { t with groups := Assoc.put t.groups number (s.position, t.position) }
  | .atomic r, s => (ends text r s).head?.toList
  | .times r least most .possessive, s =>
    let first := rounds (fun spots => (round (ends text r) spots).take 1) least [s]
    first.map (exhaust (ends text r) (text.size + 1) (most.map (· - least)))
  | .times r least most manner, s =>
    let once := ends text r
    ((rounds (round once) least [s]).foldl (fun e t =>
      explore once (manner = .lazy) (text.size + 2) e (most.map (· - least)) t) {}).ends
  | .look back positive r, s =>
    let inner := if s.position < back then [] else
      ends text r { s with position := s.position - back }
    match inner.head? with
    | some t => if positive then [{ t with position := s.position }] else []
    | none => if positive then [] else [s]
  | .same mode number _, s =>
    match Assoc.get? s.groups number with
    | none => []
    | some span =>
      if repeats mode text span s.position then
        [{ s with position := s.position + (span.2 - span.1) }]
      else []
  | .given number yes no, s =>
    if Assoc.has s.groups number then ends text yes s else ends text no s

/-- Whether an expression matches somewhere in a text. -/
def search (r : Regex) (text : String) : Bool :=
  let cs := text.toList.toArray
  (List.range (cs.size + 1)).any fun i => !(r.ends cs { position := i }).isEmpty

end Regex

/-- A pattern as it was written, and in which texts it is found. -/
structure Pattern where
  source : String
  search : String → Bool

end HookLint
