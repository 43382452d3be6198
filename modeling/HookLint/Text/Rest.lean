/-!
# Rest — what reading leaves

A reader takes something off the front of a list of characters.  Its result carries the proof that
the rest is no longer than the input (`Rest`), or shorter (`Less`), so a loop over the input ends.
A reader that gives no result says why (`Refusal`): the first fault that it meets counts.
-/

namespace HookLint.Text

/-- Why a reader gives no result. -/
inductive Refusal where
  /-- The text is not of the format. -/
  | malformed
  /-- The text is of the format so far, but it holds a number that is too large to be read. -/
  | excessive
deriving DecidableEq, Repr

/-- What was read, or why there is nothing. -/
abbrev Parsed (α : Type) := Except Refusal α

/-- What was read, if anything was; a text without it is malformed. -/
def Parsed.ofOption {α : Type} : Option α → Parsed α
  | some a => .ok a
  | none => .error .malformed

/-- A list no longer than `cs`. -/
abbrev Rest (cs : List Char) := { rest : List Char // rest.length ≤ cs.length }

/-- A list shorter than `cs`. -/
abbrev Less (cs : List Char) := { rest : List Char // rest.length < cs.length }

namespace Rest

/-- Nothing taken. -/
def all (cs : List Char) : Rest cs := ⟨cs, Nat.le_refl _⟩

/-- The rest after the longest run of characters that satisfy `p`. -/
def dropWhile (p : Char → Bool) : (cs : List Char) → Rest cs
  | [] => ⟨[], Nat.le_refl _⟩
  | c :: cs =>
    if p c then
      let r := dropWhile p cs
      ⟨r.1, Nat.le_succ_of_le r.2⟩
    else ⟨c :: cs, Nat.le_refl _⟩

@[simp] theorem dropWhile_val (p : Char → Bool) (cs : List Char) :
    (dropWhile p cs).1 = cs.dropWhile p := by
  induction cs with
  | nil => rfl
  | cons c cs ih => by_cases h : p c <;> simp [dropWhile, h, ih]

/-- A rest of a rest. -/
def trans {cs : List Char} (r : Rest cs) (s : Rest r.1) : Rest cs := ⟨s.1, Nat.le_trans s.2 r.2⟩

/-- A rest that follows a character is shorter than the whole. -/
def after {cs : List Char} (c : Char) (r : Rest cs) : Less (c :: cs) :=
  ⟨r.1, Nat.lt_succ_of_le r.2⟩

/-- What is shorter than a rest is shorter than the whole. -/
def shrink {cs : List Char} (r : Rest cs) (s : Less r.1) : Less cs :=
  ⟨s.1, Nat.lt_of_lt_of_le s.2 r.2⟩

end Rest

namespace Less

/-- Forgets that something was taken. -/
def le {cs : List Char} (r : Less cs) : Rest cs := ⟨r.1, Nat.le_of_lt r.2⟩

/-- A shorter list after one more character. -/
def after {cs : List Char} (c : Char) (r : Less cs) : Less (c :: cs) :=
  ⟨r.1, Nat.lt_succ_of_lt r.2⟩

/-- A rest of a shorter list. -/
def trans {cs : List Char} (r : Less cs) (s : Rest r.1) : Less cs :=
  ⟨s.1, Nat.lt_of_le_of_lt s.2 r.2⟩

end Less

/-- The rest after the character `c`, if it stands at the front. -/
def take? (c : Char) : (cs : List Char) → Option (Less cs)
  | d :: t => if d = c then some ⟨t, Nat.lt_succ_self _⟩ else none
  | [] => none

/-- The value of a hexadecimal digit. -/
def hexDigit? (c : Char) : Option Nat :=
  if '0' ≤ c ∧ c ≤ '9' then some (c.toNat - '0'.toNat)
  else if 'a' ≤ c ∧ c ≤ 'f' then some (c.toNat - 'a'.toNat + 10)
  else if 'A' ≤ c ∧ c ≤ 'F' then some (c.toNat - 'A'.toNat + 10)
  else none

/-- The number that hexadecimal digits write. -/
def hexNumber? (cs : List Char) : Option Nat :=
  cs.foldlM (fun n c => do return 16 * n + (← hexDigit? c)) 0

/-- The number that decimal digits write. -/
def decimalNumber (cs : List Char) : Nat :=
  cs.foldl (fun n c => 10 * n + (c.toNat - '0'.toNat)) 0

/-- The most decimal digits that a whole number may have. -/
def digitLimit : Nat := 4300

/-- The whole number that decimal digits write, if there are not too many. -/
def wholeNumber (cs : List Char) : Parsed Nat :=
  if digitLimit < cs.length then .error .excessive else .ok (decimalNumber cs)

end HookLint.Text
