/-!
# Binary64 — decimal numbers as doubles

A number with a fraction or an exponent is kept as the nearest double, ties going to an even
mantissa.  Doubles have 53 binary digits, none of them below `2 ^ -1074`, and end at `2 ^ 1024`.
-/

namespace HookLint

/-- The magnitude of a double: `mantissa · 2 ^ exponent`, or infinite. -/
inductive Binary64 where
  | finite (mantissa : Nat) (exponent : Int)
  | infinite
deriving DecidableEq, Repr

namespace Binary64

/-- A whole number moved up by binary places; a negative number of places counts as none. -/
def scaleUp (n : Nat) (places : Int) : Nat :=
  n <<< places.toNat

/-- The quotient rounded to the nearest whole number, and to the even one of two. -/
def roundedQuotient (n d : Nat) : Nat :=
  let q := n / d
  let r := n % d
  if 2 * r < d ∨ (2 * r = d ∧ q % 2 = 0) then q else q + 1

/-- The place of the first binary digit of `n / d`. -/
def leadingPlace (n d : Nat) : Int :=
  let e : Int := n.log2 - d.log2
  if scaleUp n (-e) < scaleUp d e then e - 1 else e

/-- The double nearest to `n / d`. -/
def ofQuotient (n d : Nat) : Binary64 :=
  let place := max (leadingPlace n d - 52) (-1074)
  let mantissa := roundedQuotient (scaleUp n (-place)) (scaleUp d place)
  if 971 < place ∨ (place = 971 ∧ mantissa = scaleUp 1 53) then .infinite
  else .finite mantissa place

/-- The double nearest to `digits · 10 ^ exponent`.  What is far too large or too small is settled
without computing the power. -/
def ofDecimal (digits : Nat) (exponent : Int) : Binary64 :=
  if digits = 0 ∨ (digits.log2 : Int) + 1 + 3 * exponent < -1100 then .finite 0 0
  else if 400 < exponent then .infinite
  else ofQuotient (digits * Nat.pow 10 exponent.toNat) (Nat.pow 10 (-exponent).toNat)

/-- Whether the double is zero. -/
def isZero : Binary64 → Bool
  | .finite mantissa _ => mantissa = 0
  | .infinite => false

/-- The whole number that the double is, if it is one. -/
def whole? : Binary64 → Option Nat
  | .finite mantissa exponent =>
    if mantissa % scaleUp 1 (-exponent) = 0 then
      some (scaleUp (mantissa / scaleUp 1 (-exponent)) exponent)
    else none
  | .infinite => none

end Binary64
end HookLint
