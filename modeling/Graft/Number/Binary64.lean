/-!
Non-negative binary floating-point numbers with 53 bits of precision, kept exactly.

A finite value is `mantissa * 2 ^ exponent` in its one normal form: the mantissa has 53 bits, or
fewer at the least exponent. Every operation is rounding of an exact quotient to the nearest such
value, with ties to the even mantissa, so nothing here depends on machine arithmetic.
-/
namespace Graft

/-- A power of two. -/
abbrev twoTo (n : Nat) : Nat := Nat.pow 2 n

/-- A power of ten. -/
abbrev tenTo (n : Nat) : Nat := Nat.pow 10 n

/-- A non-negative number of the binary64 format. -/
inductive Binary64 where
  | finite (mantissa : Nat) (exponent : Int)
  | infinite
deriving DecidableEq, Repr, Inhabited

namespace Binary64

/-- The number zero. -/
def zero : Binary64 := .finite 0 (-1074)

/-- `x * 2 ^ k` as a fraction. -/
def scale (x : Nat) (k : Int) : Nat × Nat :=
  if 0 ≤ k then (x * twoTo k.toNat, 1) else (x, twoTo (-k).toNat)

/-- Rounds `num / den` to the nearest natural number, a tie to the even one. -/
def roundHalfEven (num den : Nat) : Nat :=
  let q := num / den
  let r := num % den
  if den < 2 * r || (2 * r == den && q % 2 == 1) then q + 1 else q

/-- The binary64 number nearest to `num / den`. -/
def ofFraction (num den : Nat) : Binary64 :=
  if num == 0 then zero else
    let low := max ((num.log2 : Int) - den.log2 - 53) (-1074)
    let floorAt (e : Int) : Nat × Nat :=
      if 0 ≤ e then (num, den * twoTo e.toNat) else (num * twoTo (-e).toNat, den)
    let e := if twoTo 53 ≤ (floorAt low).1 / (floorAt low).2 then low + 1 else low
    let m := roundHalfEven (floorAt e).1 (floorAt e).2
    let (m, e) := if m == twoTo 53 then (twoTo 52, e + 1) else (m, e)
    if 971 < e then .infinite else .finite m e

/-- The binary64 number nearest to `digits * 10 ^ exponent`. -/
def ofDecimal (digits : Nat) (exponent : Int) : Binary64 :=
  if digits == 0 then zero
  else if 400 < exponent then .infinite
  -- a number has at most a digit for every three bits, and one more
  else if ((digits.log2 / 3 + 1 : Nat) : Int) + exponent < -330 then zero
  else if 0 ≤ exponent then ofFraction (digits * tenTo exponent.toNat) 1
  else ofFraction digits (tenTo (-exponent).toNat)

/-- The value of a finite number as a fraction. -/
def toFraction? : Binary64 → Option (Nat × Nat)
  | .finite m e => some (scale m e)
  | .infinite => none

/-- The rounded product. -/
def mul (a b : Binary64) : Binary64 :=
  match a.toFraction?, b.toFraction? with
  | some a, some b => ofFraction (a.1 * b.1) (a.2 * b.2)
  | _, _ => .infinite

/-- The rounded quotient by a number that is not zero. -/
def div (a b : Binary64) : Binary64 :=
  match a.toFraction?, b.toFraction? with
  | some a, some b => ofFraction (a.1 * b.2) (a.2 * b.1)
  | _, _ => .infinite

/-- The natural number that a value is, if it is one. -/
def toNat? (a : Binary64) : Option Nat :=
  match a.toFraction? with
  | some (num, den) => if num % den == 0 then some (num / den) else none
  | none => none

/-- The number that a row of digits spells in a radix, rounded after every digit. -/
def ofDigitsStepwise (radix : Nat) (digits : List Nat) : Binary64 :=
  digits.foldl (fun a d =>
    match a.toNat? with
    | some n => ofFraction (n * radix + d) 1
    | none => .infinite) zero

/-- The number that a row of digits spells in a radix. A row that cannot exceed 64 bits is rounded
once, a longer one after every digit. -/
def ofDigits (radix : Nat) (digits : List Nat) : Binary64 :=
  if Nat.pow radix digits.length ≤ twoTo 64 then
    ofFraction (digits.foldl (fun n d => n * radix + d) 0) 1
  else ofDigitsStepwise radix digits

end Binary64

end Graft
