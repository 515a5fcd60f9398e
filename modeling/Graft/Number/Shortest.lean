import Graft.Number.Binary64
/-!
The shortest decimal that reads back as a given binary64 number, and how it is written.

`Binary64.shortest` looks at the grids of one digit, two digits and so on: on each, only the two
neighbours of the value can lie among the reals that round to it, so the first grid with such a
neighbour has the fewest digits, and the nearer neighbour is taken. `DecimalFormat.write` then
places the point or the exponent.
-/
namespace Graft

/-- `digits * 10 ^ exponent`. -/
structure Decimal where
  digits : Nat
  exponent : Int
deriving DecidableEq, Repr, Inhabited

namespace Decimal

/-- The same number without zeros at the end of its digits, for at most `fuel` of them. -/
def stripZeros : Nat → Decimal → Decimal
  | 0, d => d
  | fuel + 1, d =>
      if d.digits != 0 && d.digits % 10 == 0 then
        stripZeros fuel ⟨d.digits / 10, d.exponent + 1⟩
      else d

end Decimal

/-- The decimal digits of a number. -/
def decimalText (n : Nat) : List Char := Nat.toDigits 10 n

namespace Binary64

/-- The first grid of at least `count` digits that has a point among the reals from `lo` to `hi`
over `den`; the value is `num / den` and lies between `10 ^ (point - 1)` and `10 ^ point`. -/
def shortestFrom (num lo hi den : Nat) (closed : Bool) (point : Int) :
    (fuel : Nat) → (count : Nat) → Decimal
  | 0, count => ⟨num / den, point - count⟩
  | fuel + 1, count =>
      let unit : Int := point - count
      -- the value and the interval, in units of the grid
      let den' := if 0 ≤ unit then den * tenTo unit.toNat else den
      let up (x : Nat) : Nat := if 0 ≤ unit then x else x * tenTo (-unit).toNat
      let q := up num / den'
      let inside (x : Nat) : Bool :=
        if closed then up lo ≤ x * den' && x * den' ≤ up hi
        else up lo < x * den' && x * den' < up hi
      let below := inside q
      let above := inside (q + 1)
      let nearerAbove := den' < 2 * (up num % den') || (2 * (up num % den') == den' && q % 2 == 1)
      if below && (!above || !nearerAbove) then ⟨q, unit⟩
      else if above then ⟨q + 1, unit⟩
      else shortestFrom num lo hi den closed point fuel (count + 1)

/-- The number of decimal digits before the point of `num / den`, negative if zeros follow it. -/
def pointOf (num den : Nat) : Int :=
  if den ≤ num then (decimalText (num / den)).length
  else
    -- the digits of the reciprocal, rounded up, tell the zeros after the point
    let k := (decimalText ((den - 1) / num)).length
    if den ≤ num * tenTo k then 1 - (k : Int) else -(k : Int)

/-- The shortest decimal that rounds to a finite number. -/
def shortest (mantissa : Nat) (exponent : Int) : Decimal :=
  if mantissa == 0 then ⟨0, 0⟩ else
    let narrow := mantissa == twoTo 52 && -1074 < exponent
    let (num, den) := scale (4 * mantissa) (exponent - 2)
    let (lo, _) := scale (4 * mantissa - (if narrow then 1 else 2)) (exponent - 2)
    let (hi, _) := scale (4 * mantissa + 2) (exponent - 2)
    (shortestFrom num lo hi den (mantissa % 2 == 0) (pointOf num den) 17 1).stripZeros 400

end Binary64

/-- Where a decimal is written with a point and where with an exponent. -/
structure DecimalFormat where
  /-- The least power of ten of the first digit that is written with a point. -/
  positionalFrom : Int
  /-- The greatest one. -/
  positionalTo : Int
  /-- Whether a whole number written with a point shows `.0`. -/
  showsZero : Bool

namespace DecimalFormat

/-- Writes a decimal whose digits do not end in a zero. -/
def write (f : DecimalFormat) (d : Decimal) : List Char :=
  let digits := decimalText d.digits
  let count : Int := digits.length
  let leading := count + d.exponent - 1
  let zeros (n : Int) : List Char := List.replicate n.toNat '0'
  if d.digits == 0 then if f.showsZero then ['0', '.', '0'] else ['0']
  else if f.positionalFrom ≤ leading && leading ≤ f.positionalTo then
    if 0 ≤ d.exponent then
      digits ++ zeros d.exponent ++ (if f.showsZero then ['.', '0'] else [])
    else if 0 ≤ leading then
      digits.take (leading + 1).toNat ++ '.' :: digits.drop (leading + 1).toNat
    else '0' :: '.' :: zeros (-leading - 1) ++ digits
  else
    let fraction := match digits.drop 1 with
      | [] => []
      | more => '.' :: more
    let sign := if leading < 0 then '-' else '+'
    digits.take 1 ++ fraction ++ 'e' :: sign :: decimalText leading.natAbs

end DecimalFormat

end Graft
