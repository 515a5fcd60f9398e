import Graft.Token.Escape
import Graft.Token.Lexeme
/-!
Numerals: decimal numbers with a fraction and an exponent, whole numbers in radix 2, 8 and 16,
whole numbers of any size, and the old octal form with a leading zero.

Digits may be set apart by single underscores between two digits, except in the old form.
-/
namespace Graft

open Text

/-- Whether every underscore of a row of digits stands between two digits; `afterDigit` says that
a digit came just before. -/
def separatorsValid : (afterDigit : Bool) → List Char → Bool
  | afterDigit, [] => afterDigit
  | afterDigit, c :: cs => if c == '_' then afterDigit && separatorsValid false cs
      else separatorsValid true cs

/-- The values of the digits of a row, which underscores may set apart. -/
def digitValues (row : List Char) : List Nat := row.filterMap hexValue?

/-- The number that a row of decimal digits spells. -/
def decimalValue (row : List Char) : Nat :=
  (digitValues row).foldl (fun n d => n * 10 + d) 0

/-- The row of digits that a tail begins with, if it begins with one that is well formed. -/
def scanDigits? (isDigit : Char → Bool) (t : Tail) : Option (List Char × Tail) :=
  let r := t.span fun c => isDigit c || c == '_'
  if separatorsValid false r.1 then some r else none

def isDecimalDigit (c : Char) : Bool := (digitValue? c).isSome

/-- An exponent and what follows it; no exponent counts as zero. -/
def scanExponent? (t : Tail) : Option (Int × Tail) :=
  match t.chars with
  | c :: cs =>
      if c == 'e' || c == 'E' then
        let signed : Bool × Tail := match cs with
          | '-' :: _ => (true, t.drop 2)
          | '+' :: _ => (false, t.drop 2)
          | _ => (false, t.drop 1)
        match scanDigits? isDecimalDigit signed.2 with
        | some (row, rest) =>
            let e : Int := decimalValue row
            some (if signed.1 then -e else e, rest)
        | none => none
      else some (0, t)
  | [] => some (0, t)

/-- The fraction of a number, without its point, and what follows it. -/
def scanFraction? (t : Tail) : Option (List Char × Tail) :=
  match t.chars with
  | '.' :: c :: _ =>
      if isDecimalDigit c || c == '_' then scanDigits? isDecimalDigit (t.drop 1)
      else some ([], t.drop 1)
  | ['.'] => some ([], t.drop 1)
  | _ => some ([], t)

/-- The rest of a decimal number after its whole part. -/
def scanAfterWhole? (whole : List Char) (t : Tail) : Option (Lexeme × Tail) := do
  let (fraction, afterFraction) ← scanFraction? t
  let (exponent, rest) ← scanExponent? afterFraction
  if rest.offset == t.offset then some (.number (.ofDigits 10 (digitValues whole)), t)
  else
    let places : Int := (digitValues fraction).length
    some (.number (.ofDecimal (decimalValue (whole ++ fraction)) (exponent - places)), rest)

/-- A whole number in another radix, after the two characters that announce it. -/
def scanRadix? (radix : Nat) (t : Tail) : Option (Lexeme × Tail) := do
  let isDigit (c : Char) : Bool := match hexValue? c with
    | some v => v < radix
    | none => false
  let (row, t) ← scanDigits? isDigit t
  match t.chars with
  | 'n' :: _ => some (.bigint ((digitValues row).foldl (fun n d => n * radix + d) 0), t.drop 1)
  | _ => some (.number (.ofDigits radix (digitValues row)), t)

/-- A number that has been read, if no name and no digit follows it at once. -/
def closed? (r : Lexeme × Tail) : Option (Lexeme × Tail) :=
  match r.2.chars with
  | c :: _ => if isIdentifierStart c || isDecimalDigit c then none else some r
  | [] => some r

/-- A number with a leading zero and more digits: octal unless it has an eight or a nine. Only a
small `e` starts an exponent, and what follows the exponent may follow at once. -/
def scanOldOctal? (t : Tail) : Option (Lexeme × Tail) :=
  let (row, rest) := t.span fun c => isDecimalDigit c || c == '_'
  if row.contains '_' then none
  else if row.all fun c => (octalValue? c).isSome then
    closed? (.number (.ofDigits 8 (digitValues (row.drop 1))), rest)
  else match rest.chars with
    | 'e' :: _ => scanAfterWhole? row rest
    | '.' :: _ => (scanAfterWhole? row rest).bind closed?
    | _ => closed? (.number (.ofDigits 10 (digitValues row)), rest)

/-- A number. No name and no digit may follow it at once, save for an exponent of zero. -/
def scanNumber? (t : Tail) : Option (Lexeme × Tail) :=
  match t.chars with
  | '0' :: c :: _ =>
      if c == 'x' || c == 'X' then (scanRadix? 16 (t.drop 2)).bind closed?
      else if c == 'o' || c == 'O' then (scanRadix? 8 (t.drop 2)).bind closed?
      else if c == 'b' || c == 'B' then (scanRadix? 2 (t.drop 2)).bind closed?
      else if c == 'e' || c == 'E' then scanAfterWhole? ['0'] (t.drop 1)
      else if isDecimalDigit c || c == '_' then scanOldOctal? t
      else if c == 'n' then closed? (.bigint 0, t.drop 2)
      else (scanAfterWhole? ['0'] (t.drop 1)).bind closed?
  | '.' :: _ => (scanAfterWhole? [] t).bind closed?
  | _ => do
      let (row, rest) ← scanDigits? isDecimalDigit t
      match rest.chars with
      | 'n' :: _ => closed? (.bigint (decimalValue row), rest.drop 1)
      | _ => (scanAfterWhole? row rest).bind closed?

end Graft
