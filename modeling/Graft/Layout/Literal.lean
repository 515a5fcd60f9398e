import Graft.Number.Shortest
import Graft.Text.Blank
import Graft.Tree.Shape
/-!
How numbers and strings are written.

A number takes the shortest of its spellings: with a point, with an exponent, or, if it is whole,
in hexadecimal; of equally short ones the first. A string stands in double quotes and escapes what
would end it, would not show, or would end a script element around the program.
-/
namespace Graft

namespace Layout

-- ================================================================= numbers

/-- A point up to twenty-one digits before it and six after it, an exponent beyond. -/
def numberFormat : DecimalFormat := ⟨-6, 20, false⟩

/-- The shorter of two spellings, the first one if they are equally short. -/
def shorter (a b : List Char) : List Char := if b.length < a.length then b else a

/-- A spelling that starts with a point and zeros, with an exponent instead: `.00012` as `12e-5`. -/
def withoutLeadingZeros (s : List Char) : List Char :=
  match s with
  | '.' :: '0' :: fraction =>
      match fraction.dropWhile (· == '0') with
      | [] => s
      | digits => shorter s (digits ++ ['e', '-'] ++ decimalText (fraction.length + 1))
  | _ => s

/-- A spelling that ends in zeros, with an exponent instead: `12000` as `12e3`. -/
def withoutTrailingZeros (s : List Char) : List Char :=
  let zeros := (s.reverse.takeWhile (· == '0')).length
  if zeros == 0 || zeros == s.length then s
  else shorter s (s.take (s.length - zeros) ++ 'e' :: decimalText zeros)

/-- The whole number that digits with or without a minus spell. -/
def signedValue (s : List Char) : Int :=
  let value (ds : List Char) : Nat := ds.foldl (fun n c => n * 10 + (c.toNat - 0x30)) 0
  match s with
  | '-' :: ds => -(value ds : Int)
  | ds => value ds

/-- A whole number with its sign. -/
def signedText : Int → List Char
  | .ofNat n => decimalText n
  | .negSucc n => '-' :: decimalText (n + 1)

/-- A spelling with a point and an exponent, without the point: `1.2e30` as `12e29`. -/
def withoutPoint (s : List Char) : List Char :=
  match s.dropWhile (· != '.') with
  | '.' :: rest =>
      match rest.dropWhile (· != 'e') with
      | 'e' :: exponent =>
          let fraction := rest.takeWhile (· != 'e')
          shorter s (s.takeWhile (· != '.') ++ fraction ++ 'e' ::
            signedText (signedValue exponent - fraction.length))
      | _ => s
  | _ => s

/-- The shortest spelling of a number. -/
def numberText (v : Binary64) : List Char :=
  match v with
  | .infinite => "Infinity".toList
  | .finite m e =>
      let decimal := (numberFormat.write (Binary64.shortest m e)).filter (· != '+')
      let s := match decimal with
        | '0' :: '.' :: rest => '.' :: rest
        | s => s
      match v.toNat? with
      | some n =>
          if n < 1000 then decimalText n
          else
            let hex := '0' :: 'x' :: Nat.toDigits 16 n
            if hex.length < s.length then hex else withoutPoint (withoutTrailingZeros s)
      | none => withoutPoint (withoutTrailingZeros (withoutLeadingZeros s))

/-- Whether a spelling is digits alone, so that a point right after it would belong to it. -/
def isBareDigits (s : List Char) : Bool :=
  !s.any fun c => c == '.' || c == 'e' || c == 'x' || c == 'I'

-- ================================================================= strings

/-- Whether a text begins with the end of a script element, in any case. -/
def closesScript (s : List Char) : Bool :=
  let lowered := (s.take 8).map Char.toLower
  lowered == "</script".toList

/-- A text in which no script element ends. -/
def guardScript : List Char → List Char
  | [] => []
  | c :: cs => if closesScript (c :: cs) then '<' :: '\\' :: guardScript cs
      else c :: guardScript cs

/-- A character of a string; `beforeDigit` says that a digit follows it. -/
def escapeChar (beforeDigit : Bool) (c : Char) : List Char :=
  match c with
  | '"' => ['\\', '"']
  | '\\' => ['\\', '\\']
  | '\n' => ['\\', 'n']
  | '\r' => ['\\', 'r']
  | '\x08' => ['\\', 'b']
  | '\x0b' => ['\\', 'v']
  | '\x0c' => ['\\', 'f']
  | '\x07' => ['\\', 'x', '0', '7']
  | '\x1b' => ['\\', 'x', '1', 'B']
  | '\x00' => if beforeDigit then ['\\', 'x', '0', '0'] else ['\\', '0']
  | '\u00a0' => ['\\', 'x', 'A', '0']
  | '\u2028' => ['\\', 'u', '2', '0', '2', '8']
  | '\u2029' => ['\\', 'u', '2', '0', '2', '9']
  | _ => [c]

/-- Whether a value starts with a digit. -/
def startsWithDigit : List StringUnit → Bool
  | .scalar c :: _ => '0' ≤ c && c ≤ '9'
  | _ => false

/-- The characters that a value starts with. -/
def leadingChars (units : List StringUnit) : List Char :=
  (units.take 8).filterMap fun
    | .scalar c => some c
    | .surrogate _ => none

/-- The value of a string with its escapes. -/
def escapeUnits : List StringUnit → List Char
  | [] => []
  | .surrogate n :: us => '\\' :: 'u' :: StringUnit.hex4 n ++ escapeUnits us
  | .scalar c :: us =>
      if c == '<' && closesScript (leadingChars (.scalar c :: us)) then
        '<' :: '\\' :: escapeUnits us
      else escapeChar (startsWithDigit us) c ++ escapeUnits us

/-- A string in quotes. -/
def stringText (units : List StringUnit) : List Char := '"' :: escapeUnits units ++ ['"']

/-- The quote that a directive is written with: the single one if the first quote in its text that
is not escaped is a double one. -/
def directiveQuote : (escaped : Bool) → List Char → Char
  | _, [] => '"'
  | true, _ :: cs => directiveQuote false cs
  | false, c :: cs =>
      if c == '\\' then directiveQuote true cs
      else if c == '"' then '\x27'
      else if c == '\x27' then '"'
      else directiveQuote false cs

/-- A directive in quotes. -/
def directiveText (raw : String) : List Char :=
  let quote := directiveQuote false raw.toList
  quote :: raw.toList ++ [quote]

end Layout

end Graft
