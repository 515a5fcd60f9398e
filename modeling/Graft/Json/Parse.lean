import Graft.Json.Value
import Graft.Token.Escape
/-!
Reading JSON text. Nothing beyond the format is let through. Values that nest more than 127 deep,
numbers that binary64 cannot hold and texts with half of a character have no value: `Json.read?`
keeps their places as `Json.unheld`, so that a reader who has no use for them need not care, and
`Json.parse?` refuses them.

A number with a fraction, an exponent or too many digits is read in two rounded steps: digits are
taken into a whole number as long as it fits 64 bits, later ones only count, and the number is
then multiplied or divided by a power of ten.
-/
namespace Graft

namespace JsonNumber

/-- The greatest unsigned whole number of 64 bits. -/
def maxWhole : Nat := twoTo 64 - 1

/-- Takes digits as long as they fit; the others are left. -/
def takeDigits : Nat → List Nat → Nat × List Nat
  | n, [] => (n, [])
  | n, d :: ds => if maxWhole < n * 10 + d then (n, d :: ds) else takeDigits (n * 10 + d) ds

/-- `significand * 10 ^ exponent`, in rounded steps; too great a number has no value. -/
def scaled? (significand : Nat) (exponent : Int) : Option Binary64 :=
  let f := Binary64.ofFraction significand 1
  if significand == 0 then some .zero
  else if 308 < exponent then none
  else if 0 ≤ exponent then
    match f.mul (.ofDecimal 1 exponent) with
    | .infinite => none
    | v => some v
  else
    -- below the least power of ten that binary64 holds, the division takes several steps
    let steps := ((-exponent).toNat - 1) / 308
    let first := (List.replicate (min steps 3) ()).foldl
      (fun (v : Binary64) _ => v.div (.ofDecimal 1 308)) f
    if 3 < steps then some .zero
    else some (first.div (.ofDecimal 1 ((-exponent).toNat - 308 * steps : Nat)))

/-- The number with these digits before and after the point and this exponent, if any is written. -/
def ofParts? (negative : Bool) (whole : List Nat) (fraction : Option (List Nat))
    (exponent : Option Int) : Option JsonNumber :=
  let (n, more) := takeDigits 0 whole
  if more.isEmpty && fraction.isNone && exponent.isNone then
    if !negative then some (.whole n)
    else if n == 0 || twoTo 63 < n then some (.float true (Binary64.ofFraction n 1))
    else some (.whole (-n))
  else
    let (m, left) := takeDigits n (fraction.getD [])
    let places : Int := (fraction.getD []).length - left.length
    (scaled? m (more.length - places + exponent.getD 0)).map (.float negative)

end JsonNumber

namespace Json

/-- A space that JSON text may have between its tokens. -/
def isSpace (c : Char) : Bool := c == ' ' || c == '\t' || c == '\n' || c == '\r'

/-- The digits that a text begins with, and what follows them. -/
def digits (text : List Char) : List Nat × List Char :=
  ((text.takeWhile fun c => (digitValue? c).isSome).filterMap digitValue?,
    text.dropWhile fun c => (digitValue? c).isSome)

/-- The exponent that a text begins with, if any, and what follows it. -/
def exponent? (text : List Char) : Option (Option Int × List Char) :=
  match text with
  | c :: rest =>
      if c == 'e' || c == 'E' then
        let (negative, rest) := match rest with
          | '-' :: rest => (true, rest)
          | '+' :: rest => (false, rest)
          | rest => (false, rest)
        match digits rest with
        | ([], _) => none
        | (ds, rest) =>
            let e : Nat := ds.foldl (fun n d => n * 10 + d) 0
            some (some (if negative then -(e : Int) else e), rest)
      else some (none, text)
  | [] => some (none, [])

/-- The number that a text begins with, if it can be held, and what follows it. -/
def number? (text : List Char) : Option (Option JsonNumber × List Char) := do
  let (negative, text) := match text with
    | '-' :: rest => (true, rest)
    | rest => (false, rest)
  let (whole, text) := digits text
  if whole.isEmpty || (whole.head? == some 0 && whole.length != 1) then none
  let (fraction, text) ← match text with
    | '.' :: rest =>
        match digits rest with
        | ([], _) => none
        | (ds, rest) => some (some ds, rest)
    | text => some (none, text)
  let (exponent, text) ← exponent? text
  some (JsonNumber.ofParts? negative whole fraction exponent, text)

/-- Where the reader of a quoted text stands. -/
inductive QuoteMode where
  | plain
  /-- After a backslash. -/
  | escape
  /-- After `\u`, with this many digits missing. -/
  | hex (missing value : Nat)

/-- The pieces of a text up to the closing quote, and what follows it. -/
def quoted? : QuoteMode → List Char → Option (List StringPiece × List Char)
  | _, [] => none
  | .plain, c :: cs =>
      if c == '"' then some ([], cs)
      else if c == '\\' then quoted? .escape cs
      else if c.toNat < 0x20 then none
      else (quoted? .plain cs).map fun r => (.point c.toNat :: r.1, r.2)
  | .escape, c :: cs =>
      let put (d : Char) := (quoted? .plain cs).map fun r => (.point d.toNat :: r.1, r.2)
      match c with
      | '"' => put '"'
      | '\\' => put '\\'
      | '/' => put '/'
      | 'b' => put '\x08'
      | 'f' => put '\x0c'
      | 'n' => put '\n'
      | 'r' => put '\r'
      | 't' => put '\t'
      | 'u' => quoted? (.hex 4 0) cs
      | _ => none
  | .hex missing value, c :: cs =>
      match hexValue? c with
      | none => none
      | some v =>
          let value := value * 16 + v
          if 1 < missing then quoted? (.hex (missing - 1) value) cs
          else (quoted? .plain cs).map fun r => (.unit value :: r.1, r.2)

/-- The text that pieces make up, if they make up whole characters. -/
def textOf? (pieces : List StringPiece) : Option String :=
  let chars := (StringUnit.ofPieces pieces).mapM fun
    | .scalar c => some c
    | .surrogate _ => none
  chars.map String.ofList

/-- A value that may have to be given up. -/
def orUnheld : Option Json → Json
  | some v => v
  | none => .unheld

/-- A value that holds others, if it may nest so deep. -/
def nested (depth : Nat) (v : Json) : Json := if depth ≤ 1 then .unheld else v

/-- Puts an entry before others; entries with a key that is no text are given up together. -/
def addEntry (key : Option String) (v : Json) (more : Option (List (String × Json))) :
    Option (List (String × Json)) :=
  match key, more with
  | some key, some more => some ((key, v) :: more)
  | _, _ => none

mutual

/-- The value that a text begins with after spaces, and what follows it. `depth` is how deep
values may still nest. -/
def value? (depth : Nat) : (fuel : Nat) → List Char → Option (Json × List Char)
  | 0, _ => none
  | fuel + 1, text =>
      match text.dropWhile isSpace with
      | '"' :: cs => (quoted? .plain cs).map fun r => (orUnheld ((textOf? r.1).map .string), r.2)
      | '[' :: cs =>
          match cs.dropWhile isSpace with
          | ']' :: rest => some (nested depth (.array []), rest)
          | cs => (items? (depth - 1) fuel cs).map fun r => (nested depth (.array r.1), r.2)
      | '\x7b' :: cs =>
          match cs.dropWhile isSpace with
          | '\x7d' :: rest => some (nested depth (.object []), rest)
          | cs => (entries? (depth - 1) fuel cs).map fun r =>
              (nested depth (orUnheld (r.1.map .object)), r.2)
      | 'n' :: 'u' :: 'l' :: 'l' :: rest => some (.null, rest)
      | 't' :: 'r' :: 'u' :: 'e' :: rest => some (.boolean true, rest)
      | 'f' :: 'a' :: 'l' :: 's' :: 'e' :: rest => some (.boolean false, rest)
      | text => (number? text).map fun r => (orUnheld (r.1.map .number), r.2)

/-- The items of an array up to its end, and what follows it. -/
def items? (depth : Nat) : (fuel : Nat) → List Char → Option (List Json × List Char)
  | 0, _ => none
  | fuel + 1, text =>
      match value? depth fuel text with
      | none => none
      | some (v, rest) =>
          match rest.dropWhile isSpace with
          | ']' :: rest => some ([v], rest)
          | ',' :: rest => (items? depth fuel rest).map fun r => (v :: r.1, r.2)
          | _ => none

/-- The entries of an object up to its end, if all keys are texts, and what follows it. -/
def entries? (depth : Nat) :
    (fuel : Nat) → List Char → Option (Option (List (String × Json)) × List Char)
  | 0, _ => none
  | fuel + 1, text =>
      match text.dropWhile isSpace with
      | '"' :: cs =>
          match quoted? .plain cs with
          | none => none
          | some (key, rest) =>
              match rest.dropWhile isSpace with
              | ':' :: rest =>
                  match value? depth fuel rest with
                  | none => none
                  | some (v, rest) =>
                      match rest.dropWhile isSpace with
                      | '\x7d' :: rest => some (addEntry (textOf? key) v (some []), rest)
                      | ',' :: rest =>
                          (entries? depth fuel rest).map fun r =>
                            (addEntry (textOf? key) v r.1, r.2)
                      | _ => none
              | _ => none
      | _ => none

end

/-- The value that a text spells, if it spells one and nothing else. -/
def read? (text : String) : Option Json :=
  let chars := text.toList
  match value? 128 (2 * chars.length + 2) chars with
  | some (v, rest) => if (rest.dropWhile isSpace).isEmpty then some v else none
  | none => none

/-- The value that a text spells, if it spells one that can be held, and nothing else. -/
def parse? (text : String) : Option Json := (read? text).filter isHeld

end Json

end Graft
