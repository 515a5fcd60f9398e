import Graft.Text.LetterRanges
/-!
The characters that names are made of.

Program text admits the Unicode identifiers (`isIdentifierStart`, `isIdentifierPart`); names in a
configuration are held to the ASCII ones (`isPlainIdentifier`).
-/
namespace Graft.Text

/-- Membership in a list of inclusive ranges. -/
def inRanges (ranges : List (Nat × Nat)) (n : Nat) : Bool :=
  ranges.any fun r => r.1 ≤ n && n ≤ r.2

/-- An ASCII letter. -/
def isAsciiLetter (n : Nat) : Bool := (0x61 ≤ n && n ≤ 0x7A) || (0x41 ≤ n && n ≤ 0x5A)

/-- An ASCII digit. -/
def isAsciiDigit (n : Nat) : Bool := 0x30 ≤ n && n ≤ 0x39

/-- A character that an identifier may start with: a letter, a dollar sign or an underscore. -/
def isIdentifierStart (c : Char) : Bool :=
  let n := c.toNat
  if n < 0x80 then isAsciiLetter n || n == 0x24 || n == 0x5F
  else inRanges idStartRanges n

/-- A character that an identifier may go on with: also digits, combining marks and joiners. -/
def isIdentifierPart (c : Char) : Bool :=
  let n := c.toNat
  if n < 0x80 then isAsciiLetter n || isAsciiDigit n || n == 0x24 || n == 0x5F
  else inRanges idStartRanges n || inRanges idContinueRanges n || n == 0x200C || n == 0x200D

/-- A non-empty name of ASCII letters, digits, `$` and `_` that does not start with a digit. -/
def isPlainIdentifier (name : String) : Bool :=
  let start (c : Char) : Bool := isAsciiLetter c.toNat || c == '$' || c == '_'
  match name.toList with
  | [] => false
  | c :: rest => start c && rest.all fun d => start d || isAsciiDigit d.toNat

end Graft.Text
