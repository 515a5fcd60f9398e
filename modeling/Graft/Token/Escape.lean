import Graft.Text.Identifier
import Graft.Token.Tail
import Graft.Tree.Form
/-!
Backslash escapes in names, strings and templates.

Each kind of text is read by a machine that takes one character at a time, so that reading it is
one recursion over the text and every rule about an escape is a rule about a single step.
-/
namespace Graft

open Text

/-- The value of a hexadecimal digit. -/
def hexValue? (c : Char) : Option Nat :=
  let n := c.toNat
  if isAsciiDigit n then some (n - 0x30)
  else if 0x61 ≤ n && n ≤ 0x66 then some (n - 0x57)
  else if 0x41 ≤ n && n ≤ 0x46 then some (n - 0x37)
  else none

/-- The value of an octal digit. -/
def octalValue? (c : Char) : Option Nat :=
  let n := c.toNat
  if 0x30 ≤ n && n ≤ 0x37 then some (n - 0x30) else none

/-- The value of a decimal digit. -/
def digitValue? (c : Char) : Option Nat :=
  let n := c.toNat
  if 0x30 ≤ n && n ≤ 0x39 then some (n - 0x30) else none

/-- The greatest code point. -/
def maxCodePoint : Nat := 0x10FFFF

/-- Half of a surrogate pair. -/
def isSurrogate (n : Nat) : Bool := 0xD800 ≤ n && n ≤ 0xDFFF

/-- The first half of a surrogate pair. -/
def isHighSurrogate (n : Nat) : Bool := 0xD800 ≤ n && n ≤ 0xDBFF

/-- The second half of a surrogate pair. -/
def isLowSurrogate (n : Nat) : Bool := 0xDC00 ≤ n && n ≤ 0xDFFF

/-- What a character or an escape puts into a string. -/
inductive StringPiece where
  /-- A whole code point, or half of one that stays alone. -/
  | point (n : Nat)
  /-- A number of four digits, which may be half of a code point. -/
  | unit (n : Nat)
deriving DecidableEq, Repr

/-- The elements of a string with these pieces, halves that belong together being joined. -/
def StringUnit.ofPieces : List StringPiece → List StringUnit
  | [] => []
  | .point n :: rest => ofCodePoint n :: ofPieces rest
  | [.unit n] => [ofCodePoint n]
  | .unit hi :: .point n :: rest => ofCodePoint hi :: ofCodePoint n :: ofPieces rest
  | .unit hi :: .unit lo :: rest =>
      if isHighSurrogate hi && isLowSurrogate lo then
        .scalar (Char.ofNat (0x10000 + (hi - 0xD800) * 0x400 + (lo - 0xDC00))) :: ofPieces rest
      else ofCodePoint hi :: ofPieces (.unit lo :: rest)
where
  ofCodePoint (n : Nat) : StringUnit :=
    if isSurrogate n then .surrogate n else .scalar (Char.ofNat n)

-- ============================================================ strings

/-- Where the reader of a string stands. -/
inductive StringMode where
  | plain
  /-- After a backslash. -/
  | escape
  /-- After `\u`. -/
  | unicode
  /-- After a fixed-width escape that lacks this many digits. -/
  | hex (missing value : Nat)
  /-- Between the braces of an escape, and whether a digit has been read. -/
  | braced (value : Nat) (hasDigit : Bool)
  /-- After an octal escape that may have this many more digits. -/
  | octal (more value : Nat)
  /-- After a backslash and a carriage return. -/
  | continued
deriving DecidableEq, Repr

/-- What one character does to a string. -/
inductive StringStep where
  | close (pieces : List StringPiece)
  | go (pieces : List StringPiece) (mode : StringMode)
  | invalid

/-- A character outside an escape. -/
def stringPlain (quote c : Char) (before : List StringPiece) : StringStep :=
  if c == quote then .close before
  else if c == '\\' then .go before .escape
  else if c == '\n' || c == '\r' then .invalid
  else .go (before ++ [.point c.toNat]) .plain

/-- One character of a string. -/
def stringStep (quote : Char) (mode : StringMode) (c : Char) : StringStep :=
  match mode with
  | .plain => stringPlain quote c []
  | .escape =>
      match c with
      | 'n' => .go [.point 0x0A] .plain
      | 'r' => .go [.point 0x0D] .plain
      | 't' => .go [.point 0x09] .plain
      | 'b' => .go [.point 0x08] .plain
      | 'v' => .go [.point 0x0B] .plain
      | 'f' => .go [.point 0x0C] .plain
      | 'x' => .go [] (.hex 2 0)
      | 'u' => .go [] .unicode
      | '\r' => .go [] .continued
      | '\n' | '\u2028' | '\u2029' => .go [] .plain
      | _ =>
          match octalValue? c with
          | some v => .go [] (.octal (if v < 4 then 2 else 1) v)
          | none => .go [.point c.toNat] .plain
  | .unicode =>
      if c == '\x7b' then .go [] (.braced 0 false)
      else match hexValue? c with
        | some v => .go [] (.hex 3 v)
        | none => .invalid
  | .hex missing value =>
      match hexValue? c with
      | some v =>
          let value := value * 16 + v
          if missing ≤ 1 then .go [.unit value] .plain else .go [] (.hex (missing - 1) value)
      | none => .invalid
  | .braced value hasDigit =>
      if c == '\x7d' then if hasDigit then .go [.point value] .plain else .invalid
      else match hexValue? c with
        | some v =>
            let value := value * 16 + v
            if maxCodePoint < value then .invalid else .go [] (.braced value true)
        | none => .invalid
  | .octal more value =>
      match octalValue? c, more with
      | some v, 1 => .go [.point (value * 8 + v)] .plain
      | some v, more + 2 => .go [] (.octal (more + 1) (value * 8 + v))
      | _, _ => stringPlain quote c [.point value]
  | .continued => if c == '\n' then .go [] .plain else stringPlain quote c []

/-- The pieces of a string up to its closing quote, the text read, and what follows. -/
def scanStringBody (quote : Char) :
    StringMode → Nat → List Char → Option (List StringPiece × List Char × Tail)
  | _, _, [] => none
  | mode, o, c :: cs =>
      match stringStep quote mode c with
      | .close pieces => some (pieces, [], ⟨o + c.utf8Size, cs⟩)
      | .go pieces mode =>
          match scanStringBody quote mode (o + c.utf8Size) cs with
          | some (more, raw, t) => some (pieces ++ more, c :: raw, t)
          | none => none
      | .invalid => none

-- ============================================================ names

/-- Where the reader of a name stands. -/
inductive NameMode where
  | plain
  /-- After a backslash. -/
  | escape
  /-- After `\u`. -/
  | unicode
  | hex (missing value : Nat)
  | braced (value : Nat) (hasDigit : Bool)
deriving DecidableEq, Repr

/-- The character with a code point, if a name may have it there. -/
def nameChar? (isFirst : Bool) (n : Nat) : Option Char :=
  if isSurrogate n || maxCodePoint < n then none
  else
    let c := Char.ofNat n
    if if isFirst then isIdentifierStart c else isIdentifierPart c then some c else none

/-- The characters of a name, whether an escape is among them, and what follows the name.
`isFirst` says that no character has been read yet. -/
def scanNameChars :
    NameMode → Bool → Nat → List Char → Option (List Char × Bool × Tail)
  | .plain, isFirst, o, [] => if isFirst then none else some ([], false, ⟨o, []⟩)
  | _, _, _, [] => none
  | .plain, isFirst, o, c :: cs =>
      if c == '\\' then
        (scanNameChars .escape isFirst (o + 1) cs).map fun r => (r.1, true, r.2.2)
      else match nameChar? isFirst c.toNat with
        | some _ =>
            (scanNameChars .plain false (o + c.utf8Size) cs).map fun r => (c :: r.1, r.2)
        | none => if isFirst then none else some ([], false, ⟨o, c :: cs⟩)
  | .escape, isFirst, o, c :: cs =>
      if c == 'u' then scanNameChars .unicode isFirst (o + 1) cs else none
  | .unicode, isFirst, o, c :: cs =>
      if c == '\x7b' then scanNameChars (.braced 0 false) isFirst (o + 1) cs
      else match hexValue? c with
        | some v => scanNameChars (.hex 3 v) isFirst (o + 1) cs
        | none => none
  | .hex missing value, isFirst, o, c :: cs =>
      match hexValue? c with
      | some v =>
          let value := value * 16 + v
          if missing ≤ 1 then
            match nameChar? isFirst value with
            | some d => (scanNameChars .plain false (o + 1) cs).map fun r => (d :: r.1, r.2)
            | none => none
          else scanNameChars (.hex (missing - 1) value) isFirst (o + 1) cs
      | none => none
  | .braced value hasDigit, isFirst, o, c :: cs =>
      if c == '\x7d' then
        if hasDigit then
          match nameChar? isFirst value with
          | some d => (scanNameChars .plain false (o + 1) cs).map fun r => (d :: r.1, r.2)
          | none => none
        else none
      else match hexValue? c with
        | some v =>
            let value := value * 16 + v
            if maxCodePoint < value then none
            else scanNameChars (.braced value true) isFirst (o + 1) cs
        | none => none

-- ============================================================ templates

/-- Where the reader of a template stands. -/
inductive TemplateMode where
  | plain
  /-- After a backslash. -/
  | escape
  /-- After a dollar sign, which belongs to the text unless a brace follows. -/
  | dollar
deriving DecidableEq, Repr

/-- What a character adds to the text of a template, given what follows it. Every line break in
it, be it one character or two, counts as a line feed. -/
def templateChar (c : Char) (rest : List Char) : List Char :=
  if c != '\r' then [c] else if rest.head? == some '\n' then [] else ['\n']

/-- The text of a template up to a value or its end, whether it ends there, and what follows. -/
def scanTemplateBody : TemplateMode → Nat → List Char → Option (List Char × Bool × Tail)
  | _, _, [] => none
  | mode, o, c :: cs =>
      let held := if mode == .dollar then ['$'] else []
      if mode == .dollar && c == '\x7b' then some ([], false, ⟨o + 1, cs⟩)
      else if mode != .escape && c == '\x60' then some (held, true, ⟨o + 1, cs⟩)
      else
        let mode' : TemplateMode :=
          if mode == .escape then .plain
          else if c == '\\' then .escape
          else if c == '$' then .dollar
          else .plain
        let own := if mode' == .dollar then [] else templateChar c cs
        (scanTemplateBody mode' (o + c.utf8Size) cs).map fun r => (held ++ own ++ r.1, r.2)

/-- Whether every escape in the text of a template has a value. -/
def templateEscapesValid : StringMode → List Char → Bool
  | .plain, [] => true
  | .octal _ 0, [] => true
  | _, [] => false
  | mode, c :: cs =>
      match mode with
      | .plain => templateEscapesValid (if c == '\\' then .escape else .plain) cs
      | .escape =>
          match c with
          | 'x' => templateEscapesValid (.hex 2 0) cs
          | 'u' => templateEscapesValid .unicode cs
          | '0' => templateEscapesValid (.octal 0 0) cs
          | _ => (digitValue? c).isNone && templateEscapesValid .plain cs
      | .octal _ _ =>
          (digitValue? c).isNone &&
            templateEscapesValid (if c == '\\' then .escape else .plain) cs
      | mode =>
          match stringStep '"' mode c with
          | .go _ mode => templateEscapesValid mode cs
          | _ => false

-- ============================================================ regular expressions

/-- The pattern of a regular expression up to its closing slash, and what follows. -/
def scanRegexBody : (escaped inClass : Bool) → Nat → List Char → Option (List Char × Tail)
  | _, _, _, [] => none
  | escaped, inClass, o, c :: cs =>
      if c == '\n' || c == '\r' || c == '\u2028' || c == '\u2029' then none
      else if !escaped && !inClass && c == '/' then some ([], ⟨o + 1, cs⟩)
      else
        let inClass' :=
          if escaped then inClass
          else if c == '[' then true
          else if c == ']' then false
          else inClass
        (scanRegexBody (!escaped && c == '\\') inClass' (o + c.utf8Size) cs).map
          fun r => (c :: r.1, r.2)

end Graft
