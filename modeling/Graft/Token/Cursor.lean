import Graft.Token.Comment
import Graft.Token.Numeral
/-!
A cursor on the tokens of a text.

The cursor shows one token at a time and reads the next one on demand, because the grammar
decides how some characters are read: a slash where a value is expected opens a regular
expression (`Cursor.asRegex?`), and a brace that closes a value inside a template goes on with
the template (`Cursor.asTemplate?`). Comments that are kept gather on the way, each filed under
the position of the token it stands before.
-/
namespace Graft

open Text

/-- A comment and the position of the token that it stands before. -/
structure FiledComment where
  position : Nat
  comment : Comment
deriving DecidableEq, Repr

/-- A place between two tokens: the one shown and the rest of the text. -/
structure Cursor where
  lexeme : Lexeme
  /-- The text from the shown token on. -/
  here : Tail
  /-- The text after the shown token. -/
  after : Tail
  /-- Whether a line break comes before the shown token. -/
  newline : Bool
  /-- Where the token before ended. -/
  previousStop : Nat
  /-- Whether a comment says that a call that starts here has no effect. -/
  isPure : Bool
  /-- Whether a comment says that a function that starts here has no effect. -/
  isInert : Bool
  /-- The comments met so far, newest first. -/
  comments : List FiledComment
  /-- Where the literals start that end in a spread and a comma; none of them can be assigned to. -/
  looseSpreads : List Nat
deriving Repr

/-- A word: a keyword or a name. -/
def wordLexeme (word : List Char) (escaped : Bool) : Lexeme :=
  match Keyword.ofText? word with
  | some k => .keyword k (String.ofList word) escaped
  | none => .name (String.ofList word) escaped

/-- The mark that a tail begins with. A question mark and a point are one mark unless a digit
follows. -/
def scanMark? (t : Tail) : Option (Lexeme × Tail) :=
  match t.chars with
  | '?' :: '.' :: c :: _ =>
      if isDecimalDigit c then some (.mark .question, t.drop 1)
      else some (.mark .questionDot, t.drop 2)
  | ['?', '.'] => some (.mark .questionDot, t.drop 2)
  | _ =>
      (Mark.spellings.find? fun e => (dropStart? e.1 t.chars).isSome).map
        fun e => (.mark e.2, t.drop e.1.length)

/-- The token that a tail begins with, and what follows it. -/
def scanLexeme? (t : Tail) : Option (Lexeme × Tail) :=
  match t.chars with
  | [] => some (.finish, t)
  | c :: cs =>
      if c == '"' || c == '\x27' then
        (scanStringBody c .plain (t.offset + 1) cs).map fun r =>
          (.string (StringUnit.ofPieces r.1) (String.ofList r.2.1), r.2.2)
      else if c == '\x60' then
        (scanTemplateBody .plain (t.offset + 1) cs).map fun r =>
          (.template (String.ofList r.1) r.2.1, r.2.2)
      else if c == '#' then
        (scanNameChars .plain true (t.offset + 1) cs).map fun r =>
          (.privateName (String.ofList r.1), r.2.2)
      else if isDecimalDigit c || (c == '.' && cs.head?.any isDecimalDigit) then scanNumber? t
      else if isIdentifierStart c || c == '\\' then
        (scanNameChars .plain true t.offset t.chars).map fun r => (wordLexeme r.1 r.2.1, r.2.2)
      else scanMark? t

namespace Cursor

/-- The cursor on the first token after a tail. -/
def readFrom? (t : Tail) (afterOpener isStart : Bool) (comments : List FiledComment)
    (looseSpreads : List Nat) : Option Cursor := do
  let gap : Gap :=
    { pending := [], afterOpener := afterOpener, sawBreak := isStart, newline := isStart,
      isPure := false, isInert := false }
  let (gap, here) ← scanGap .between gap t.offset t.chars
  let (lexeme, after) ← scanLexeme? here
  let filed := gap.kept.map fun c => ⟨here.offset, c⟩
  some
    { lexeme := lexeme, here := here, after := after, newline := gap.newline
      previousStop := t.offset, isPure := gap.isPure, isInert := gap.isInert
      comments := filed.reverse ++ comments, looseSpreads := looseSpreads }

/-- The cursor on the next token. -/
def advance? (c : Cursor) : Option Cursor :=
  readFrom? c.after (c.lexeme == .mark (.assign .plain) || c.lexeme == .mark .openParen) false
    c.comments c.looseSpreads

/-- The flags that a regular expression may have. -/
def regexFlags : List Char := ['d', 'g', 'i', 'm', 's', 'u', 'v', 'y']

/-- Reads the shown slash as the start of a regular expression. Its flags are each known and
given once. -/
def asRegex? (c : Cursor) : Option Cursor := do
  let start := c.here.drop 1
  let (pattern, t) ← scanRegexBody false false start.offset start.chars
  let (flags, t) := t.span isIdentifierPart
  if flags.all regexFlags.contains && flags.eraseDups.length == flags.length then
    some { c with
      lexeme := .regex (String.ofList pattern) (String.ofList (regexFlags.filter flags.contains))
      after := t }
  else none

/-- Reads the shown brace as the end of a value in a template. -/
def asTemplate? (c : Cursor) : Option Cursor := do
  let start := c.here.drop 1
  let (raw, isLast, t) ← scanTemplateBody .plain start.offset start.chars
  some { c with lexeme := .template (String.ofList raw) isLast, after := t }

end Cursor

end Graft
