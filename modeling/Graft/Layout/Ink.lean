import Graft.Layout.Literal
import Graft.Token.Cursor
/-!
Writing text with an indentation.

A piece of output is an `Ink`: it adds text to a sheet. A sheet knows what the next piece may have
to take care of: how deep the line is indented, whether the text so far ends in something that the
next character could run into, whether a statement has just begun, and which comments still wait
for the node they stand before.
-/
namespace Graft

/-- What has just begun, if nothing has been written since. -/
inductive Beginning where
  | nothing | statement | arrowBody | defaultExport
deriving DecidableEq, Repr

/-- What has been written so far. -/
structure Sheet where
  /-- The text, newest character first. -/
  out : List Char := []
  indent : Nat := 0
  /-- The next indentation is a single space, for the line has begun already. -/
  spaceNext : Bool := false
  beginning : Beginning := .nothing
  /-- The text ends in digits that a point would belong to. -/
  afterDigits : Bool := false
  /-- The text ends in an operator that the same sign would turn into another one. -/
  afterSign : Option Char := none
  comments : List FiledComment := []
deriving Repr

/-- A piece of output. -/
abbrev Ink := Sheet → Sheet

namespace Ink

/-- Nothing. -/
def none : Ink := id

/-- Some pieces, one after the other. -/
def all (pieces : List Ink) : Ink := fun s => pieces.foldl (fun s p => p s) s

/-- Some characters. -/
def chars (cs : List Char) : Ink := fun s =>
  if cs.isEmpty then s
  else { s with
    out := cs.reverse ++ s.out, beginning := .nothing, afterDigits := false, afterSign := .none }

/-- A text. -/
def text (t : String) : Ink := chars t.toList

def space : Ink := chars [' ']

def newline : Ink := chars ['\n']

/-- The end of a simple statement. -/
def semicolonLine : Ink := chars [';', '\n']

/-- The indentation of a line. -/
def indentation : Ink := fun s =>
  if s.spaceNext then { space s with spaceNext := false }
  else chars (List.replicate s.indent '\t') s

/-- What follows goes on after a space instead of starting a line. -/
def sameLine : Ink := fun s => { s with spaceNext := true }

/-- A piece on lines that are indented one step more. -/
def indented (p : Ink) : Ink := fun s =>
  let s := p { s with indent := s.indent + 1 }
  { s with indent := s.indent - 1 }

/-- Notes that something begins here. -/
def begin (b : Beginning) : Ink := fun s => { s with beginning := b }

/-- A piece that depends on what has been written. -/
def seeing (p : Sheet → Ink) : Ink := fun s => p s s

/-- A piece, in parentheses if asked for. -/
def parens (wanted : Bool) (p : Ink) : Ink :=
  if wanted then all [chars ['('], p, chars [')']] else p

/-- Pieces with a comma and a space between them. -/
def commas : List Ink → Ink
  | [] => none
  | [p] => p
  | p :: ps => all [p, chars [',', ' '], commas ps]

/-- Pieces on lines of their own, in braces; no pieces leave the braces empty. -/
def braces (isEmpty : Bool) (inside : Ink) : Ink :=
  if isEmpty then all [chars ['\x7b'], inside, chars ['\x7d']]
  else all [chars ['\x7b', '\n'], indented inside, indentation, chars ['\x7d']]

-- ================================================================= comments

/-- The comments that wait for a position, which no longer wait, and what is written for them. -/
def takingComments (position : Nat) (p : List Comment → Ink) : Ink := fun s =>
  let mine := s.comments.filter fun c => c.position == position
  p (mine.map (·.comment))
    { s with comments := s.comments.filter fun c => c.position != position }

/-- Whether comments wait for a position. -/
def awaits (s : Sheet) (position : Nat) : Bool := s.comments.any fun c => c.position == position

/-- The lines of a text. A carriage return and a line feed end one line. -/
def lines : (line : List Char) → List Char → List (List Char)
  | line, [] => [line.reverse]
  | line, '\r' :: '\n' :: cs => line.reverse :: lines [] cs
  | line, c :: cs => if isLineEnd c then line.reverse :: lines [] cs else lines (c :: line) cs

/-- A line of a block comment; only the first one stands where the comment starts. -/
def commentLine (line : List Char) : Ink :=
  let starts := (Text.dropStart? ['/', '*'] line).isSome
  let ends := (Text.dropStart? ['/', '*'] line.reverse).isSome
  all [if starts then none else indentation,
    chars (Layout.guardScript (Text.trimLeft line)),
    if ends then none else newline]

/-- A comment. One that a line break runs through is laid out line by line. -/
def comment (c : Comment) : Ink :=
  if c.isBlock && c.text.any Text.isLineBreak then all ((lines [] c.text).map commentLine)
  else chars (Layout.guardScript c.text)

/-- Where a comment that starts its own line begins. -/
def commentStart (c : Comment) : Ink :=
  if c.newlineBefore then
    seeing fun s => match s.out with
      | [] => none
      | '\n' :: _ => indentation
      | '\t' :: _ => none
      | _ => all [newline, indentation]
  else indentation

/-- Whether a comment ends its line. -/
def endsLine (c : Comment) : Bool := !c.isBlock || c.newlineAfter

/-- What stands between two comments. A notice that the text must keep starts a line. -/
def commentGap (before after : Comment) : Ink :=
  if endsLine before then all [newline, indentation]
  else if after.isNotice then newline
  else space

/-- Comments on the lines on which they were written. -/
def commentRun : List Comment → Ink
  | [] => none
  | [c] => comment c
  | c :: d :: cs => all [comment c, commentGap c d, commentRun (d :: cs)]

/-- Comments before a line. What follows starts a line, or goes on after a space. -/
def commentsBefore (cs : List Comment) : Ink :=
  match cs with
  | [] => none
  | c :: _ =>
      all [commentStart c, commentRun cs, if endsLine (cs.getLastD c) then newline else sameLine]

/-- The comments that wait for a position, before a line. -/
def commentsAt (position : Nat) : Ink := takingComments position commentsBefore

/-- The comments that wait for a position, before a word in a line. -/
def commentsInLine (position : Nat) : Ink :=
  takingComments position fun cs =>
    if cs.isEmpty then none
    else all [commentsBefore cs, space, fun s => { s with spaceNext := false }]

/-- The comments that wait for a position, each on a line of its own, and a line break; if there are
none, another piece. -/
def commentLinesOr (position : Nat) (otherwise : Ink) : Ink :=
  takingComments position fun cs =>
    if cs.isEmpty then otherwise
    else all [all (cs.map fun c => all [newline, indentation, comment c]), newline]

end Ink

end Graft
