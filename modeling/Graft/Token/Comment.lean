import Graft.Text.Blank
import Graft.Token.Tail
/-!
Comments, and the gaps between tokens where they stand.

A comment belongs to the token after it, unless it trails: a comment that begins on the line of
the token before it and ends that line is about the past and is forgotten, together with those
before it on the line. After an equals sign or an opening parenthesis a line comment is kept all
the same, for there it speaks about what follows.
-/
namespace Graft

/-- A comment as it was written. -/
structure Comment where
  text : List Char
  isBlock : Bool
  /-- A line break came before it in its gap. -/
  newlineBefore : Bool
  /-- A line break follows it. -/
  newlineAfter : Bool
deriving DecidableEq, Repr, Inhabited

namespace Comment

/-- What a comment says, after the two characters that open it. -/
def content (c : Comment) : List Char := c.text.drop 2

/-- The words that mark a comment as a notice. -/
def noticeWords : List (List Char) := ["@license".toList, "@preserve".toList]

/-- Whether a comment is a notice that has to stay with the text: it starts with an exclamation
mark, or one of the words for it is in it. -/
def isNotice (c : Comment) : Bool :=
  c.content.head? == some '!' ||
    noticeWords.any fun word => Text.occursIn word c.content

end Comment

/-- A character that ends a line of program text. -/
def isLineEnd (c : Char) : Bool :=
  Text.isLineBreak c || c == '\u2028' || c == '\u2029'

/-- A space between tokens that does not end a line. Some characters count that have lost the
property of being white space, or never had it. -/
def isInlineSpace (c : Char) : Bool :=
  c == '\uFEFF' || c == '\u180E' || c == '\u200B' || (Text.isBlank c && !isLineEnd c)

/-- What a gap has held so far. -/
structure Gap where
  /-- The comments that do not trail, newest first. -/
  pending : List Comment
  /-- Whether a line comment may start without trailing. -/
  afterOpener : Bool
  /-- Whether a line has ended outside block comments. -/
  sawBreak : Bool
  /-- Whether a line has ended at all. -/
  newline : Bool
  /-- Whether a comment says that the next call has no effect. -/
  isPure : Bool
  /-- Whether a comment says that the next function has no effect. -/
  isInert : Bool
deriving Repr

namespace Gap

/-- The end of a line, by the character that ends it. A separator of lines or paragraphs parts
tokens, but says nothing about the comments around it. -/
def lineBreak (c : Char) (g : Gap) : Gap :=
  if Text.isLineBreak c then
    let pending := match g.pending with
      | [] => []
      | c :: cs => if g.sawBreak then { c with newlineAfter := true } :: cs else []
    { g with pending := pending, sawBreak := true, newline := true }
  else { g with newline := true }

/-- The white space that may come before an annotation. -/
def isAnnotationSpace (c : Char) : Bool :=
  c == ' ' || c == '\t' || c == '\n' || c == '\x0c' || c == '\r'

/-- Whether a comment is the annotation `word`, after `#` or `@`. -/
def announces (word : String) (content : List Char) : Bool :=
  match content.dropWhile isAnnotationSpace with
  | c :: rest => (c == '#' || c == '@') && (Text.dropStart? word.toList rest).isSome
  | [] => false

/-- A comment has been read. -/
def addComment (g : Gap) (isBlock : Bool) (text : List Char) : Gap :=
  let comment : Comment :=
    { text := text, isBlock := isBlock, newlineBefore := g.sawBreak, newlineAfter := !isBlock }
  let g := { g with
    isPure := g.isPure || announces "__PURE__" comment.content
    isInert := g.isInert || announces "__NO_SIDE_EFFECTS__" comment.content }
  if isBlock then
    { g with
      pending := comment :: g.pending
      newline := g.newline || text.any isLineEnd }
  else
    let trails := !g.sawBreak && !g.afterOpener
    { g with pending := if trails then [] else comment :: g.pending, sawBreak := true }

/-- The comments of a gap that are printed, oldest first: annotations have a place in the tree. -/
def kept (g : Gap) : List Comment :=
  (g.pending.filter fun c =>
    !announces "__PURE__" c.content && !announces "__NO_SIDE_EFFECTS__" c.content).reverse

end Gap

/-- Where the reader of a gap stands; comments are gathered newest character first. -/
inductive GapMode where
  | between
  | line (text : List Char)
  /-- In a block comment; `star` says that an asterisk came just before, which may close it. -/
  | block (text : List Char) (star : Bool)
  /-- At the asterisk that opens a block comment. -/
  | blockStart
deriving Repr

/-- Whether a comment that runs to the end of the line starts here. -/
def startsLineComment (newline : Bool) (c : Char) (cs : List Char) : Bool :=
  (c == '/' && cs.head? == some '/')
    || (c == '<' && (Text.dropStart? ['!', '-', '-'] cs).isSome)
    || (c == '-' && newline && (Text.dropStart? ['-', '>'] cs).isSome)

/-- The gap that a text begins with, and what follows it. -/
def scanGap : GapMode → Gap → Nat → List Char → Option (Gap × Tail)
  | .between, g, o, [] => some (g, ⟨o, []⟩)
  | .line text, g, o, [] => some (g.addComment false text.reverse, ⟨o, []⟩)
  | .block _ _, _, _, [] => none
  | .blockStart, _, _, [] => none
  | .between, g, o, c :: cs =>
      let o' := o + c.utf8Size
      if isInlineSpace c then scanGap .between g o' cs
      else if isLineEnd c then scanGap .between (g.lineBreak c) o' cs
      else if startsLineComment g.newline c cs then scanGap (.line [c]) g o' cs
      else if c == '/' && cs.head? == some '*' then scanGap .blockStart g o' cs
      else some (g, ⟨o, c :: cs⟩)
  | .line text, g, o, c :: cs =>
      let o' := o + c.utf8Size
      if isLineEnd c then scanGap .between ((g.addComment false text.reverse).lineBreak c) o' cs
      else scanGap (.line (c :: text)) g o' cs
  | .blockStart, g, o, c :: cs => scanGap (.block [c, '/'] false) g (o + c.utf8Size) cs
  | .block text star, g, o, c :: cs =>
      let o' := o + c.utf8Size
      if star && c == '/' then
        scanGap .between (g.addComment true (c :: text).reverse) o' cs
      else scanGap (.block (c :: text) (c == '*')) g o' cs

end Graft
