import Graft.Grammar.Program
import Graft.Layout.Statement
/-!
The layout of whole programs.

`Program.render` writes a program so that reading the result gives the same tree again, with the
comments that wait for one of its nodes.
-/
namespace Graft

namespace Layout

open Ink

/-- Directives and statements. A string that would be read as a directive stands in parentheses. -/
def parts (ban : Ban) (children : List Laid) : Ink :=
  match children with
  | (.node .expressionStatement _ [.node (.string units) _ _], _) :: more =>
      all [chars ['('], chars (stringText units), chars [')'], semicolonLine,
        all (more.map fun c => c.free ban)]
  | _ => all (children.map fun c => c.free ban)

/-- Whether a comment stands in a line with what is before and after it. -/
def isWithinLine (c : Comment) : Bool := !c.newlineBefore && !c.newlineAfter

/-- The body of a function. The comments that wait for its closing brace stand before it. -/
def functionBody (span : Span) (ban : Ban) (children : List Laid) : Ink :=
  let position := span.stop - 1
  if span.stop == 0 then braces children.isEmpty (parts ban children)
  else takingComments position fun comments =>
    let isSingleLine := children.isEmpty && comments.all fun c => isWithinLine c && !c.isNotice
    braces isSingleLine <| all [
      parts ban children,
      if comments.isEmpty then none
      else all [commentsBefore comments, fun s => { s with spaceNext := false }]]

/-- The layout of a program and of its directives; other nodes have none here. -/
def whole (form : Form) (span : Span) (children : List Laid) (slot : Slot) : Option Ink :=
  match form, slot.shape with
  | .program hashbang, _ =>
      some (all [
        commentsAt 0,
        match hashbang with
        | some line => all [text "#!", text line, newline]
        | Option.none => none,
        parts {} children,
        commentsAt span.stop])
  | .directive raw, _ =>
      some (all [commentsAt span.start, indentation, chars (directiveText raw), semicolonLine])
  | .functionBody, .bare => some (all (children.map fun c => c.2 slot))
  | .functionBody, _ => some (functionBody span slot.ban children)
  | _, _ => Option.none

/-- The layout of a node, given those of its children. -/
def algebra : Algebra Layout := fun form span children slot =>
  let layouts := [value form span children slot, pattern form children slot,
    statement form span children slot, part form span children slot,
    whole form span children slot]
  (layouts.findSome? id).getD none

end Layout

namespace Node

/-- What a tree looks like, with the comments that stand before its tokens. -/
def render (tree : Node) (comments : List FiledComment) : String :=
  let sheet := tree.fold Layout.algebra {} { comments := comments }
  String.ofList sheet.out.reverse

end Node

namespace Program

/-- The text of a program. -/
def render (p : Program) : String := p.tree.render p.comments

end Program

end Graft
