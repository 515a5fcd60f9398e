import Graft.Layout.Pattern
/-!
The layout of statements.

A statement on lines of its own has the comments that wait for it above it, its indentation before
it and the end of its line after it. What lies between is its phrase, and the phrase alone is what
a statement looks like inside a line: a block after the head of a loop, variables in such a head,
a declaration after `export`.
-/
namespace Graft

namespace Layout

open Ink

-- ================================================================= statements inside others

/-- Statements in braces. -/
def block (ban : Ban) (statements : List Laid) : Ink :=
  braces statements.isEmpty (all (statements.map fun t => t.free ban))

/-- The body of a statement after its head, to the end of the line. -/
def body (ban : Ban) (b : Laid) : Ink :=
  match b.1.form with
  | .block => all [space, b.inline ban, newline]
  | .empty => semicolonLine
  | _ => all [sameLine, b.free ban]

/-- Whether a statement ends in an `if` without `else`, to which an `else` after it would go. -/
def endsOpen : Node → Bool
  | .node .if _ [_, _, no] => no.isAbsent || endsOpen no
  | .node .for _ [_, _, _, last] => endsOpen last
  | .node .forIn _ [_, _, last] => endsOpen last
  | .node (.forOf _) _ [_, _, last] => endsOpen last
  | .node .while _ [_, last] => endsOpen last
  | .node .with _ [_, last] => endsOpen last
  | .node (.labeled _) _ [last] => endsOpen last
  | _ => false
termination_by structural n => n

/-- A condition. An `if` as the alternative goes on in the same line. -/
def condition (ban : Ban) (test yes no : Laid) : Ink :=
  let consequence : Ink :=
    if yes.1.form == .block then
      all [space, yes.inline ban, if no.1.isAbsent then newline else space]
    else if endsOpen yes.1 then
      all [space, braces false (yes.free ban), if no.1.isAbsent then newline else space]
    else all [body ban yes, no.ifPresent indentation]
  let alternative : Ink :=
    if no.1.form == .if then all [text "else ", no.inline ban]
    else all [text "else", body ban no]
  all [text "if (", test.free, chars [')'], consequence, no.ifPresent alternative]

/-- A part of the head of a loop after a semicolon. -/
def loopPart (part : Laid) : Ink :=
  all [chars [';'], part.ifPresent (all [space, part.free])]

def countingLoop (ban : Ban) (start test step last : Laid) : Ink :=
  all [text "for (", start.inline { noIn := true }, loopPart test, loopPart step, chars [')'],
    body ban last]

/-- What a loop over keys or elements assigns to. The word `async` alone would be misread. -/
def loopTarget (ban : Ban) (left : Laid) : Ink :=
  let isMisread := match left.1.children with
    | [target] => left.1.form == .place && target.form == .identifier "async"
    | _ => false
  parens isMisread (left.inline ban)

/-- A loop that tests after its body. A body that is empty has a line of its own, which the test
follows. -/
def doLoop (ban : Ban) (first test : Laid) : Ink :=
  let loop : Ink := match first.1.form with
    | .block => all [space, first.inline ban, space]
    | .empty => first.free ban
    | _ => all [newline, indented (first.free ban), indentation]
  all [text "do", loop, text "while (", test.free, chars [')']]

/-- A case with its statements: one goes on in the same line, others stand on lines below. -/
def case (ban : Ban) (test : Laid) (statements : List Laid) : Ink :=
  all [
    indentation,
    if test.1.isAbsent then text "default" else all [text "case ", test.free],
    chars [':'],
    match statements with
    | [only] => body ban only
    | _ => all [newline, indented (all (statements.map fun t => t.free ban))]]

def handler (span : Span) (ban : Ban) (name last : Laid) : Ink :=
  all [space, commentsAt span.start, text "catch",
    name.ifPresent (all [text " (", name.free, chars [')']]),
    space, commentsAt last.1.span.start, last.inline ban]

def attempt (ban : Ban) (first handler finalizer : Laid) : Ink :=
  all [text "try ", first.inline ban, handler.ifPresent (handler.free ban),
    finalizer.ifPresent (all [text " finally ", finalizer.inline ban])]

-- ================================================================= declarations

/-- The word of a declaration. -/
def variableWord : VariableKind → String
  | .functionWide => "var"
  | .blockWide => "let"
  | .constant => "const"

def declarator (ban : Ban) (pattern value : Laid) : Ink :=
  all [pattern.free, value.ifPresent (all [text " = ", value.at_ .comma ban])]

/-- Whether a statement declares a function without effects. -/
def declaresInert (n : Node) : Bool :=
  match n with
  | .node (.functionDeclaration _ isInert) _ _ => isInert
  | .node .exportDeclaration _ [.node (.functionDeclaration _ isInert) _ _] => isInert
  | .node .exportDefault _ [.node (.functionDeclaration _ isInert) _ _] => isInert
  | _ => false

-- ================================================================= modules

/-- The end of a statement that names a module. -/
def fromModule (source : List StringUnit) (attributes : Laid) : Ink :=
  all [text "from ", chars (stringText source), attributes.ifPresent attributes.free]

/-- Entries in braces on one line. -/
def entries (values : List Laid) : Ink :=
  if values.isEmpty then text "\x7b\x7d"
  else all [text "\x7b ", commas (values.map fun v => v.free), text " \x7d"]

/-- What is taken from a module: the names that are taken one by one stand in braces. -/
def importList (values : List Laid) : Ink :=
  let isNamed (v : Laid) : Bool := match v.1.form with
    | .importNamed => true
    | _ => false
  let named := values.filter isNamed
  let whole := values.filter fun v => !isNamed v
  commas (whole.map (fun v => v.free) ++
    if named.isEmpty && !whole.isEmpty then [] else [entries named])

/-- A name and, if it differs, the name that it gets. -/
def renamed (old new : Laid) : Ink :=
  all [old.free,
    if old.1.spelledName? == new.1.spelledName? then none else all [text " as ", new.free]]

/-- A name with the comments that wait for it. -/
def commented (name : Laid) : Laid :=
  (name.1, fun slot => all [commentsInLine name.1.span.start, name.2 slot])

/-- An exported value. -/
def defaultExport (value : Laid) : Ink :=
  all [text "export default ",
    match value.1.form with
    | .functionDeclaration .. | .classDeclaration => all [value.inline, newline]
    | _ => all [begin .defaultExport, value.at_ .comma, semicolonLine]]

/-- An exported declaration. -/
def exportedDeclaration (declaration : Laid) : Ink :=
  all [text "export ", declaration.inline,
    match declaration.1.form with
    | .variableDeclaration _ => semicolonLine
    | _ => newline]

-- ================================================================= any statement

/-- What a statement looks like inside a line, and, if nothing may follow there, to its end. -/
def phrase (form : Form) (children : List Laid) (ban : Ban) : Option Ink :=
  match form, children with
  | .expressionStatement, [v] => some (all [begin .statement, v.free])
  | .variableDeclaration kind, declarators =>
      some (all [text (variableWord kind), space,
        commas (declarators.map fun d => d.free ban)])
  | .functionDeclaration flags _, [name, params, last] =>
      some (functionText flags ban name params last)
  | .classDeclaration, name :: base :: values => some (classText ban name base values)
  | .block, statements => some (block ban statements)
  | .empty, _ => some none
  | .if, [test, yes, no] => some (condition ban test yes no)
  | .for, [start, test, step, last] => some (countingLoop ban start test step last)
  | .forIn, [left, object, last] =>
      some (all [text "for (", loopTarget { noIn := true } left, text " in ", object.free,
        chars [')'], body ban last])
  | .forOf isAwait, [left, values, last] =>
      some (all [text (if isAwait then "for await (" else "for ("), loopTarget ban left,
        text " of ", values.at_ .comma, chars [')'], body ban last])
  | .while, [test, last] => some (all [text "while (", test.free, chars [')'], body ban last])
  | .doWhile, [first, test] => some (doLoop ban first test)
  | .return, [v] => some (all [text "return", v.ifPresent (all [space, v.free])])
  | .throw, [v] => some (all [text "throw ", v.free])
  | .break label, _ => some (text ("break" ++ (label.map (" " ++ ·)).getD ""))
  | .continue label, _ => some (text ("continue" ++ (label.map (" " ++ ·)).getD ""))
  | .labeled label, [last] => some (all [text label, chars [':'], body ban last])
  | .switch, v :: cases =>
      some (all [text "switch (", v.free, text ") ",
        braces cases.isEmpty (all (cases.map fun c => c.free ban))])
  | .try, [first, handler, finalizer] => some (attempt ban first handler finalizer)
  | .with, [object, last] =>
      some (all [text "with(", object.free, chars [')'], body ban last])
  | .debugger, _ => some (text "debugger")
  | .importFrom source true, attributes :: _ =>
      some (all [text "import ", chars (stringText source),
        attributes.ifPresent attributes.free])
  | .importFrom source false, attributes :: specifiers =>
      some (all [text "import ", importList specifiers, space, fromModule source attributes])
  | .exportDeclaration, [declaration] => some (exportedDeclaration declaration)
  | .exportNames source, _ :: specifiers =>
      some (all [text "export ", entries specifiers,
        match source with
        | some source => all [space, text "from ", chars (stringText source)]
        | Option.none => none])
  | .exportAll source, [attributes, name] =>
      some (all [text "export *", name.ifPresent (all [text " as ", name.free]), space,
        fromModule source attributes])
  | .exportDefault, [v] => some (defaultExport v)
  | _, _ => Option.none

/-- How the line of a statement ends after its phrase. -/
def lineEnd : Form → Ink
  | .block | .functionDeclaration .. | .classDeclaration | .switch | .try => newline
  | .if | .for | .forIn | .forOf _ | .while | .with | .labeled _ | .exportDeclaration
  | .exportDefault => none
  | _ => semicolonLine

/-- The layout of a statement; other nodes have none here. -/
def statement (form : Form) (span : Span) (children : List Laid) (slot : Slot) : Option Ink :=
  match slot.shape, form, children with
  | .bare, .expressionStatement, [v] => some (all [begin .arrowBody, v.at_ .comma slot.ban])
  | .lines, _, _ =>
      (phrase form children slot.ban).map fun p =>
        all [
          commentsAt span.start,
          if declaresInert (.node form span (children.map Prod.fst)) then
            all [indentation, inertMark, newline]
          else none,
          indentation, p, lineEnd form]
  | _, _, _ => phrase form children slot.ban

/-- The layout of the parts of statements; other nodes have none here. -/
def part (form : Form) (span : Span) (children : List Laid) (slot : Slot) : Option Ink :=
  match form, children with
  | .declarator, [pattern, v] => some (declarator slot.ban pattern v)
  | .case, test :: statements => some (case slot.ban test statements)
  | .catch, [name, last] => some (handler span slot.ban name last)
  | .staticBlock, statements => some (all [text "static ", block slot.ban statements])
  | .attributes word, values => some (all [space, text word, space, entries values])
  | .attributeEntry, [k, v] => some (all [k.free, text ": ", v.free])
  | .importDefault, [name] => some name.free
  | .importAll, [name] => some (all [text "* as ", name.free])
  | .importNamed, [old, new] => some (renamed old new)
  | .exportName, [old, new] => some (renamed (commented old) (commented new))
  | _, _ => Option.none

end Layout

end Graft
