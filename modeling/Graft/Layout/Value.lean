import Graft.Layout.Slot
/-!
The layout of values.

Parentheses are written only where the text would otherwise be read as another tree. A statement
or the body of an arrow function that begins with a brace or with one of the words `function` and
`class` would be misread as well, and gets parentheses around just that value.
-/
namespace Graft

namespace Layout

open Ink

/-- Whether a value may not begin here with a brace. -/
def braceMisread (s : Sheet) : Bool := s.beginning == .statement || s.beginning == .arrowBody

/-- Whether a value may not begin here with a word that starts a declaration. -/
def wordMisread (s : Sheet) : Bool := s.beginning == .statement || s.beginning == .defaultExport

/-- The annotation of a call that has no effect. -/
def pureMark : Ink := text "/* @__PURE__ */ "

/-- The annotation of a function that has no effect. -/
def inertMark : Ink := text "/* @__NO_SIDE_EFFECTS__ */"

/-- The annotation of a function that is a value, in its line. -/
def inertPrefix (isInert : Bool) : Ink := if isInert then all [inertMark, space] else none

-- ================================================================= numbers and templates

def number (v : Binary64) : Ink :=
  let spelling := numberText v
  all [chars spelling, fun s => { s with afterDigits := isBareDigits spelling }]

/-- The pieces of a template with its values between them. -/
def templateText : List String → List Laid → Ink
  | [], _ => none
  | [piece], _ => chars (guardScript piece.toList)
  | piece :: pieces, [] => all [chars (guardScript piece.toList), templateText pieces []]
  | piece :: pieces, v :: vs =>
      all [chars (guardScript piece.toList), chars ['$', '\x7b'], v.free, chars ['\x7d'],
        templateText pieces vs]

def template (pieces : List String) (values : List Laid) : Ink :=
  all [chars ['\x60'], templateText pieces values, chars ['\x60']]

-- ================================================================= lists in brackets

/-- Arguments on lines of their own, each after the comments that wait for it. -/
def argumentLines : List Laid → Ink
  | [] => none
  | a :: more =>
      all [commentLinesOr a.1.span.start newline, indentation, a.at_ .comma,
        if more.isEmpty then none else chars [','], argumentLines more]

/-- Arguments in parentheses. If comments wait for one of them or for the closing parenthesis, the
arguments stand on lines of their own. -/
def arguments (stop : Nat) (values : List Laid) : Ink := seeing fun s =>
  let atEnd := 0 < stop && awaits s (stop - 1)
  if atEnd || values.any fun a => awaits s a.1.span.start then
    all [chars ['('],
      indented (all [argumentLines values,
        if atEnd then commentLinesOr (stop - 1) newline else newline]),
      indentation, chars [')']]
  else all [chars ['('], commas (values.map fun a => a.at_ .comma), chars [')']]

/-- Items between two marks: on one line, or each on a line of its own. -/
def items (isLong : Bool) (pieces : List Ink) : Ink :=
  if isLong then
    all [indented (all (pieces.map fun p => all [newline, indentation, p])), newline, indentation]
  else all pieces

/-- The elements of an array, each with its comma. A hole at the end needs one too. -/
def elements : List Laid → List Ink
  | [] => []
  | [e] => [if e.1.isAbsent then chars [','] else e.at_ .comma]
  | e :: more => all [e.ifPresent (e.at_ .comma), chars [',']] :: elements more

/-- The elements of an array on one line, a space between them. -/
def spaced : List Ink → List Ink
  | [] => []
  | [p] => [p]
  | p :: ps => all [p, space] :: spaced ps

def array (values : List Laid) : Ink :=
  let isLong := 2 < values.length
  let pieces := if isLong then elements values else spaced (elements values)
  all [chars ['['], items isLong pieces, chars [']']]

/-- The members of an object, each with its comma. -/
def members (ban : Ban) : List Laid → List Ink
  | [] => []
  | [m] => [m.free ban]
  | m :: more => all [m.free ban, chars [',']] :: members ban more

/-- An object. One that comments wait for stands in parentheses, the comments inside them. -/
def object (span : Span) (ban : Ban) (values : List Laid) : Ink := seeing fun s =>
  let hasComments := awaits s span.start
  parens (braceMisread s || hasComments) <| all [
    if hasComments then all [commentsAt span.start, indentation] else none,
    chars ['\x7b'],
    match values with
    | [] => none
    | [m] => all [space, m.free ban, space]
    | ms => items true (members ban ms),
    chars ['\x7d']]

-- ================================================================= keys and members

/-- A key, in brackets if it is computed. -/
def key (computed : Bool) (k : Laid) : Ink :=
  if computed then all [chars ['['], k.at_ .comma, chars [']']] else k.at_ .comma

/-- Whether a property says nothing but the name of its value. -/
def saysName (shorthand : Bool) (k value : Node) : Bool :=
  match k.form, value.form with
  | .key name, .identifier used => if name == "__proto__" then shorthand else name == used
  | _, _ => false

/-- A property. A number that is not finite is spelled as a name, and so would name another one
without brackets. -/
def property (computed shorthand : Bool) (k value : Laid) : Ink :=
  if saysName shorthand k.1 value.1 then value.at_ .comma
  else all [key (computed || k.1.form == .number .infinite) k, chars [':', ' '],
    value.at_ .comma]

def method (kind : MethodKind) (flags : FunctionFlags) (computed isStatic : Bool) (ban : Ban)
    (k params body : Laid) : Ink :=
  all [
    if isStatic then text "static " else none,
    match kind with
    | .getter => text "get "
    | .setter => text "set "
    | .plain | .constructor => none,
    if flags.isAsync then text "async " else none,
    if flags.isGenerator then chars ['*'] else none,
    key computed k, chars ['('], params.free ban, chars [')', ' '], body.free ban]

def field (computed isStatic : Bool) (k value : Laid) : Ink :=
  all [
    if isStatic then text "static " else none,
    key computed k,
    value.ifPresent (all [text " = ", value.at_ .comma])]

-- ================================================================= functions and classes

/-- The words that a function starts with, its name, its parameters and its body. -/
def functionText (flags : FunctionFlags) (ban : Ban) (name params body : Laid) : Ink :=
  let ban := ban.lettingCall
  all [
    if flags.isAsync then text "async " else none,
    text "function",
    if flags.isGenerator then text "* " else none,
    name.ifPresent (all [if flags.isGenerator then none else space, name.free]),
    chars ['('], params.free ban, chars [')', ' '], body.free ban]

def arrow (isAsync isExpression : Bool) (ban : Ban) (params body : Laid) : Ink :=
  all [
    if isAsync then text "async " else none,
    chars ['('], params.free ban, chars [')'], text " => ",
    if isExpression then body.2 { ban := ban, shape := .bare } else body.free ban]

/-- A member of a class on its lines. -/
def classMember (ban : Ban) (m : Laid) : Ink :=
  let ends := match m.1.form with
    | .field .. => semicolonLine
    | _ => newline
  all [commentsAt m.1.span.start, indentation, m.free ban, ends]

def classText (ban : Ban) (name base : Laid) (values : List Laid) : Ink :=
  all [
    text "class",
    name.ifPresent (all [space, name.free]),
    base.ifPresent (all [text " extends ", base.at_ .postfixed]),
    space,
    braces values.isEmpty (all (values.map (classMember ban.lettingCall)))]

-- ================================================================= operators

/-- A space where an operator starts with the sign that the text ends in, and would join it. -/
def signGap (op : String) : Ink := seeing fun s =>
  match s.afterSign, op.toList with
  | some c, d :: _ => if c == d then space else none
  | _, _ => none

/-- The operand of an operator. The name Infinity alone may not be deleted in strict code, where
zero and a comma before it make it a value like any other. -/
def operand (op : UnaryOp) (ban : Ban) (v : Laid) : Ink :=
  if op == .delete && v.1.form == .number .infinite then
    all [text "(0, ", v.at_ .exponent ban, chars [')']]
  else v.at_ .exponent ban

def unary (op : UnaryOp) (slot : Slot) (v : Laid) : Ink :=
  parens (slot.level.reaches .unary) <| all [
    if op.isWord then all [text op.text, space]
    else all [signGap op.text, text op.text, fun s => match op with
      | .plus => { s with afterSign := some '+' }
      | .minus => { s with afterSign := some '-' }
      | _ => s],
    operand op slot.ban v]

/-- The operators that count up and down. A sign before one is parted from it even if the operand
stands between them. -/
def update (op : UpdateOp) (isFirst : Bool) (slot : Slot) (v : Laid) : Ink :=
  if isFirst then
    parens (slot.level.reaches .unary)
      (all [signGap op.text, text op.text, v.at_ .unary slot.ban])
  else
    parens (slot.level.reaches .postfixed)
      (all [signGap op.text, v.at_ .postfixed slot.ban, text op.text])

/-- The level just below a precedence. -/
def below : Precedence → Precedence
  | .lowest | .comma => .lowest
  | .spread => .comma
  | .yield => .spread
  | .assign => .yield
  | .conditional => .assign
  | .coalesce => .conditional
  | .logicalOr => .coalesce
  | .logicalAnd => .logicalOr
  | .bitOr => .logicalAnd
  | .bitXor => .bitOr
  | .bitAnd => .bitXor
  | .equals => .bitAnd
  | .compare => .equals
  | .shift => .compare
  | .add => .shift
  | .multiply => .add
  | .exponent => .multiply
  | .unary => .exponent
  | .postfixed => .unary
  | .new => .postfixed
  | .call => .new
  | .member => .call

/-- Two operands around an operator. -/
def joined (op : String) (isWrapped : Bool) (slot : Slot) (left right : Laid)
    (leftLevel rightLevel : Precedence) : Ink :=
  let ban := if isWrapped then slot.ban.lettingIn else slot.ban
  parens isWrapped <| all [
    left.at_ leftLevel ban, space, text op, space, right.at_ rightLevel ban.lettingCall]

/-- Whether a power needs parentheses around its first operand. -/
def isSigned (n : Node) : Bool :=
  match n.form with
  | .unary _ | .number _ => true
  | _ => false

/-- The question whether an object has a private name. -/
def privateIn (name : String) (slot : Slot) (object : Laid) : Ink :=
  parens (slot.level.reaches .compare) <|
    all [chars ['#'], text name, text " in ", object.at_ .equals { noIn := true }]

/-- The level of the first operand. A question for a private name needs no parentheses there. -/
def leftLevel (op : BinaryOp) (left : Node) : Precedence :=
  match left.form with
  | .privateIn _ => .lowest
  | _ =>
      if op != .power then below op.precedence
      else if isSigned left then .call
      else op.precedence

def binary (op : BinaryOp) (slot : Slot) (left right : Laid) : Ink :=
  let own := op.precedence
  let isWrapped := slot.level.reaches own || (op == .contains && slot.ban.noIn)
  joined op.text isWrapped slot left right (leftLevel op left.1)
    (if op == .power then below own else own)

/-- Whether a value joins two others by `&&` or `||`. -/
def isAndOr (n : Node) : Bool := n.form == .logical .and || n.form == .logical .or

/-- The same operator may follow on either side without parentheses; `??` never mixes. -/
def logical (op : LogicalOp) (slot : Slot) (left right : Laid) : Ink :=
  let own := op.precedence
  let side (n : Laid) : Precedence :=
    if op == .coalesce && isAndOr n.1 then .unary else below own
  joined op.text (slot.level.reaches own) slot left right (side left) (side right)

def conditional (slot : Slot) (test yes no : Laid) : Ink :=
  let isWrapped := slot.level.reaches .conditional
  let ban := (if isWrapped then slot.ban.lettingIn else slot.ban).lettingCall
  parens isWrapped <| all [
    test.at_ .conditional ban, text " ? ", yes.at_ .yield, text " : ", no.at_ .yield ban]

/-- An assignment that takes an object apart needs parentheses where a brace would be misread. -/
def assign (op : AssignOp) (slot : Slot) (target value : Laid) : Ink := seeing fun s =>
  let isObject := match target.1.form with
    | .objectPattern _ => true
    | _ => false
  parens ((isObject && braceMisread s) || slot.level.reaches .assign) <| all [
    target.free, space, text op.text, space, value.at_ .comma slot.ban]

-- ================================================================= calls and accesses

def call (isOptional isPure : Bool) (span : Span) (slot : Slot) (callee : Laid)
    (values : List Laid) : Ink := seeing fun s =>
  let isWrapped := slot.level.reaches .new || slot.ban.noCall
    || (isPure && slot.level.reaches .postfixed)
  parens isWrapped <| all [
    if isPure then pureMark else none,
    -- the annotation does not count as the beginning of the statement
    if wordMisread s then begin s.beginning else none,
    callee.at_ .postfixed,
    if isOptional then text "?." else none,
    arguments span.stop values]

def construction (isPure : Bool) (span : Span) (slot : Slot) (callee : Laid)
    (values : List Laid) : Ink :=
  parens (slot.level.reaches .call || (isPure && slot.level.reaches .postfixed)) <| all [
    if isPure then pureMark else none,
    text "new ",
    callee.at_ .new { noCall := true },
    arguments span.stop values]

/-- A module loaded on demand. If comments wait for one of its parts, the parts stand on lines of
their own; only the comments of the source and of the closing parenthesis are written there. -/
def importCall (span : Span) (slot : Slot) (source options : Laid) : Ink := seeing fun s =>
  let atEnd := 0 < span.stop && awaits s (span.stop - 1)
  let isLong := atEnd || awaits s source.1.span.start
    || (!options.1.isAbsent && awaits s options.1.span.start)
  let gap : Ink := if isLong then all [newline, indentation] else space
  let parts := all [source.at_ .comma,
    options.ifPresent (all [chars [','], gap, options.at_ .comma])]
  let inside : Ink :=
    if isLong then
      indented (all [commentLinesOr source.1.span.start newline, indentation, parts,
        if atEnd then commentLinesOr (span.stop - 1) newline else newline])
    else parts
  parens (slot.level.reaches .new || slot.ban.noCall) <|
    all [text "import", chars ['('], inside, chars [')']]

/-- The point before a name. -/
def point (isOptional : Bool) : Ink := if isOptional then text "?." else chars ['.']

/-- A space where bare digits would take the point after them for their own. -/
def digitsGap (isOptional : Bool) : Ink := seeing fun s =>
  if s.afterDigits && !isOptional then space else none

/-- The object of an access. -/
def accessed (ban : Ban) (object : Laid) : Ink := object.at_ .postfixed ban.lettingIn

/-- The object of an access by a value. The name `let` before a bracket would start a
declaration. -/
def indexed (ban : Ban) (object : Laid) : Ink :=
  parens (object.1.form == .identifier "let") (accessed ban object)

-- ================================================================= any value

/-- The layout of a value; other nodes have none here. -/
def value (form : Form) (span : Span) (children : List Laid) (slot : Slot) : Option Ink :=
  match form, children with
  | .identifier name, _ => some (text name)
  | .thisValue, _ => some (text "this")
  | .superValue, _ => some (text "super")
  | .nullValue, _ => some (text "null")
  | .boolean true, _ => some (text "true")
  | .boolean false, _ => some (text "false")
  | .number v, _ => some (number v)
  | .bigint n, _ => some (all [chars (decimalText n), chars ['n']])
  | .string units, _ => some (chars (stringText units))
  | .regex pattern flags, _ => some (all [chars ['/'], text pattern, chars ['/'], text flags])
  | .metaProperty target name, _ => some (all [text target, chars ['.'], text name])
  | .template pieces, values => some (template pieces values)
  | .taggedTemplate pieces, tag :: values =>
      some (all [tag.at_ .postfixed, template pieces values])
  | .array, values => some (array values)
  | .object, values => some (object span slot.ban values)
  | .property computed shorthand, [k, v] => some (property computed shorthand k v)
  | .method kind flags computed isStatic, [k, params, body] =>
      some (method kind flags computed isStatic slot.ban k params body)
  | .field computed isStatic, [k, v] => some (field computed isStatic k v)
  | .key name, _ => some (text name)
  | .privateKey name, _ => some (all [chars ['#'], text name])
  | .spread, [v] => some (all [text "...", v.at_ .comma])
  | .function flags isInert parenthesized, [name, params, body] =>
      some <| seeing fun s => all [inertPrefix isInert,
        parens (wordMisread s || parenthesized) (functionText flags slot.ban name params body)]
  | .arrow isAsync isExpression isInert parenthesized, [params, body] =>
      some <| all [inertPrefix isInert,
        parens (slot.level.reaches .assign || parenthesized)
          (arrow isAsync isExpression slot.ban params body)]
  | .classValue, name :: base :: values =>
      some <| seeing fun s => parens (wordMisread s) (classText slot.ban name base values)
  | .unary op, [v] => some (unary op slot v)
  | .update op isFirst, [v] => some (update op isFirst slot v)
  | .binary op, [l, r] => some (binary op slot l r)
  | .logical op, [l, r] => some (logical op slot l r)
  | .privateIn name, [v] => some (privateIn name slot v)
  | .assign op, [target, v] => some (assign op slot target v)
  | .conditional, [test, yes, no] => some (conditional slot test yes no)
  | .call isOptional isPure, callee :: values =>
      some (call isOptional isPure span slot callee values)
  | .new isPure, callee :: values => some (construction isPure span slot callee values)
  | .importCall, [source, options] => some (importCall span slot source options)
  | .member isOptional name, [o] =>
      some (all [accessed slot.ban o, digitsGap isOptional, point isOptional, text name])
  | .privateMember isOptional name, [o] =>
      some (all [accessed slot.ban o, point isOptional, chars ['#'], text name])
  | .index isOptional, [o, k] =>
      some (all [indexed slot.ban o, if isOptional then text "?." else none, chars ['['], k.free,
        chars [']']])
  | .chain, [v] => some (parens (slot.level.reaches .postfixed) (v.at_ slot.level slot.ban))
  | .sequence, values =>
      some <| parens (slot.level.reaches .comma) <|
        commas (values.map fun v => v.at_ .lowest slot.ban.lettingCall)
  | .yield isDelegate, [v] =>
      some <| parens (slot.level.reaches .assign) <|
        all [text "yield", if isDelegate then chars ['*'] else none,
          v.ifPresent (all [space, v.at_ .yield])]
  | .await, [v] =>
      some <| parens (slot.level.reaches .unary) <|
        all [text "await ", v.at_ .exponent slot.ban]
  | .place, [v] => some (v.2 slot)
  | _, _ => Option.none

end Layout

end Graft
