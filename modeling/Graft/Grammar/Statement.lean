import Graft.Grammar.Expression
import Graft.Tree.Shape
/-!
Statements, declarations, and the imports and exports of a module.

Most statements are told by their first token. Where a word may also be a name, as `let` and `async`
may, the tokens after it decide. A statement that is a value may turn out to be a label once a colon
follows it.
-/
namespace Graft

namespace Node

/-- A statement whose function has no effect when it is called: the function that it declares, the
first constant, or the default of the module. -/
def asInertStatement : Node → Node
  | .node (.functionDeclaration flags _) span parts =>
      .node (.functionDeclaration flags true) span parts
  | .node (.variableDeclaration .constant) span (.node .declarator own [pattern, value] :: more) =>
      .node (.variableDeclaration .constant) span
        (.node .declarator own [pattern, value.asInert] :: more)
  | .node .exportDeclaration span [declaration] =>
      .node .exportDeclaration span [declaration.asInertStatement]
  | .node .exportDefault span [shown] => .node .exportDefault span [shown.asInertStatement.asInert]
  | n => n
termination_by structural n => n

end Node

namespace Parse

/-- A value in parentheses, as the head of a statement. -/
def head (r : Rules) (s : Setting) : Parse Node := do
  mark .openParen
  let value ← expression r s
  mark .closeParen
  return value

/-- Whether a declarator needs an initial value and has none. -/
def lacksValue (kind : VariableKind) (declarator : Node) : Bool :=
  match declarator.children with
  | [pattern, value] =>
      value.isAbsent && (kind == .constant || match pattern.form with
        | .binding _ => false
        | _ => true)
  | _ => false

/-- A declarator: a pattern and possibly its initial value. -/
def declarator (r : Rules) (s : Setting) : Parse Node := do
  let start ← position
  let pattern ← r.pattern s
  let value ← if ← eatMark (.assign .plain) then r.assignment s else pure Node.absent
  node start .declarator [pattern, value]

/-- The declarators after the first one. -/
def moreDeclarators (r : Rules) (s : Setting) : Parse (List Node) :=
  many (do return !(← atMark .comma)) (do next; declarator r s) r.fuel

/-- The kind of declaration that the shown word announces. -/
def variableKind? : Lexeme → Option VariableKind
  | .keyword .var _ false => some .functionWide
  | .keyword .const _ false => some .constant
  | .name "let" false => some .blockWide
  | _ => none

/-- A declaration of variables as a statement of its own. -/
def variableDeclaration (r : Rules) (s : Setting) (kind : VariableKind) : Parse Node := do
  let start ← position
  next
  let first ← declarator r s
  let all := first :: (← moreDeclarators r s)
  if all.any (lacksValue kind) then failure
  endStatement
  node start (.variableDeclaration kind) all

/-- A statement that is a value. -/
def expressionStatement (r : Rules) (s : Setting) : Parse Node := do
  let start ← position
  let value ← expression r s
  match value with
  | .node (.identifier label) _ _ =>
      if ← eatMark .colon then
        let body ← r.statement s .alone
        node start (.labeled label) [body]
      else
        endStatement
        node start .expressionStatement [value]
  | _ =>
      endStatement
      node start .expressionStatement [value]

/-- What a statement that starts with the shown `let` is, by the token after it. -/
inductive LetUse where
  /-- A declaration. -/
  | declaration
  /-- The name alone. -/
  | name
  /-- A value that starts with the name and an operator, and is no list. -/
  | operation
  /-- Any value that starts with the name. -/
  | access
deriving DecidableEq, Repr

/-- What a statement that starts with the shown `let` is. -/
def letUse (place : StatementPlace) : Parse LetUse := fun c =>
  let after := match c.advance? with
    | some c => c.lexeme
    | none => .finish
  let use : LetUse := match after with
    | .mark (.assign _) | .mark (.binary _) | .keyword .in _ _ | .keyword .instanceof _ _ =>
        .operation
    | .mark .dot | .mark .questionDot | .mark .openParen => .access
    | .mark .semicolon => .name
    | .mark .openBracket => .declaration
    | _ => if place == .alone then .name else .declaration
  some (use, c)

/-- A statement that starts with the shown `let`. -/
def letStatement (r : Rules) (s : Setting) (place : StatementPlace) : Parse Node := do
  let start ← position
  let simple (read : Parse Node) : Parse Node := do
    let value ← read
    endStatement
    node start .expressionStatement [value]
  match ← letUse place with
  | .declaration => if place == .alone then failure else variableDeclaration r s .blockWide
  | .name => simple (leaf (.identifier "let"))
  | .operation => simple (r.assignment s)
  | .access => simple (expression r s)

/-- A function as a statement. Alone, it may neither be asynchronous nor a generator. -/
def functionStatement (r : Rules) (s : Setting) (place : StatementPlace) : Parse Node := do
  let declaration ← functionDeclaration r s true
  match declaration.form with
  | .functionDeclaration flags _ =>
      if place == .alone && (flags.isAsync || flags.isGenerator) then failure
      return declaration
  | _ => return declaration

def blockStatement (r : Rules) (s : Setting) : Parse Node := do
  let start ← position
  mark .openBrace
  let statements ← many (atMark .closeBrace) (r.statement s .listed) r.fuel
  mark .closeBrace
  node start .block statements

def ifStatement (r : Rules) (s : Setting) : Parse Node := do
  let start ← position
  keyword .if
  let test ← head r s
  let yes ← r.statement s .alone
  let no ← if ← eatKeyword .else then r.statement s .alone else pure Node.absent
  node start .if [test, yes, no]

/-- The rest of a counting loop, from the first semicolon on. -/
def countingLoop (r : Rules) (s : Setting) (start : Nat) (init : Node) : Parse Node := do
  mark .semicolon
  let test ← if ← atMark .semicolon then pure Node.absent else expression r s
  mark .semicolon
  let step ← if ← atMark .closeParen then pure Node.absent else expression r s
  mark .closeParen
  let body ← r.statement s .alone
  node start .for [init, test, step, body]

/-- The rest of a loop over the keys of an object. -/
def keyLoop (r : Rules) (s : Setting) (start : Nat) (left : Node) : Parse Node := do
  keyword .in
  let object ← expression r s
  mark .closeParen
  let body ← r.statement s .alone
  node start .forIn [left, object, body]

/-- The rest of a loop over the elements of a sequence. -/
def elementLoop (r : Rules) (s : Setting) (start : Nat) (isAwait : Bool) (left : Node) :
    Parse Node := do
  word "of"
  let sequence ← r.assignment s
  mark .closeParen
  let body ← r.statement s .alone
  node start (.forOf isAwait) [left, sequence, body]

/-- Whether the shown `let` in the head of a loop announces a declaration. -/
def letDeclaresInLoop : Parse Bool := ahead do
  next
  match ← peek with
  | .name .. | .mark .openBrace | .mark .openBracket => return true
  | .keyword w _ _ => return w != .in
  | _ => return false

/-- Whether `async of` is shown, which no loop over elements may start with. -/
def atAsyncOf : Parse Bool := ahead do
  word "async"
  atWord "of"

def forStatement (r : Rules) (s : Setting) : Parse Node := do
  let start ← position
  keyword .for
  let isAwait ← eatWord "await"
  if isAwait && !s.inAsync then failure
  mark .openParen
  let inner ← position
  let kind := variableKind? (← peek)
  let declares ← match kind with
    | some .blockWide => letDeclaresInLoop
    | some _ => pure true
    | none => pure false
  match kind, declares with
  | some kind, true =>
      next
      let first ← declarator r s.loopHead
      let more ← moreDeclarators r s.loopHead
      let left ← node inner (.variableDeclaration kind) (first :: more)
      if ← atKeyword .in then
        if isAwait then failure
        keyLoop r s start left
      else if ← atWord "of" then elementLoop r s start isAwait left
      else
        if isAwait || (first :: more).any (lacksValue kind) then failure
        countingLoop r s start left
  | _, _ =>
      if ← atMark .semicolon then
        if isAwait then failure
        countingLoop r s start Node.absent
      else
        let startsWithLet ← atWord "let"
        let startsWithAsyncOf ← atAsyncOf
        let value ← expression r s.loopHead
        let loose := (← get).looseSpreads
        if ← atKeyword .in then
          if isAwait then failure
          match value.asTarget? loose with
          | some left => keyLoop r s start left
          | none => failure
        else if ← atWord "of" then
          if startsWithLet || (startsWithAsyncOf && !isAwait) then failure
          match value.asTarget? loose with
          | some left => elementLoop r s start isAwait left
          | none => failure
        else
          if isAwait then failure
          countingLoop r s start value

def whileStatement (r : Rules) (s : Setting) : Parse Node := do
  let start ← position
  keyword .while
  let test ← head r s
  let body ← r.statement s .alone
  node start .while [test, body]

def doWhileStatement (r : Rules) (s : Setting) : Parse Node := do
  let start ← position
  keyword .do
  let body ← r.statement s .alone
  keyword .while
  let test ← head r s
  let _ ← eatMark .semicolon
  node start .doWhile [body, test]

/-- The label of a jump, on the same line. -/
def jumpLabel (s : Setting) : Parse (Option String) := do
  if ← newlineBefore then return none
  match ← peek with
  | .name text _ =>
      if !usable s text then failure
      next
      return some text
  | _ => return none

def jump (s : Setting) (form : Option String → Form) : Parse Node := do
  let start ← position
  next
  let label ← jumpLabel s
  endStatement
  node start (form label) []

/-- Whether nothing more of a statement is shown. -/
def atStatementEnd : Parse Bool := do
  return (← newlineBefore) || (← atMark .semicolon) || (← atMark .closeBrace)
    || (← peek) == .finish

def returnStatement (r : Rules) (s : Setting) : Parse Node := do
  let start ← position
  if !s.allowsReturn then failure
  next
  let ends ← atStatementEnd
  let value ← if ends then pure Node.absent else expression r s
  endStatement
  node start .return [value]

def throwStatement (r : Rules) (s : Setting) : Parse Node := do
  let start ← position
  next
  if ← newlineBefore then failure
  let value ← expression r s
  endStatement
  node start .throw [value]

def withStatement (r : Rules) (s : Setting) : Parse Node := do
  let start ← position
  next
  let object ← head r s
  let body ← r.statement s .alone
  node start .with [object, body]

def switchCase (r : Rules) (s : Setting) : Parse Node := do
  let start ← position
  let test ← if ← eatKeyword .default then pure Node.absent else
    keyword .case
    expression r s
  mark .colon
  let ends : Parse Bool := do
    return (← atKeyword .case) || (← atKeyword .default) || (← atMark .closeBrace)
  let statements ← many ends (r.statement s .listed) r.fuel
  node start .case (test :: statements)

def switchStatement (r : Rules) (s : Setting) : Parse Node := do
  let start ← position
  next
  let value ← head r s
  mark .openBrace
  let cases ← many (atMark .closeBrace) (switchCase r s) r.fuel
  mark .closeBrace
  node start .switch (value :: cases)

def catchClause (r : Rules) (s : Setting) : Parse Node := do
  let start ← position
  keyword .catch
  let name ← if ← eatMark .openParen then
      let pattern ← r.pattern s
      mark .closeParen
      pure pattern
    else pure Node.absent
  let body ← blockStatement r s
  node start .catch [name, body]

def tryStatement (r : Rules) (s : Setting) : Parse Node := do
  let start ← position
  next
  let body ← blockStatement r s
  let handler ← if ← atKeyword .catch then catchClause r s else pure Node.absent
  let finalizer ← if ← eatKeyword .finally then blockStatement r s else pure Node.absent
  if handler.isAbsent && finalizer.isAbsent then failure
  node start .try [body, handler, finalizer]

-- ============================================================ modules

/-- The value of a string that is shown, which is read. -/
def stringValue : Parse (List StringUnit) := do
  match ← peek with
  | .string value _ => next; return value
  | _ => failure

/-- A name by which a module shows something. A string that is one holds whole characters. -/
def exportedName : Parse Node := do
  match ← peek with
  | .string value _ =>
      if value.any StringUnit.isHalf then failure
      leaf (.string value)
  | lexeme =>
      match wordAsKey lexeme with
      | some name => leaf (.key name)
      | none => failure

/-- An entry of what is said about how to read another module. -/
def attributeEntry : Parse Node := do
  let start ← position
  let key ← match ← peek with
    | .string value _ => leaf (.string value)
    | _ => exportedName
  mark .colon
  match ← peek with
  | .string value _ =>
      let value ← leaf (.string value)
      node start .attributeEntry [key, value]
  | _ => failure

/-- The key of an entry as a text. -/
def attributeKey? (entry : Node) : Option String := entry.children.head?.bind Node.spelledName?

/-- What is said about how to read another module, if anything is. No key comes twice. -/
def attributes (r : Rules) : Parse Node := do
  let start ← position
  let word ←
    if ← eatKeyword .with then pure "with"
    else if !(← newlineBefore) && (← atWord "assert") then
      next
      pure "assert"
    else return Node.absent
  mark .openBrace
  let (entries, _) ← listed .closeBrace attributeEntry r.fuel
  mark .closeBrace
  let keys := entries.filterMap attributeKey?
  if keys.eraseDups.length != keys.length then failure
  node start (.attributes word) entries

/-- A name taken from another module by name. -/
def importSpecifier (s : Setting) : Parse Node := do
  let start ← position
  let named ← atName s
  let imported ← exportedName
  if ← eatWord "as" then
    let name ← bindingName s
    node start .importNamed [imported, name]
  else
    match imported with
    | .node (.key name) span _ =>
        if !named then failure
        node start .importNamed [imported, .node (.binding name) span []]
    | _ => failure

/-- What a module takes from another one. -/
def importSpecifiers (r : Rules) (s : Setting) : Parse (List Node) := do
  let first ← if ← atName s then
      let start ← position
      let name ← bindingName s
      pure [← node start .importDefault [name]]
    else pure []
  if !first.isEmpty then
    if !(← eatMark .comma) then return first
  let start ← position
  if ← eatMark (.binary .times) then
    word "as"
    let name ← bindingName s
    return first ++ [← node start .importAll [name]]
  else
    mark .openBrace
    let (names, _) ← listed .closeBrace (importSpecifier s) r.fuel
    mark .closeBrace
    return first ++ names

def importDeclaration (r : Rules) (s : Setting) : Parse Node := do
  let start ← position
  keyword .import
  match ← peek with
  | .string .. =>
      let source ← stringValue
      let attributes ← attributes r
      endStatement
      node start (.importFrom source true) [attributes]
  | _ =>
      let specifiers ← importSpecifiers r s
      word "from"
      let source ← stringValue
      let attributes ← attributes r
      endStatement
      node start (.importFrom source false) (attributes :: specifiers)

/-- An entry of a list of exported names. -/
def exportSpecifier : Parse Node := do
  let start ← position
  let «local» ← exportedName
  let exported ← if ← eatWord "as" then exportedName else pure «local»
  node start .exportName [«local», exported]

/-- Names that no module may export from its own variables, besides the keywords. -/
def reservedNames : List String :=
  ["await", "yield", "implements", "interface", "package", "private", "protected", "public",
   "static"]

/-- An exported name as a use of a variable of this module. -/
def asReference : Node → Option Node
  | .node .exportName span [.node (.key name) inner _, exported] =>
      if (Keyword.ofText? name.toList).isSome || reservedNames.contains name then none
      else some (.node .exportName span [.node (.identifier name) inner [], exported])
  | _ => none

def exportDeclaration (r : Rules) (s : Setting) : Parse Node := do
  let start ← position
  keyword .export
  if ← eatMark (.binary .times) then
    let name ← if ← eatWord "as" then exportedName else pure Node.absent
    word "from"
    let source ← stringValue
    let attributes ← attributes r
    endStatement
    node start (.exportAll source) [attributes, name]
  else if ← eatMark .openBrace then
    let (specifiers, _) ← listed .closeBrace exportSpecifier r.fuel
    mark .closeBrace
    if ← eatWord "from" then
      let source ← stringValue
      let attributes ← attributes r
      endStatement
      node start (.exportNames (some source)) (attributes :: specifiers)
    else
      endStatement
      match specifiers.mapM asReference with
      | some specifiers => node start (.exportNames none) (Node.absent :: specifiers)
      | none => failure
  else if ← eatKeyword .default then
    let isAsync ← ahead do
      word "async"
      return !(← newlineBefore) && (← atKeyword .function)
    if isAsync || (← atKeyword .function) then
      let isInert := (← get).isInert
      let declaration ← functionDeclaration r s false
      node start .exportDefault [if isInert then declaration.asInertStatement else declaration]
    else if ← atKeyword .class then
      let inner ← position
      let parts ← classParts r s
      let declaration ← node inner .classDeclaration parts
      node start .exportDefault [declaration]
    else
      let value ← r.assignment s
      endStatement
      node start .exportDefault [value]
  else
    let isDeclaration := match ← peek with
      | .keyword .var _ false | .keyword .const _ false | .keyword .function _ false
      | .keyword .class _ false | .name "let" false | .name "async" false => true
      | _ => false
    if !isDeclaration then failure
    let declaration ← r.statement s .listed
    match declaration.form with
    | .variableDeclaration _ | .functionDeclaration .. | .classDeclaration =>
        node start .exportDeclaration [declaration]
    | _ => failure

-- ============================================================ any statement

/-- A statement, whatever is said about it before. -/
def unmarkedStatement (r : Rules) (s : Setting) (place : StatementPlace) : Parse Node := do
  let start ← position
  match ← peek with
  | .mark .openBrace => blockStatement r s
  | .mark .semicolon => leaf .empty
  | .keyword w _ false =>
      match w with
      | .if => ifStatement r s
      | .for => forStatement r s
      | .while => whileStatement r s
      | .do => doWhileStatement r s
      | .break => jump s .break
      | .continue => jump s .continue
      | .return => returnStatement r s
      | .throw => throwStatement r s
      | .try => tryStatement r s
      | .switch => switchStatement r s
      | .with => withStatement r s
      | .debugger => do
          next
          endStatement
          node start .debugger []
      | .var => variableDeclaration r s .functionWide
      | .const => if place == .alone then failure else variableDeclaration r s .constant
      | .function => functionStatement r s place
      | .class => do
          if place == .alone then failure
          let parts ← classParts r s
          node start .classDeclaration parts
      | .import => do
          let isValue ← ahead do
            next
            return (← atMark .openParen) || (← atMark .dot)
          if isValue then expressionStatement r s else importDeclaration r s
      | .export => exportDeclaration r s
      | _ => expressionStatement r s
  | .name "let" false => letStatement r s place
  | .name "async" false => do
      let isFunction ← ahead do
        next
        return !(← newlineBefore) && (← atKeyword .function)
      if isFunction then functionStatement r s place else expressionStatement r s
  | _ => expressionStatement r s

def statement (r : Rules) (s : Setting) (place : StatementPlace) : Parse Node := do
  let isInert := (← get).isInert
  let statement ← unmarkedStatement r s place
  return if isInert then statement.asInertStatement else statement

end Parse

end Graft
