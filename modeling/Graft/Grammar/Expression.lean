import Graft.Grammar.Function
/-!
Values: from literals over accesses, calls and operators to assignments and arrow functions.

Parentheses leave no node. The two places where they matter later are kept as flags: a function in
parentheses stays in them, and an operand in parentheses may stand where the bare one may not.

A reader starts with what binds most tightly and goes on from there: a value without operators
first, then its accesses and calls, then operators by how strongly they bind, then what assigns.
Whether a parenthesis opens the parameters of an arrow function is only known at the arrow, so that
is tried first and taken back if no arrow follows.
-/
namespace Graft

namespace Node

/-- The value with the call or construction that comes first in it marked as having no effect. -/
def asPure : Node → Node
  | .node (.call o _) s ks => .node (.call o true) s ks
  | .node (.new _) s ks => .node (.new true) s ks
  | .node (.binary op) s (k :: ks) => .node (.binary op) s (k.asPure :: ks)
  | .node (.logical op) s (k :: ks) => .node (.logical op) s (k.asPure :: ks)
  | .node .conditional s (k :: ks) => .node .conditional s (k.asPure :: ks)
  | .node .chain s [.node (.call o _) t ks] => .node .chain s [.node (.call o true) t ks]
  | n => n
termination_by structural n => n

/-- The function marked as having no effect. -/
def asInert : Node → Node
  | .node (.function flags _ p) s ks => .node (.function flags true p) s ks
  | .node (.arrow a e _ p) s ks => .node (.arrow a e true p) s ks
  | n => n

/-- The function marked as standing in parentheses. -/
def asParenthesized : Node → Node
  | .node (.function flags i _) s ks => .node (.function flags i true) s ks
  | .node (.arrow a e i _) s ks => .node (.arrow a e i true) s ks
  | n => n

/-- Whether a value joins two others by `&&` or `||`. -/
def isAndOr (n : Node) : Bool := n.form == .logical .and || n.form == .logical .or

/-- Whether a value is an operator with one operand that may not be raised to a power. -/
def isBareUnary (n : Node) : Bool :=
  match n.form with
  | .unary _ | .await => true
  | _ => false

/-- Whether a value is a literal that could be taken apart. -/
def isLiteralList (n : Node) : Bool := n.form == .array || n.form == .object

/-- Whether a value joins two others by a logical operator. -/
def isLogical (n : Node) : Bool :=
  match n.form with
  | .logical _ => true
  | _ => false

end Node

/-- The operator that a token is between two operands. -/
def infixOp? (s : Setting) : Lexeme → Option (BinaryOp ⊕ LogicalOp)
  | .mark (.binary op) => some (.inl op)
  | .mark (.logical op) => some (.inr op)
  | .keyword .instanceof _ false => some (.inl .instanceOf)
  | .keyword .in _ false => if s.allowsIn then some (.inl .contains) else none
  | _ => none

/-- The operator that a token is before its operand. -/
def unaryOp? : Lexeme → Option UnaryOp
  | .mark (.binary .plus) => some .plus
  | .mark (.binary .minus) => some .minus
  | .mark .not => some .not
  | .mark .complement => some .complement
  | .keyword .typeof _ false => some .typeof
  | .keyword .void _ false => some .void
  | .keyword .delete _ false => some .delete
  | _ => none

/-- The operator that a token is before or after a place. -/
def updateOp? : Lexeme → Option UpdateOp
  | .mark .increment => some .increment
  | .mark .decrement => some .decrement
  | _ => none

namespace Parse

/-- The pieces of a template and the values between them. -/
def templateParts (r : Rules) (s : Setting) (tagged : Bool) :
    (fuel : Nat) → Parse (List String × List Node)
  | 0 => failure
  | fuel + 1 => do
      match ← peek with
      | .template raw isLast =>
          if !tagged && !templateEscapesValid .plain raw.toList then failure
          next
          if isLast then return ([raw], [])
          let value ← expression r s.enclosed
          if !(← atMark .closeBrace) then failure
          (fun c => c.asTemplate?.map fun c => ((), c) : Parse Unit)
          let (pieces, values) ← templateParts r s tagged fuel
          return (raw :: pieces, value :: values)
      | _ => failure

/-- A value in a list of values, possibly spread out. -/
def spreadable (r : Rules) (s : Setting) : Parse Node := do
  let start ← position
  if ← eatMark .ellipsis then
    let value ← r.assignment s.enclosed
    node start .spread [value]
  else r.assignment s.enclosed

/-- The arguments of a call, in parentheses. -/
def arguments (r : Rules) (s : Setting) : Parse (List Node) := do
  mark .openParen
  let (values, _) ← listed .closeParen (spreadable r s) r.fuel
  mark .closeParen
  return values

/-- Remembers a literal that ends in a spread and a comma. -/
def noteLooseSpread (start : Nat) (parts : List Node) (comma : Bool) : Parse Unit := do
  if comma && parts.getLast?.any (·.form == .spread) then
    modify fun c => { c with looseSpreads := start :: c.looseSpreads }

/-- An array. -/
def arrayValue (r : Rules) (s : Setting) : Parse Node := do
  let start ← position
  mark .openBracket
  let element : Parse Node := do
    if ← atMark .comma then return Node.absent
    spreadable r s
  let (elements, comma) ← listed .closeBracket element r.fuel
  mark .closeBracket
  noteLooseSpread start elements comma
  node start .array elements

/-- An object. -/
def objectValue (r : Rules) (s : Setting) : Parse Node := do
  let start ← position
  mark .openBrace
  let (members, comma) ← listed .closeBrace (objectMember r s) r.fuel
  mark .closeBrace
  noteLooseSpread start members comma
  node start .object members

/-- Values in parentheses. -/
def parenthesized (r : Rules) (s : Setting) : Parse Node := do
  mark .openParen
  let start ← position
  let (values, comma) ← listed .closeParen (r.assignment s.enclosed) r.fuel
  if comma then failure
  match values with
  | [] => failure
  | [value] =>
      mark .closeParen
      return value.asParenthesized
  | values =>
      let whole ← node start .sequence values
      mark .closeParen
      return whole

/-- The accesses after a value, and whether they are part of an optional chain. -/
def accesses (r : Rules) (s : Setting) (allowsChain : Bool) (start : Nat) :
    (fuel : Nat) → Node → (chained : Bool) → Parse (Node × Bool)
  | 0, _, _ => failure
  | fuel + 1, value, chained => do
      let named (isOptional : Bool) : Parse Node := do
        match ← peek with
        | .privateName name =>
            next
            node start (.privateMember isOptional name) [value]
        | lexeme =>
            match wordAsKey lexeme with
            | some name =>
                next
                node start (.member isOptional name) [value]
            | none => failure
      let keyed (isOptional : Bool) : Parse Node := do
        mark .openBracket
        let key ← expression r s.enclosed
        mark .closeBracket
        node start (.index isOptional) [value, key]
      match ← peek with
      | .mark .dot =>
          next
          let value ← named false
          accesses r s allowsChain start fuel value chained
      | .mark .openBracket =>
          let value ← keyed false
          accesses r s allowsChain start fuel value chained
      | .mark .questionDot =>
          if !allowsChain then return (value, chained)
          let optional : Parse (Option Node) := attempt do
            next
            if ← atMark .openBracket then keyed true else named true
          match ← optional with
          | some value => accesses r s allowsChain start fuel value true
          | none => return (value, chained)
      | .template .. =>
          if chained then failure
          let (pieces, values) ← templateParts r s true r.fuel
          let value ← node start (.taggedTemplate pieces) (value :: values)
          accesses r s allowsChain start fuel value chained
      | _ => return (value, chained)

/-- The accesses and calls after a value, and whether they are part of an optional chain. -/
def accessesAndCalls (r : Rules) (s : Setting) (start : Nat) :
    (fuel : Nat) → Node → (chained : Bool) → Parse (Node × Bool)
  | 0, _, _ => failure
  | fuel + 1, value, chained => do
      let (value, chained) ← accesses r s true start r.fuel value chained
      let isOptional ← eatMark .questionDot
      if ← atMark .openParen then
        let values ← arguments r s
        let value ← node start (.call isOptional false) (value :: values)
        accessesAndCalls r s start fuel value (chained || isOptional)
      else if isOptional then failure
      else return (value, chained)

/-- A value with the accesses and calls after it. -/
def postfixed (r : Rules) (s : Setting) : Parse Node := do
  let start ← position
  let value ← r.primary s
  let (value, chained) ← accessesAndCalls r s start r.fuel value false
  if chained then node start .chain [value] else return value

/-- A construction, or the meta property `new.target`. -/
def construction (r : Rules) (s : Setting) : Parse Node := do
  let start ← position
  keyword .new
  if ← eatMark .dot then
    word "target"
    node start (.metaProperty "new" "target") []
  else
    let inner ← position
    let callee ← r.primary s
    let (callee, _) ← accesses r s false inner r.fuel callee false
    if callee.form == .importCall || (← atMark .questionDot) then failure
    let values ← if ← atMark .openParen then arguments r s else pure []
    node start (.new false) (callee :: values)

/-- A module loaded on demand, or the meta property `import.meta`. -/
def importValue (r : Rules) (s : Setting) : Parse Node := do
  let start ← position
  keyword .import
  if ← eatMark .dot then
    word "meta"
    node start (.metaProperty "import" "meta") []
  else
    mark .openParen
    let source ← r.assignment s.enclosed
    let comma ← eatMark .comma
    let options ← if comma && !(← atMark .closeParen) then
        let options ← r.assignment s.enclosed
        let _ ← eatMark .comma
        pure options
      else pure Node.absent
    mark .closeParen
    node start .importCall [source, options]

/-- A value without the accesses and calls after it. -/
def primary (r : Rules) (s : Setting) : Parse Node := do
  let start ← position
  match ← peek with
  | .name text escaped =>
      let isFunction ← ahead do
        next
        return text == "async" && !escaped && !(← newlineBefore) && (← atKeyword .function)
      if isFunction then functionValue r
      else if usable s text then leaf (.identifier text)
      else failure
  | .keyword w _ false =>
      match w with
      | .this => leaf .thisValue
      | .null => leaf .nullValue
      | .true => leaf (.boolean true)
      | .false => leaf (.boolean false)
      | .function => functionValue r
      | .class =>
          let parts ← classParts r s
          node start .classValue parts
      | .new => construction r s
      | .import => importValue r s
      | .super =>
          let value ← leaf .superValue
          if (← atMark .openParen) || (← atMark .dot) || (← atMark .openBracket) then
            return value
          failure
      | _ => failure
  | .number value => leaf (.number value)
  | .bigint value => leaf (.bigint value)
  | .string value _ => leaf (.string value)
  | .template .. =>
      let (pieces, values) ← templateParts r s false r.fuel
      node start (.template pieces) values
  | .mark .openParen => parenthesized r s
  | .mark .openBracket => arrayValue r s
  | .mark .openBrace => objectValue r s
  | .mark (.binary .divide) | .mark (.assign (.combine .divide)) =>
      (fun c => c.asRegex?.map fun c => ((), c) : Parse Unit)
      match ← peek with
      | .regex pattern flags => leaf (.regex pattern flags)
      | _ => failure
  | _ => failure

/-- Whether a token is a word or a literal, and not an operator between two values. -/
def isWordOrLiteral : Lexeme → Bool
  | .keyword .in _ _ | .keyword .instanceof _ _ => false
  | .name .. | .keyword .. | .number _ | .bigint _ | .string .. => true
  | _ => false

/-- Whether the token after the shown one is on the same line and satisfies `p`. -/
def nextInLine (p : Lexeme → Bool) : Parse Bool := ahead do
  next
  return !(← newlineBefore) && p (← peek)

/-- Whether a value follows the shown `yield`, so that it can be no name. -/
def valueAfterYield : Parse Bool := nextInLine isWordOrLiteral

/-- Whether a value follows the shown `await`, so that it can be no name. A slash is taken for the
start of a regular expression, and the word `of` for that of the head of a loop. -/
def valueAfterAwait : Parse Bool := nextInLine fun
  | .name "of" _ => false
  | .mark (.binary .divide) => true
  | lexeme => isWordOrLiteral lexeme

/-- A value as something that is assigned to whole. -/
def asPlace (value : Node) : Parse Node :=
  match value.asPlace? with
  | some p => pure p
  | none => failure

/-- A value behind operators with one operand. -/
def unary (r : Rules) (s : Setting) : Parse Node := do
  let start ← position
  let lexeme ← peek
  if let some op := updateOp? lexeme then
    next
    let target ← asPlace (← r.unary s)
    node start (.update op true) [target]
  else if let some op := unaryOp? lexeme then
    next
    let isPure := (← get).isPure
    let value ← r.unary s
    node start (.unary op) [if isPure then value.asPure else value]
  else if (← atWord "await") && s.inAsync then
    next
    let value ← r.unary s
    node start .await [value]
  else if (← atWord "await") && (← valueAfterAwait) then failure
  else
    let value ← r.postfixed s
    match updateOp? (← peek) with
    | some op =>
        if ← newlineBefore then return value
        let target ← asPlace value
        next
        node start (.update op false) [target]
    | none => return value

/-- The operators after a value that bind tighter than `least`, with their right operands.
`inParens` says that the first operand starts with a parenthesis. -/
def operators (r : Rules) (s : Setting) (start : Nat) (inParens : Bool) (least : Precedence) :
    (fuel : Nat) → Node → Parse Node
  | 0, _ => failure
  | fuel + 1, left => do
      match infixOp? s (← peek) with
      | none => return left
      | some op =>
          let own := match op with
            | .inl op => op.precedence
            | .inr op => op.precedence
          let stops := if own == .exponent then own.rank < least.rank else own.rank ≤ least.rank
          if stops then return left
          next
          let rightInParens ← atMark .openParen
          let right ← r.binary s own
          match op with
          | .inl op =>
              if op == .power && !inParens && left.isBareUnary then failure
              let whole ← node start (.binary op) [left, right]
              operators r s start inParens least fuel whole
          | .inr op =>
              let mixes :=
                if right.isLogical && !rightInParens then right.isAndOr
                else if right.isLogical then false
                else left.isAndOr && !inParens
              if op == .coalesce && mixes then failure
              let whole ← node start (.logical op) [left, right]
              operators r s start inParens least fuel whole

/-- Values joined by operators that bind tighter than `least`. A question for a private name may
not be the operand of an operator that binds as tight as its own. -/
def binary (r : Rules) (s : Setting) (least : Precedence) : Parse Node := do
  let start ← position
  let inParens ← atMark .openParen
  let isPure := (← get).isPure
  match ← peek with
  | .privateName name =>
      if !s.allowsIn || least.reaches .compare then failure
      next
      keyword .in
      let object ← r.binary s .compare
      let whole ← node start (.privateIn name) [object]
      operators r s start inParens least r.fuel whole
  | _ =>
      let value ← r.unary s
      operators r s start inParens least r.fuel (if isPure then value.asPure else value)

/-- A value given out by a generator. -/
def yieldValue (r : Rules) (s : Setting) : Parse Node := do
  let start ← position
  next
  if ← newlineBefore then node start (.yield false) [Node.absent]
  else
    let isDelegate ← eatMark (.binary .times)
    let ends : Bool := match ← peek with
      | .finish | .mark .semicolon | .mark .closeBrace | .mark .closeParen
      | .mark .closeBracket | .mark .colon | .mark .comma | .keyword .in _ _ => true
      | _ => false
    let value ← if ends && !isDelegate then pure Node.absent else r.assignment s
    node start (.yield isDelegate) [value]

/-- The body of an arrow function, from the arrow on. -/
def arrowBody (r : Rules) (s : Setting) (start : Nat) (isAsync isInert : Bool) (params : Node) :
    Parse Node := do
  mark .arrow
  let inside : Setting := { inAsync := isAsync, allowsReturn := true }
  if ← atMark .openBrace then
    let body ← functionBody r inside
    node start (.arrow isAsync false isInert false) [params, body]
  else
    let value ← r.assignment { inside with allowsIn := s.allowsIn }
    let statement := Node.node .expressionStatement value.span [value]
    let body := Node.node .functionBody value.span [statement]
    node start (.arrow isAsync true isInert false) [params, body]

/-- The parameters of an arrow function without parentheses. -/
def loneParameter (name : Node) : Node := .node .parameters name.span [name]

/-- The parameters of an arrow function that starts with a parenthesis or with `async`, if one
starts here, and whether it is asynchronous. The arrow follows on the same line. -/
def arrowHead (r : Rules) (s : Setting) : Parse (Option (Bool × Node)) := attempt do
  let isAsync ← if ← atMark .openParen then pure false else
    word "async"
    if ← newlineBefore then failure
    pure true
  let inside := { s.enclosed with inAsync := s.inAsync || isAsync }
  let params ← if ← atMark .openParen then parameters r inside
    else loneParameter <$> bindingName inside
  if !(← atMark .arrow) || (← newlineBefore) then failure
  return (isAsync, params)

/-- A value that is not a list of values. -/
def assignment (r : Rules) (s : Setting) : Parse Node := do
  let start ← position
  let inParens ← atMark .openParen
  let isPure := (← get).isPure
  let isInert := (← get).isInert
  if (← atWord "yield") && s.inGenerator then yieldValue r s
  else if (← atWord "yield") && (← valueAfterYield) then failure
  else
    match ← arrowHead r s with
    | some (isAsync, params) => arrowBody r s start isAsync isInert params
    | none =>
        let value ← r.binary s .comma
        match value, ← peek with
        | .node (.identifier name) span _, .mark .arrow =>
            if ← newlineBefore then failure
            let params := loneParameter (.node (.binding name) span [])
            arrowBody r s start false isInert params
        | value, .mark (.assign op) =>
            if inParens && value.isLiteralList then failure
            match value.asTarget? (← get).looseSpreads with
            | none => failure
            | some target =>
                next
                let right ← r.assignment s
                node start (.assign op) [target, right]
        | value, lexeme =>
            let whole ← if lexeme == .mark .question then
                next
                let yes ← r.assignment s.enclosed
                mark .colon
                let no ← r.assignment s
                node start .conditional [value, yes, no]
              else pure value
            let whole := if isPure then whole.asPure else whole
            return if isInert then whole.asInert else whole

end Parse

end Graft
