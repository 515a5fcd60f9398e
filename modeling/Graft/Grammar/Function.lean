import Graft.Grammar.Pattern
/-!
Functions and what is made of them: bodies, methods of objects, classes.
-/
namespace Graft

namespace Node

/-- A statement as an instruction to the reader of the program, if it consists of a string that
starts it; `raw` is the text between the quotes. -/
def asDirective? (raw : Option String) (start : Nat) : Node → Option Node
  | .node .expressionStatement span [.node (.string _) inner _] =>
      if inner.start == start then raw.map fun raw => .node (.directive raw) span [] else none
  | _ => none

/-- The property name that a key spells without being computed. -/
def keyName? (key : Node) (computed : Bool) : Option String :=
  if computed then none
  else match key.form with
    | .key name => some name
    | .string value => some (String.ofList (value.filterMap fun
        | .scalar c => some c
        | .surrogate _ => none))
    | _ => none

end Node

namespace Parse

/-- Values between commas: one value, or a sequence. -/
def expression (r : Rules) (s : Setting) : Parse Node := do
  let start ← position
  let first ← r.assignment s
  if ← atMark .comma then
    let more ← many (do return !(← atMark .comma)) (do next; r.assignment s) r.fuel
    node start .sequence (first :: more)
  else return first

/-- Directives and statements up to `stop`. `expecting` says that only directives came so far. -/
def directivesAndStatements (r : Rules) (s : Setting) (stop : Parse Bool) :
    (expecting : Bool) → (fuel : Nat) → Parse (List Node)
  | _, 0 => failure
  | expecting, fuel + 1 => do
      if ← stop then return []
      let start ← position
      let raw := match ← peek with
        | .string _ raw => some raw
        | _ => none
      let statement ← r.statement s .listed
      match if expecting then statement.asDirective? raw start else none with
      | some directive =>
          return directive :: (← directivesAndStatements r s stop true fuel)
      | none => return statement :: (← directivesAndStatements r s stop false fuel)

/-- The body of a function, in braces. -/
def functionBody (r : Rules) (s : Setting) : Parse Node := do
  let start ← position
  mark .openBrace
  let parts ← directivesAndStatements r s (atMark .closeBrace) true r.fuel
  mark .closeBrace
  node start .functionBody parts

/-- The parameters and the body of a function. -/
def signatureAndBody (r : Rules) (flags : FunctionFlags) : Parse (Node × Node) := do
  let s := Setting.ofFunction flags
  let params ← parameters r { s with allowsReturn := false }
  let body ← functionBody r s
  return (params, body)

/-- A function as a value, from the word `async` or `function` on. -/
def functionValue (r : Rules) : Parse Node := do
  let start ← position
  let isAsync ← eatWord "async"
  keyword .function
  let isGenerator ← eatMark (.binary .times)
  let flags : FunctionFlags := ⟨isAsync, isGenerator⟩
  let name ← if ← atName (.ofFunction flags) then bindingName (.ofFunction flags)
    else pure Node.absent
  let (params, body) ← signatureAndBody r flags
  node start (.function flags false false) [name, params, body]

/-- A function as a statement. Its name belongs to the surroundings. -/
def functionDeclaration (r : Rules) (s : Setting) (needsName : Bool) : Parse Node := do
  let start ← position
  let isAsync ← eatWord "async"
  keyword .function
  let isGenerator ← eatMark (.binary .times)
  let name ← if needsName || (← atName s) then bindingName s else pure Node.absent
  let (params, body) ← signatureAndBody r ⟨isAsync, isGenerator⟩
  node start (.functionDeclaration ⟨isAsync, isGenerator⟩ false) [name, params, body]

/-- Whether the shown token can start the key of a property. -/
def atKey : Parse Bool := do
  match ← peek with
  | .string .. | .number _ | .bigint _ | .privateName _ => return true
  | .mark m => return m == .openBracket
  | lexeme => return (wordAsKey lexeme).isSome

/-- Reads a word that changes the meaning of the key after it, if it is shown and what follows it
satisfies `follow`; otherwise the word is a key itself. -/
def modifier (w : String) (follow : Parse Bool) : Parse Bool := do
  if !(← atWord w) then return false
  if ← ahead (do next; follow) then next; return true else return false

/-- What stands before the key of a method. -/
structure MethodHead where
  kind : MethodKind
  flags : FunctionFlags

/-- Reads what stands before the key of a method. -/
def methodHead : Parse MethodHead := do
  let isAsync ← modifier "async" do
    return !(← newlineBefore) && ((← atKey) || (← atMark (.binary .times)))
  let isGenerator ← eatMark (.binary .times)
  let flags : FunctionFlags := ⟨isAsync, isGenerator⟩
  if isAsync || isGenerator then return ⟨.plain, flags⟩
  if ← modifier "get" atKey then return ⟨.getter, flags⟩
  if ← modifier "set" atKey then return ⟨.setter, flags⟩
  return ⟨.plain, flags⟩

/-- Whether a method of a kind may have these parameters. -/
def arityFits (kind : MethodKind) (params : Node) : Bool :=
  match kind, params.children with
  | .getter, ps => ps.all fun p => p.form == .rest
  | .setter, [p] => p.form != .rest
  | .setter, _ => false
  | _, _ => true

/-- The rest of a method after its key. -/
def methodAfterKey (r : Rules) (start : Nat) (head : MethodHead) (computed isStatic : Bool)
    (key : Node) : Parse Node := do
  let (params, body) ← signatureAndBody r head.flags
  if !arityFits head.kind params then failure
  node start (.method head.kind head.flags computed isStatic) [key, params, body]

/-- A member of an object. -/
def objectMember (r : Rules) (s : Setting) : Parse Node := do
  let start ← position
  if ← eatMark .ellipsis then
    let value ← r.assignment s.enclosed
    node start .spread [value]
  else
    let head ← methodHead
    let named ← atName s
    let (key, computed) ← propertyKey r s
    let isPlain := head.kind == .plain && !head.flags.isAsync && !head.flags.isGenerator
    if !isPlain || (← atMark .openParen) then methodAfterKey r start head computed false key
    else if ← eatMark .colon then
      let value ← r.assignment s.enclosed
      node start (.property computed false) [key, value]
    else
      match key with
      | .node (.key name) span _ =>
          if !named then failure
          let value := Node.node (.identifier name) span []
          if ← eatMark (.assign .plain) then
            let default ← r.assignment s.enclosed
            node start .defaultedProperty [value, default]
          else node start (.property false true) [key, value]
      | _ => failure

/-- The rest of a field of a class after its key. -/
def fieldAfterKey (r : Rules) (start : Nat) (computed isStatic : Bool) (key : Node) :
    Parse Node := do
  let name := key.keyName? computed
  if name == some "constructor" || (isStatic && name == some "prototype") then failure
  let value ← if ← eatMark (.assign .plain) then expression r {} else pure Node.absent
  endStatement
  node start (.field computed isStatic) [key, value]

/-- The key of a member of a class, and whether it is computed. -/
def classKey (r : Rules) (s : Setting) : Parse (Node × Bool) := do
  match ← peek with
  | .privateName name =>
      if name == "constructor" then failure
      return (← leaf (.privateKey name), false)
  | _ => propertyKey r s

/-- A member of a class. -/
def classMember (r : Rules) (s : Setting) : Parse Node := do
  let start ← position
  let isStatic ← modifier "static" do
    return (← atKey) || (← atMark (.binary .times)) || (← atMark .openBrace)
  if isStatic && (← atMark .openBrace) then
    next
    let inside : Setting := { allowsIn := s.allowsIn, inAsync := true }
    let parts ← many (atMark .closeBrace) (r.statement inside .listed) r.fuel
    mark .closeBrace
    node start .staticBlock parts
  else
    let head ← methodHead
    let (key, computed) ← classKey r s
    let isPlain := head.kind == .plain && !head.flags.isAsync && !head.flags.isGenerator
    if !isPlain || (← atMark .openParen) then
      let name := key.keyName? computed
      if isStatic then
        if name == some "prototype" then failure
        methodAfterKey r start head computed true key
      else if name == some "constructor" then
        if !isPlain then failure
        methodAfterKey r start ⟨.constructor, head.flags⟩ computed false key
      else methodAfterKey r start head computed false key
    else fieldAfterKey r start computed isStatic key

/-- Members of a class; lone semicolons between them mean nothing. -/
def classMembers (r : Rules) (s : Setting) : (fuel : Nat) → Parse (List Node)
  | 0 => failure
  | fuel + 1 => do
      if ← atMark .closeBrace then return []
      if ← eatMark .semicolon then classMembers r s fuel
      else
        let m ← classMember r s
        return m :: (← classMembers r s fuel)

/-- The children of a class, from the word `class` on. The name may always be missing. -/
def classParts (r : Rules) (s : Setting) : Parse (List Node) := do
  keyword .class
  let named := (← atName s) && !(← atWord "implements")
  let name ← if named then bindingName s else pure Node.absent
  let base ← if ← eatKeyword .extends then r.postfixed s else pure Node.absent
  mark .openBrace
  let members ← classMembers r s r.fuel
  mark .closeBrace
  return name :: base :: members

end Parse

end Graft
