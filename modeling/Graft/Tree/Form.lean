import Graft.Number.Binary64
import Graft.Tree.Operator
/-!
What kinds of node a program is made of.

The tree of a program is uniform: a node is a form, a span and a list of children (`Graft.Node`).
A `Form` carries everything about a node that is not a node itself, and its comment says which
children belong to it, in source order. A child that may be missing is then the node `absent`, so
that the number of children tells nothing.

Two forms only mark the role of their child. `place` holds an identifier or a member access that
is assigned to and not read; `chain` holds the outermost call or access of an optional chain. In
both the child itself is not a value, while its own children are.
-/
namespace Graft

/-- An element of the value of a string literal, which may hold half of a surrogate pair. -/
inductive StringUnit where
  | scalar (c : Char)
  | surrogate (unit : Nat)
deriving DecidableEq, Repr, Inhabited

/-- Whether an element is half of a surrogate pair. -/
def StringUnit.isHalf : StringUnit → Bool
  | .surrogate _ => true
  | .scalar _ => false

/-- How a declaration introduces variables. -/
inductive VariableKind where
  /-- Belongs to the enclosing function or program. -/
  | functionWide
  /-- Belongs to the enclosing block. -/
  | blockWide
  /-- Belongs to the enclosing block and keeps its first value. -/
  | constant
deriving DecidableEq, Repr, Inhabited

/-- What a function held by a key is for. -/
inductive MethodKind where
  | plain | getter | setter | constructor
deriving DecidableEq, Repr, Inhabited

/-- Whether a pattern introduces names or assigns to places. -/
inductive PatternRole where
  | declares | assigns
deriving DecidableEq, Repr, Inhabited

/-- How a function runs. -/
structure FunctionFlags where
  isAsync : Bool := false
  isGenerator : Bool := false
deriving DecidableEq, Repr, Inhabited

/-- The kinds of node. -/
inductive Form where
  /-- A missing child; no children. -/
  | absent
  -- values without parts
  /-- A name that is read; no children. -/
  | identifier (name : String)
  /-- `this`; no children. -/
  | thisValue
  /-- `super`; no children. -/
  | superValue
  /-- `null`; no children. -/
  | nullValue
  /-- `true` or `false`; no children. -/
  | boolean (value : Bool)
  /-- A number; no children. -/
  | number (value : Binary64)
  /-- A whole number of any size; no children. -/
  | bigint (value : Nat)
  /-- A string; no children. -/
  | string (value : List StringUnit)
  /-- A regular expression; no children. -/
  | regex (pattern flags : String)
  /-- `new.target` and `import.meta`; no children. -/
  | metaProperty (target property : String)
  -- values with parts
  /-- Text with values in it; children: the values. -/
  | template (pieces : List String)
  /-- Children: the tag, then the values. -/
  | taggedTemplate (pieces : List String)
  /-- Children: the elements, a hole being `absent`. -/
  | array
  /-- Children: `property`, `method`, `spread`. -/
  | object
  /-- Children: the key, the value. -/
  | property (computed shorthand : Bool)
  /-- A shorthand property with a default, which only a pattern may have; children: the name as
  it would be read, the default. -/
  | defaultedProperty
  /-- Children: the key, the parameters, the body. -/
  | method (kind : MethodKind) (flags : FunctionFlags) (computed isStatic : Bool)
  /-- Children: the key, the value or `absent`. -/
  | field (computed isStatic : Bool)
  /-- Children: the statements. -/
  | staticBlock
  /-- A name that stands for a property; no children. -/
  | key (name : String)
  /-- A private name that stands for a property; no children. -/
  | privateKey (name : String)
  /-- Children: the value. -/
  | spread
  /-- A function as a value; children: its name or `absent`, the parameters, the body. -/
  | function (flags : FunctionFlags) (inert parenthesized : Bool)
  /-- An arrow function; children: the parameters, the body. -/
  | arrow (isAsync isExpression inert parenthesized : Bool)
  /-- Children: the patterns. -/
  | parameters
  /-- Children: directives, then statements; one statement for an arrow's expression. -/
  | functionBody
  /-- A class as a value; children: its name or `absent`, the base or `absent`, the members. -/
  | classValue
  /-- Children: the operand. -/
  | unary (op : UnaryOp)
  /-- Children: the operand, a `place`. -/
  | update (op : UpdateOp) (isFirst : Bool)
  /-- Children: the operands. -/
  | binary (op : BinaryOp)
  /-- Children: the operands. -/
  | logical (op : LogicalOp)
  /-- Whether an object has a private name; children: the object. -/
  | privateIn (name : String)
  /-- Children: a `place` or a pattern that assigns, the value. -/
  | assign (op : AssignOp)
  /-- Children: the test, the value if it holds, the value if not. -/
  | conditional
  /-- Children: the callee, the arguments. -/
  | call (isOptional isPure : Bool)
  /-- Children: the callee, the arguments. -/
  | new (isPure : Bool)
  /-- A module loaded on demand; children: the specifier, the options or `absent`. -/
  | importCall
  /-- Access by a name; children: the object. -/
  | member (isOptional : Bool) (name : String)
  /-- Access by a value; children: the object, the key. -/
  | index (isOptional : Bool)
  /-- Access by a private name; children: the object. -/
  | privateMember (isOptional : Bool) (name : String)
  /-- An optional chain; children: its outermost call or access. -/
  | chain
  /-- Children: the values. -/
  | sequence
  /-- Children: the value or `absent`. -/
  | yield (isDelegate : Bool)
  /-- Children: the value. -/
  | await
  -- patterns
  /-- A name that is introduced; no children. -/
  | binding (name : String)
  /-- What is assigned to; children: an identifier or an access. -/
  | place
  /-- Children: `patternProperty`, then possibly `rest`. -/
  | objectPattern (role : PatternRole)
  /-- Children: the key, the pattern. -/
  | patternProperty (computed shorthand : Bool)
  /-- Children: the patterns, a hole being `absent`, then possibly `rest`. -/
  | arrayPattern (role : PatternRole)
  /-- Children: the pattern. -/
  | rest
  /-- Children: the pattern, the default. -/
  | defaulted
  -- statements
  /-- A whole program; children: directives, then statements. -/
  | program (hashbang : Option String)
  /-- A string that stands for an instruction; no children. -/
  | directive (raw : String)
  /-- Children: the value. -/
  | expressionStatement
  /-- Children: the declarators. -/
  | variableDeclaration (kind : VariableKind)
  /-- Children: a pattern, the initial value or `absent`. -/
  | declarator
  /-- Children: the name or `absent`, the parameters, the body. -/
  | functionDeclaration (flags : FunctionFlags) (inert : Bool)
  /-- Children: the name or `absent`, the base or `absent`, the members. -/
  | classDeclaration
  /-- Children: the statements. -/
  | block
  /-- A lone semicolon; no children. -/
  | empty
  /-- Children: the test, the consequence, the alternative or `absent`. -/
  | if
  /-- Children: the start, the test and the step, each possibly `absent`, and the body. -/
  | for
  /-- Children: a declaration, `place` or pattern, the object, the body. -/
  | forIn
  /-- Children: a declaration, `place` or pattern, the sequence, the body. -/
  | forOf (isAwait : Bool)
  /-- Children: the test, the body. -/
  | while
  /-- Children: the body, the test. -/
  | doWhile
  /-- Children: the value or `absent`. -/
  | return
  /-- Children: the value. -/
  | throw
  /-- No children. -/
  | break (label : Option String)
  /-- No children. -/
  | continue (label : Option String)
  /-- Children: the statement. -/
  | labeled (label : String)
  /-- Children: the value, the cases. -/
  | switch
  /-- Children: the value or `absent` for the default, the statements. -/
  | case
  /-- Children: a block, `catch` or `absent`, a block or `absent`. -/
  | try
  /-- Children: a pattern or `absent`, the block. -/
  | catch
  /-- Children: the object, the statement. -/
  | with
  /-- No children. -/
  | debugger
  -- modules
  /-- Children: `attributes` or `absent`, then the specifiers. `bare` has no list of them. -/
  | importFrom (source : List StringUnit) (bare : Bool)
  /-- Children: a `binding`. -/
  | importDefault
  /-- Children: a `binding`. -/
  | importAll
  /-- Children: the exported name, a `binding`. -/
  | importNamed
  /-- How another module is to be read; children: each an `attributeEntry`. -/
  | attributes (word : String)
  /-- Children: a key, a string. -/
  | attributeEntry
  /-- Children: the declaration. -/
  | exportDeclaration
  /-- Children: `attributes` or `absent`, then the specifiers. -/
  | exportNames (source : Option (List StringUnit))
  /-- Children: a local name (`identifier`, or `key` or `string` of another module), and the
  exported name (`key` or `string`). -/
  | exportName
  /-- Children: `attributes` or `absent`, the name of the whole or `absent`. -/
  | exportAll (source : List StringUnit)
  /-- Children: a declaration or a value. -/
  | exportDefault
deriving DecidableEq, Repr, Inhabited

end Graft
