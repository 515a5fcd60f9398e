import Graft.Token.Cursor
import Graft.Tree.Node
/-!
The machinery of the grammar.

A `Parse` reads from a cursor and fails as a whole at the first token that does not fit; a caller
may then go back and try another way. The rules of the grammar call each other in circles. The
circles are cut at a record of rules, `Rules`: a rule is written in terms of the record, and
`Grammar.Program` builds the records level by level. Every rule that goes through the record
either has read a token or does so soon, so a number of levels in proportion to the length of the
text is always enough.
-/
namespace Graft

/-- A reader of a part of a program. -/
abbrev Parse (α : Type) := StateT Cursor Option α

/-- What the surroundings allow. -/
structure Setting where
  /-- `in` may be an operator. -/
  allowsIn : Bool := true
  /-- `yield` is an operator. -/
  inGenerator : Bool := false
  /-- `await` is an operator. -/
  inAsync : Bool := false
  /-- `return` may stand here. -/
  allowsReturn : Bool := false
deriving Repr

namespace Setting

/-- The same surroundings inside brackets. -/
def enclosed (s : Setting) : Setting := { s with allowsIn := true }

/-- The same surroundings in the head of a loop. -/
def loopHead (s : Setting) : Setting := { s with allowsIn := false }

/-- The surroundings inside a function. -/
def ofFunction (flags : FunctionFlags) : Setting :=
  { inGenerator := flags.isGenerator, inAsync := flags.isAsync, allowsReturn := true }

end Setting

/-- Where a statement stands. -/
inductive StatementPlace where
  /-- Among other statements. -/
  | listed
  /-- Alone, as the body of another statement. -/
  | alone
deriving DecidableEq, Repr

/-- The rules through which the grammar refers to itself. -/
structure Rules where
  /-- How often a rule may repeat something. -/
  fuel : Nat
  /-- A value that is not a list of values. -/
  assignment : Setting → Parse Node
  /-- Values joined by operators that bind tighter than a precedence. -/
  binary : Setting → Precedence → Parse Node
  /-- A value behind operators with one operand. -/
  unary : Setting → Parse Node
  /-- A value with the accesses and calls after it. -/
  postfixed : Setting → Parse Node
  /-- A value without the accesses and calls after it. -/
  primary : Setting → Parse Node
  /-- A pattern that introduces names. -/
  pattern : Setting → Parse Node
  statement : Setting → StatementPlace → Parse Node

namespace Parse

/-- The shown token. -/
def peek : Parse Lexeme := do return (← get).lexeme

/-- Goes on to the next token. -/
def next : Parse Unit := fun c => (c.advance?).map fun c => ((), c)

/-- Where the shown token starts. -/
def position : Parse Nat := do return (← get).here.offset

/-- Where the token before the shown one ended. -/
def previousStop : Parse Nat := do return (← get).previousStop

/-- Whether a line break comes before the shown token. -/
def newlineBefore : Parse Bool := do return (← get).newline

/-- Whether a mark is shown. -/
def atMark (m : Mark) : Parse Bool := do return (← peek) == .mark m

/-- Whether a keyword is shown; one that is spelled with an escape is not. -/
def atKeyword (k : Keyword) : Parse Bool := do
  match ← peek with
  | .keyword w _ escaped => return w == k && !escaped
  | _ => return false

/-- Whether a name with a meaning of its own is shown; one spelled with an escape is not. -/
def atWord (word : String) : Parse Bool := do
  match ← peek with
  | .name text escaped => return text == word && !escaped
  | _ => return false

/-- Reads a mark if it is shown. -/
def eatMark (m : Mark) : Parse Bool := do
  if ← atMark m then next; return true else return false

/-- Reads a keyword if it is shown. -/
def eatKeyword (k : Keyword) : Parse Bool := do
  if ← atKeyword k then next; return true else return false

/-- Reads a word if it is shown. -/
def eatWord (word : String) : Parse Bool := do
  if ← atWord word then next; return true else return false

/-- Reads a mark. -/
def mark (m : Mark) : Parse Unit := do
  if ← atMark m then next else failure

/-- Reads a keyword. -/
def keyword (k : Keyword) : Parse Unit := do
  if ← atKeyword k then next else failure

/-- Reads a word. -/
def word (w : String) : Parse Unit := do
  if ← atWord w then next else failure

/-- Whether `p` succeeds from here; nothing is read. -/
def ahead (p : Parse Bool) : Parse Bool := fun c =>
  match p c with
  | some (b, _) => some (b, c)
  | none => some (false, c)

/-- Reads with `p` if it succeeds, and nothing otherwise. -/
def attempt (p : Parse α) : Parse (Option α) := fun c =>
  match p c with
  | some (a, c) => some (some a, c)
  | none => some (none, c)

/-- The node from `start` to the last token read. -/
def node (start : Nat) (form : Form) (children : List Node) : Parse Node := do
  return .node form ⟨start, ← previousStop⟩ children

/-- A node for the shown token, which is read. -/
def leaf (form : Form) : Parse Node := do
  let start ← position
  next
  node start form []

/-- Items read with `item` until `stop`, at most `fuel` of them. -/
def many (stop : Parse Bool) (item : Parse α) : (fuel : Nat) → Parse (List α)
  | 0 => failure
  | fuel + 1 => do
      if ← stop then return []
      let a ← item
      return a :: (← many stop item fuel)

/-- Items between commas up to a closing mark, which is not read, and whether a comma came last. -/
def listed (close : Mark) (item : Parse α) : (fuel : Nat) → Parse (List α × Bool)
  | 0 => failure
  | fuel + 1 => do
      if ← atMark close then return ([], false)
      let a ← item
      if ← atMark close then return ([a], false)
      mark .comma
      if ← atMark close then return ([a], true)
      let (more, comma) ← listed close item fuel
      return (a :: more, comma)

/-- The end of a statement: a semicolon, or a place where one may be left out. -/
def endStatement : Parse Unit := do
  if ← eatMark .semicolon then return
  if (← newlineBefore) || (← atMark .closeBrace) || (← peek) == .finish then return
  failure

/-- Whether a name may be used for a variable here. -/
def usable (s : Setting) (name : String) : Bool :=
  !(s.inGenerator && name == "yield") && !(s.inAsync && name == "await")

/-- Whether a name for a variable is shown. -/
def atName (s : Setting) : Parse Bool := do
  match ← peek with
  | .name text _ => return usable s text
  | _ => return false

/-- A name for a variable that is introduced. -/
def bindingName (s : Setting) : Parse Node := do
  match ← peek with
  | .name text _ => if usable s text then leaf (.binding text) else failure
  | _ => failure

/-- The word shown, if it may name a property. -/
def wordAsKey : Lexeme → Option String
  | .name text _ => some text
  | .keyword _ text _ => some text
  | _ => none

end Parse

end Graft
