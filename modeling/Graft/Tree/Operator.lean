/-!
The operators of expressions: how each is written and how tightly it binds.
-/
namespace Graft

/-- How tightly an expression holds together, from the loosest on. -/
inductive Precedence where
  | lowest | comma | spread | yield | assign | conditional | coalesce | logicalOr | logicalAnd
  | bitOr | bitXor | bitAnd | equals | compare | shift | add | multiply | exponent
  | unary | postfixed | new | call | member
deriving DecidableEq, Repr, Inhabited

namespace Precedence

/-- The rank of a precedence; a greater one binds tighter. -/
def rank (p : Precedence) : Nat := p.ctorIdx

/-- Whether `p` binds at least as tightly as `q`. -/
def reaches (p q : Precedence) : Bool := q.rank ≤ p.rank

end Precedence

/-- Operators with one operand, written before it. -/
inductive UnaryOp where
  | minus | plus | not | complement | typeof | void | delete
deriving DecidableEq, Repr, Inhabited

/-- The operators that count up and down. -/
inductive UpdateOp where
  | increment | decrement
deriving DecidableEq, Repr, Inhabited

/-- Operators with two operands that are always both evaluated. -/
inductive BinaryOp where
  | equal | unequal | identical | distinct
  | less | atMost | greater | atLeast | instanceOf | contains
  | shiftLeft | shiftRight | shiftRightZero
  | plus | minus | times | divide | remainder | power
  | bitOr | bitXor | bitAnd
deriving DecidableEq, Repr, Inhabited

/-- Operators that evaluate the right operand only if the left one asks for it. -/
inductive LogicalOp where
  | or | and | coalesce
deriving DecidableEq, Repr, Inhabited

/-- What an assignment does with the old value. -/
inductive AssignOp where
  | plain
  | combine (op : BinaryOp)
  | guard (op : LogicalOp)
deriving DecidableEq, Repr, Inhabited

namespace UnaryOp

def text : UnaryOp → String
  | minus => "-"
  | plus => "+"
  | not => "!"
  | complement => "~"
  | typeof => "typeof"
  | void => "void"
  | delete => "delete"

/-- Whether the operator is a word. -/
def isWord : UnaryOp → Bool
  | typeof | void | delete => true
  | _ => false

end UnaryOp

namespace UpdateOp

def text : UpdateOp → String
  | increment => "++"
  | decrement => "--"

end UpdateOp

namespace BinaryOp

def text : BinaryOp → String
  | equal => "=="
  | unequal => "!="
  | identical => "==="
  | distinct => "!=="
  | less => "<"
  | atMost => "<="
  | greater => ">"
  | atLeast => ">="
  | instanceOf => "instanceof"
  | contains => "in"
  | shiftLeft => "<<"
  | shiftRight => ">>"
  | shiftRightZero => ">>>"
  | plus => "+"
  | minus => "-"
  | times => "*"
  | divide => "/"
  | remainder => "%"
  | power => "**"
  | bitOr => "|"
  | bitXor => "^"
  | bitAnd => "&"

def precedence : BinaryOp → Precedence
  | equal | unequal | identical | distinct => .equals
  | less | atMost | greater | atLeast | instanceOf | contains => .compare
  | shiftLeft | shiftRight | shiftRightZero => .shift
  | plus | minus => .add
  | times | divide | remainder => .multiply
  | power => .exponent
  | bitOr => .bitOr
  | bitXor => .bitXor
  | bitAnd => .bitAnd

end BinaryOp

namespace LogicalOp

def text : LogicalOp → String
  | or => "||"
  | and => "&&"
  | coalesce => "??"

def precedence : LogicalOp → Precedence
  | or => .logicalOr
  | and => .logicalAnd
  | coalesce => .coalesce

end LogicalOp

namespace AssignOp

def text : AssignOp → String
  | plain => "="
  | combine op => op.text ++ "="
  | guard op => op.text ++ "="

end AssignOp

end Graft
