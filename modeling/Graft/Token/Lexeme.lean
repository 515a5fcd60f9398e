import Graft.Tree.Form
/-!
The smallest pieces of program text that the grammar speaks about.
-/
namespace Graft

/-- Words that are never names. -/
inductive Keyword where
  | break | case | catch | «class» | const | continue | debugger | default | delete | do | else
  | enum | export | extends | false | finally | for | function | if | import | in | instanceof
  | new | null | return | super | switch | this | throw | true | try | typeof | var | void
  | while | with
deriving DecidableEq, Repr, Inhabited

/-- Punctuation. -/
inductive Mark where
  | openBrace | closeBrace | openParen | closeParen | openBracket | closeBracket
  | dot | ellipsis | semicolon | comma | question | questionDot | colon | arrow
  | not | complement | increment | decrement
  | binary (op : BinaryOp)
  | logical (op : LogicalOp)
  | assign (op : AssignOp)
deriving DecidableEq, Repr, Inhabited

/-- A piece of program text. -/
inductive Lexeme where
  /-- A name, and whether an escape is part of it. -/
  | name (text : String) (escaped : Bool)
  | keyword (word : Keyword) (text : String) (escaped : Bool)
  | privateName (text : String)
  | mark (mark : Mark)
  | number (value : Binary64)
  | bigint (value : Nat)
  /-- A string: its value and the text between its quotes. -/
  | string (value : List StringUnit) (raw : String)
  | regex (pattern flags : String)
  /-- Text of a template from its opening quote to the first value or to its end. -/
  | template (raw : String) (isLast : Bool)
  | finish
deriving DecidableEq, Repr, Inhabited

namespace Keyword

/-- How every keyword is written. -/
def spellings : List (List Char × Keyword) :=
  [("break", .break), ("case", .case), ("catch", .catch), ("class", .class), ("const", .const),
   ("continue", .continue), ("debugger", .debugger), ("default", .default),
   ("delete", .delete), ("do", .do), ("else", .else), ("enum", .enum), ("export", .export),
   ("extends", .extends), ("false", .false), ("finally", .finally), ("for", .for),
   ("function", .function), ("if", .if), ("import", .import), ("in", .in),
   ("instanceof", .instanceof), ("new", .new), ("null", .null), ("return", .return),
   ("super", .super), ("switch", .switch), ("this", .this), ("throw", .throw),
   ("true", .true), ("try", .try), ("typeof", .typeof), ("var", .var), ("void", .void),
   ("while", .while), ("with", .with)].map fun e => (e.1.toList, e.2)

/-- The keyword that a word is, if it is one. -/
def ofText? (word : List Char) : Option Keyword :=
  (spellings.find? fun e => e.1 == word).map Prod.snd

end Keyword

namespace Mark

/-- How every mark is written, longer ones before the shorter ones that they begin with. -/
def spellings : List (List Char × Mark) :=
  [(">>>=", .assign (.combine .shiftRightZero)),
   ("...", .ellipsis), ("===", .binary .identical), ("!==", .binary .distinct),
   (">>>", .binary .shiftRightZero), ("<<=", .assign (.combine .shiftLeft)),
   (">>=", .assign (.combine .shiftRight)), ("**=", .assign (.combine .power)),
   ("&&=", .assign (.guard .and)), ("||=", .assign (.guard .or)),
   ("??=", .assign (.guard .coalesce)),
   ("=>", .arrow), ("==", .binary .equal), ("!=", .binary .unequal),
   ("<=", .binary .atMost), (">=", .binary .atLeast), ("<<", .binary .shiftLeft),
   (">>", .binary .shiftRight), ("++", .increment), ("--", .decrement),
   ("**", .binary .power), ("&&", .logical .and), ("||", .logical .or),
   ("??", .logical .coalesce), ("+=", .assign (.combine .plus)),
   ("-=", .assign (.combine .minus)), ("*=", .assign (.combine .times)),
   ("/=", .assign (.combine .divide)), ("%=", .assign (.combine .remainder)),
   ("&=", .assign (.combine .bitAnd)), ("|=", .assign (.combine .bitOr)),
   ("^=", .assign (.combine .bitXor)),
   ("\x7b", .openBrace), ("\x7d", .closeBrace), ("(", .openParen), (")", .closeParen),
   ("[", .openBracket), ("]", .closeBracket), (".", .dot), (";", .semicolon), (",", .comma),
   ("?", .question), (":", .colon), ("=", .assign .plain), ("!", .not), ("~", .complement),
   ("<", .binary .less), (">", .binary .greater), ("+", .binary .plus),
   ("-", .binary .minus), ("*", .binary .times), ("/", .binary .divide),
   ("%", .binary .remainder), ("&", .binary .bitAnd), ("|", .binary .bitOr),
   ("^", .binary .bitXor)].map fun e => (e.1.toList, e.2)

end Mark

end Graft
