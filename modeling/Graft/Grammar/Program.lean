import Graft.Grammar.Exported
import Graft.Grammar.Statement
/-!
Whole programs.

`Rules.level` builds the rules of the grammar: at level `n` a rule may refer to the others `n`
times in a row. `Program.parse?` starts with enough levels for the text at hand.

# The language

It is that of scripts as of 2025, and imports and exports are read besides. What has come to the
language since then is refused: declarations with `using`, decorators, `accessor` fields and imports
with a phase. A text is read or it is not; why it is not is not told.
-/
namespace Graft

namespace Rules

/-- Rules that fail. -/
def none : Rules :=
  { fuel := 0
    assignment := fun _ => failure
    binary := fun _ _ => failure
    unary := fun _ => failure
    postfixed := fun _ => failure
    primary := fun _ => failure
    pattern := fun _ => failure
    statement := fun _ _ => failure }

/-- The rules of the grammar, in terms of the rules for their parts. -/
def next (r : Rules) (fuel : Nat) : Rules :=
  let r := { r with fuel := fuel }
  { fuel := fuel
    assignment := Parse.assignment r
    binary := Parse.binary r
    unary := Parse.unary r
    postfixed := Parse.postfixed r
    primary := Parse.primary r
    pattern := Parse.bindingPattern r
    statement := Parse.statement r }

/-- The rules that may refer to each other `n` times in a row. -/
def level : Nat → Rules
  | 0 => none
  | n + 1 => (level n).next (n + 1)

end Rules

/-- A program and the comments that stand before its tokens, in order. -/
structure Program where
  tree : Node
  comments : List FiledComment
deriving Repr

namespace Program

/-- Whether some property has a default that only a pattern may have. -/
def hasStrayDefault (tree : Node) : Bool :=
  tree.any fun
    | .defaultedProperty => true
    | _ => false

/-- The line that a program may start with to tell the system how to run it, and what follows.
Nothing may stand before it, not even a mark of the byte order. -/
def hashbang (t : Tail) : Option String × Tail :=
  match t.chars with
  | '#' :: '!' :: _ =>
      let (line, rest) := (t.drop 2).span fun c => !isLineEnd c
      (some (String.ofList line), rest)
  | _ => (none, t)

/-- The program that a text spells, if it spells one. -/
def parse? (source : String) : Option Program := do
  let chars := source.toList
  let (line, t) := hashbang ⟨0, chars⟩
  let cursor ← Cursor.readFrom? t false true [] []
  let levels := 8 * chars.length + 32
  let body := Parse.directivesAndStatements (Rules.level levels) {}
    (return (← Parse.peek) == .finish) true levels
  let (parts, cursor) ← body cursor
  let tree := Node.node (.program line) ⟨0, cursor.here.offset⟩ parts
  if hasStrayDefault tree || !Node.exportsOnce parts then none
  else some ⟨tree, cursor.comments.reverse⟩

/-- Whether a text spells a program. -/
def isValid (source : String) : Bool := (parse? source).isSome

end Program

end Graft
