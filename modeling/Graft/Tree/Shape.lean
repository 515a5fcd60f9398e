import Graft.Tree.Node
/-!
Shapes of values that the rules of the transform ask for, and the values that they build.
-/
namespace Graft

namespace StringUnit

/-- Four lower-case hexadecimal digits. -/
def hex4 (n : Nat) : List Char :=
  [Nat.digitChar (n / 4096 % 16), Nat.digitChar (n / 256 % 16), Nat.digitChar (n / 16 % 16),
    Nat.digitChar (n % 16)]

/-- The value of a string as a text. If it holds halves of surrogate pairs, each is written as the
replacement character and four digits, and so is the replacement character itself. -/
def plainText (units : List StringUnit) : String :=
  let hasHalves := units.any isHalf
  String.ofList (units.flatMap fun
    | .surrogate n => '\uFFFD' :: hex4 n
    | .scalar c => if hasHalves && c == '\uFFFD' then '\uFFFD' :: hex4 0xFFFD else [c])

/-- A text as the value of a string. -/
def ofText (text : String) : List StringUnit := text.toList.map .scalar

end StringUnit

namespace Node

/-- The value at the start of a row of accesses. -/
def root : Node → Node
  | .node (.member ..) _ [object] => object.root
  | .node (.privateMember ..) _ [object] => object.root
  | .node (.index _) _ [object, _] => object.root
  | n => n
termination_by structural n => n

/-- A name, or a row of accesses by name that starts with one: to evaluate it twice is the same as
once. -/
def isStaticChain : Node → Bool
  | .node (.identifier _) _ _ => true
  | .node (.member ..) _ [object] => object.isStaticChain
  | _ => false
termination_by structural n => n

/-- The name by which a callee is called: the last name of a row of accesses, or the name that it
is. -/
def calleeName? (callee : Node) : Option String :=
  match callee.form with
  | .member _ name => some name
  | .identifier name => some name
  | _ => none

/-- The text of a string. -/
def stringText? (n : Node) : Option String :=
  match n.form with
  | .string value => some (StringUnit.plainText value)
  | _ => none

/-- The name that a word or a string spells. -/
def spelledName? (n : Node) : Option String :=
  match n.form with
  | .key name | .identifier name | .binding name => some name
  | .string units => some (StringUnit.plainText units)
  | _ => none

/-- A node that was not read from the text. -/
def made (form : Form) (children : List Node) : Node := .node form .none children

/-- `object.name`, made anew. -/
def access (object : Node) (name : String) : Node := made (.member false name) [object]

/-- The row of accesses that a chain of names spells, if it has a first name. -/
def ofChain? : List String → Option Node
  | [] => none
  | first :: names => some (names.foldl access (made (.identifier first) []))

/-- `target.bind(null, "plugin")`, made anew. -/
def boundTo (target : Node) (plugin : String) : Node :=
  made (.call false false)
    [target.access "bind", made .nullValue [], made (.string (StringUnit.ofText plugin)) []]

end Node

end Graft
