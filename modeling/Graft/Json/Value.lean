import Graft.Number.Shortest
/-!
JSON values and their compact text.

An object keeps its entries in the order in which they were written, repeated keys included;
`Json.unique` is the view in which a repeated key has its first position and its last value.
-/
namespace Graft

/-- A number of a JSON text: a whole one of up to 64 bits, or a binary64 one with a sign. -/
inductive JsonNumber where
  | whole (value : Int)
  | float (negative : Bool) (value : Binary64)
deriving DecidableEq, Repr, Inhabited

/-- A JSON value. -/
inductive Json where
  /-- A value that is spelled as it should be, but that nothing can hold: a number out of range, a
  text with half of a character, too many values inside each other. -/
  | unheld
  | null
  | boolean (value : Bool)
  | number (value : JsonNumber)
  | string (value : String)
  | array (items : List Json)
  | object (entries : List (String × Json))
deriving Repr, Inhabited

/-- Puts an entry into a list of entries: in the place of its key if it has one, else at the end. -/
def putEntry {α : Type u} (key : String) (value : α) : List (String × α) → List (String × α)
  | [] => [(key, value)]
  | (k, v) :: rest => if k == key then (k, value) :: rest else (k, v) :: putEntry key value rest

namespace JsonNumber

/-- Floating-point numbers show that they are not whole numbers. -/
def format : DecimalFormat := ⟨-5, 15, true⟩

/-- The text of a number. -/
def write : JsonNumber → List Char
  | .whole (.ofNat n) => decimalText n
  | .whole (.negSucc n) => '-' :: decimalText (n + 1)
  | .float negative value =>
      let text := match value with
        | .finite m e => format.write (Binary64.shortest m e)
        | .infinite => "null".toList
      if negative then '-' :: text else text

end JsonNumber

namespace Json

mutual

/-- Whether a value and all its parts can be held. -/
def isHeld : Json → Bool
  | .unheld => false
  | .array items => itemsHeld items
  | .object entries => entriesHeld entries
  | _ => true

/-- Whether all items can be held. -/
def itemsHeld : List Json → Bool
  | [] => true
  | v :: vs => v.isHeld && itemsHeld vs

/-- Whether the values of all entries can be held. -/
def entriesHeld : List (String × Json) → Bool
  | [] => true
  | (_, v) :: rest => v.isHeld && entriesHeld rest

end

mutual

/-- The value in which no object repeats a key. -/
def unique : Json → Json
  | .array items => .array (uniqueItems items)
  | .object entries => .object (uniqueEntries [] entries)
  | other => other

/-- `unique` on every item. -/
def uniqueItems : List Json → List Json
  | [] => []
  | v :: vs => v.unique :: uniqueItems vs

/-- Puts the entries, each without repeated keys, into those gathered before. -/
def uniqueEntries (before : List (String × Json)) : List (String × Json) → List (String × Json)
  | [] => before
  | (k, v) :: rest => uniqueEntries (putEntry k v.unique before) rest

end

/-- A character inside a quoted JSON text. -/
def quoteChar (c : Char) : List Char :=
  match c with
  | '"' => ['\\', '"']
  | '\\' => ['\\', '\\']
  | '\n' => ['\\', 'n']
  | '\r' => ['\\', 'r']
  | '\t' => ['\\', 't']
  | '\x08' => ['\\', 'b']
  | '\x0c' => ['\\', 'f']
  | _ =>
      let n := c.toNat
      if n < 0x20 then
        ['\\', 'u', '0', '0', Nat.digitChar (n / 16), Nat.digitChar (n % 16)]
      else [c]

/-- A text between quotes. -/
def quote (text : String) : List Char := '"' :: text.toList.flatMap quoteChar ++ ['"']

mutual

/-- The compact text of a value. -/
def write : Json → List Char
  | .unheld | .null => "null".toList
  | .boolean true => "true".toList
  | .boolean false => "false".toList
  | .number n => n.write
  | .string s => quote s
  | .array items => '[' :: writeItems items ++ [']']
  | .object entries => '\x7b' :: writeEntries entries ++ ['\x7d']

/-- The texts of the items, between commas. -/
def writeItems : List Json → List Char
  | [] => []
  | v :: vs => v.write ++ (if vs.isEmpty then [] else [',']) ++ writeItems vs

/-- The texts of the entries, between commas. -/
def writeEntries : List (String × Json) → List Char
  | [] => []
  | (k, v) :: rest =>
      quote k ++ ':' :: v.write ++ (if rest.isEmpty then [] else [',']) ++ writeEntries rest

end

/-- The compact text of a value. -/
def render (v : Json) : String := String.ofList v.write

end Json

end Graft
