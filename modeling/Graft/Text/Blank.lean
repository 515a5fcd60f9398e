/-!
White space: the Unicode property White_Space, and the operations on text that are defined by it.
-/
namespace Graft.Text

/-- A character with the Unicode property White_Space. -/
def isBlank (c : Char) : Bool :=
  let n := c.toNat
  if n < 0x80 then n == 0x20 || (0x09 ≤ n && n ≤ 0x0D)
  else n == 0x85 || n == 0xA0 || n == 0x1680 || (0x2000 ≤ n && n ≤ 0x200A)
    || n == 0x2028 || n == 0x2029 || n == 0x202F || n == 0x205F || n == 0x3000

/-- A space or a tab. -/
def isSpaceOrTab (c : Char) : Bool := c == ' ' || c == '\t'

/-- A carriage return or a line feed. -/
def isLineBreak (c : Char) : Bool := c == '\r' || c == '\n'

/-- The text without the white space before it. -/
def trimLeft (text : List Char) : List Char := text.dropWhile isBlank

/-- The text without the white space after it. -/
def trimRight (text : List Char) : List Char := (text.reverse.dropWhile isBlank).reverse

/-- The text without the white space around it. -/
def trim (text : List Char) : List Char := trimRight (trimLeft text)

/-- If `text` begins with `start`, what follows it. -/
def dropStart? : List Char → List Char → Option (List Char)
  | [], text => some text
  | _ :: _, [] => none
  | c :: start, d :: text => if c == d then dropStart? start text else none

/-- Whether a text has `word` in it. -/
def occursIn (word : List Char) : List Char → Bool
  | [] => word.isEmpty
  | c :: cs => (dropStart? word (c :: cs)).isSome || occursIn word cs

/-- What follows a line feed, or a carriage return and a line feed, that the text begins with. -/
def dropNewline? : List Char → Option (List Char)
  | '\n' :: rest => some rest
  | '\r' :: '\n' :: rest => some rest
  | _ => none

end Graft.Text
