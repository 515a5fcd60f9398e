import Graft.Text.CaseRanges
import Graft.Text.Identifier
/-!
Lower-case text by the full Unicode mapping.

Every letter maps on its own, except the Greek capital sigma, which takes its final form at the
end of a word: after a cased letter and not before one, looking past what case rules ignore.
-/
namespace Graft.Text

/-- A letter that takes part in case. -/
def isCased (c : Char) : Bool :=
  let n := c.toNat
  if n < 0x80 then isAsciiLetter n else inRanges casedRanges n

/-- A character that case rules pass over. -/
def isCaseIgnorable (c : Char) : Bool :=
  let n := c.toNat
  if n < 0x80 then c == '\x27' || c == '.' || c == ':' || c == '^' || c == '\x60'
  else inRanges caseIgnorableRanges n

/-- The lower-case form of one character, whatever stands around it. -/
def lowerChar (c : Char) : List Char :=
  let n := c.toNat
  if n < 0x80 then [c.toLower]
  else if n == 0x130 then ['i', '\u0307']
  else match lowerRuns.find? fun r => r.1 ≤ n && n ≤ r.2.1 && (n - r.1) % r.2.2.1 == 0 with
    | some r => [Char.ofNat ((n : Int) + r.2.2.2).toNat]
    | none => [c]

/-- Whether the first character that case rules do not pass over is a cased letter. -/
def meetsCased (text : List Char) : Bool :=
  match text.dropWhile isCaseIgnorable with
  | c :: _ => isCased c
  | [] => false

/-- Lower case of a text, given reversed what stands before it. -/
def lowerAfter : List Char → List Char → List Char
  | _, [] => []
  | before, c :: rest =>
      let lowered :=
        if c == 'Σ' then
          if meetsCased before && !meetsCased rest then ['ς'] else ['σ']
        else lowerChar c
      lowered ++ lowerAfter (c :: before) rest

/-- A text in lower case. -/
def lowercase (text : String) : String := String.ofList (lowerAfter [] text.toList)

end Graft.Text
