import Graft.Error
import Graft.Json.Value
import Graft.Text.Blank
/-!
The banner of a plugin: a block comment at the start of its code with one line ` * @key value` for
every entry of its metadata.

A banner can be rendered, put in front of code, and taken off again. It is only taken off if all its
keys are known, for then a build has put it there; any other comment stays.

A value is put on one line, with a space for every run of white space that holds a line break, and a
backslash goes between an asterisk and a slash, so that no value ends the comment. Taking a banner
off goes by the start of its lines alone: what stands behind the key is not looked at, since the
values of an earlier build are not known.
-/
namespace Graft

/-- The metadata of a plugin, in the order in which it is shown. -/
abbrev Metadata := List (String × Json)

namespace Metadata

open Text

-- ==================================================================== keys

def isKeyStart (c : Char) : Bool := isLetter c.toNat
where
  isLetter (n : Nat) : Bool := (0x61 ≤ n && n ≤ 0x7A) || (0x41 ≤ n && n ≤ 0x5A)

def isKeyPart (c : Char) : Bool :=
  isKeyStart c || (0x30 ≤ c.toNat && c.toNat ≤ 0x39) || c == '_' || c == '-'

/-- Whether a key can stand in a banner: a letter, then letters, digits, `_` and `-`. -/
def isKey (key : String) : Bool :=
  match key.toList with
  | c :: cs => isKeyStart c && cs.all isKeyPart
  | [] => false

/-- The first key that cannot stand in a banner is an error. -/
def validate (m : Metadata) : Except TransformError Unit :=
  match m.find? fun e => !isKey e.1 with
  | some (key, _) => .error (.metadata key .badKey)
  | none => .ok ()

-- ================================================================== values

mutual

/-- The text of a value: strings bare, the items of a list between commas, all else as JSON. -/
def valueText : Json → List Char
  | .string s => s.toList
  | .array items => itemTexts items
  | other => other.write

/-- The texts of the items of a list, between commas. -/
def itemTexts : List Json → List Char
  | [] => []
  | v :: vs => valueText v ++ (if vs.isEmpty then [] else [',']) ++ itemTexts vs

end

/-- A text on one line: white space that holds a line break becomes one space. `held` is the white
space read so far that no other character has followed, newest first. -/
def joinLines (held : List Char) : List Char → List Char
  | [] => flush held
  | c :: cs => if isBlank c then joinLines (c :: held) cs else flush held ++ c :: joinLines [] cs
where
  flush (held : List Char) : List Char :=
    if held.any isLineBreak then [' '] else held.reverse

/-- A text in which no comment ends: a backslash parts the two characters that end one. -/
def guardClose : List Char → List Char
  | [] => []
  | c :: cs => if c == '*' && cs.head? == some '/' then '*' :: '\\' :: guardClose cs
      else c :: guardClose cs

/-- A text as it may stand on a line of a banner. -/
def oneLine (text : List Char) : List Char := guardClose (joinLines [] (trim text))

/-- The line of an entry. -/
def line (entry : String × Json) : List Char :=
  let value := oneLine (valueText entry.2)
  " * @".toList ++ entry.1.toList ++ (if value.isEmpty then [] else ' ' :: value)

/-- The banner of a list of entries. -/
def bannerText (m : Metadata) : List Char :=
  "/**\n".toList ++ (m.flatMap fun e => line e ++ ['\n']) ++ " */".toList

/-- The banner of some metadata; no metadata has none. -/
def banner? (m : Metadata) : Except TransformError (Option String) :=
  if m.isEmpty then .ok none
  else match m.validate with
    | .ok () => .ok (some (String.ofList (bannerText m)))
    | .error e => .error e

-- ================================================================== reading

/-- What follows `*` and a tag on a line, after spaces. -/
def afterTagMark? (text : List Char) : Option (List Char) :=
  match text.dropWhile isSpaceOrTab with
  | '*' :: rest =>
      match rest.dropWhile isSpaceOrTab with
      | '@' :: rest => some rest
      | _ => none
  | _ => none

/-- The lines of tags that a text begins with, each as what follows its `@`, and what follows
them. -/
def tagLines : (fuel : Nat) → List Char → List (List Char) × List Char
  | 0, text => ([], text)
  | fuel + 1, text =>
      match afterTagMark? text with
      | none => ([], text)
      | some tag =>
          match dropNewline? (tag.dropWhile fun c => !isLineBreak c) with
          | none => ([], text)
          | some rest =>
              let (more, rest) := tagLines fuel rest
              (tag.takeWhile (fun c => !isLineBreak c) :: more, rest)

/-- The key that a tag starts with. -/
def tagKey? (tag : List Char) : Option String :=
  match tag with
  | c :: cs => if isKeyStart c then some (String.ofList (c :: cs.takeWhile isKeyPart)) else none
  | [] => none

/-- The lines of the banner that a text begins with after white space, and what follows the
banner. -/
def leadingBanner? (text : List Char) : Option (List (List Char) × List Char) := do
  let rest ← dropStart? ['/', '*', '*'] (trimLeft text)
  let rest ← dropNewline? (rest.dropWhile isSpaceOrTab)
  let (tags, rest) := tagLines text.length rest
  if tags.isEmpty then none
  let rest ← dropStart? ['*', '/'] (rest.dropWhile isSpaceOrTab)
  let rest := rest.dropWhile isSpaceOrTab
  some (tags, (dropNewline? rest).getD rest)

/-- Code without the banner at its start, if every tag of the banner is a key of the metadata. -/
def strip (m : Metadata) (code : String) : String :=
  match leadingBanner? code.toList with
  | none => code
  | some (tags, rest) =>
      let isOurs (tag : List Char) : Bool :=
        match tagKey? tag with
        | some key => m.any fun e => e.1 == key
        | none => false
      if tags.all isOurs then String.ofList rest else code

/-- Code with a banner in front of it, unless it starts with that very text. -/
def prepend (code banner : String) : String :=
  if (dropStart? banner.toList code.toList).isSome then code else banner ++ "\n" ++ code

end Metadata

end Graft
