import Graft.Proofs.Banner.Strip
import Graft.Proofs.Json.ReadBack
import Graft.Proofs.Token.Gap
/-!
The banner as a comment.

Whatever the values of the metadata are, the banner is one comment with one line for every entry,
and every value can be read on its line (`Metadata.banner?_lines`).

# What a line shows

The line of an entry is ` * @key value`. `Metadata.Shows` says what stands for the value before it
is put on one line:

- a text stands for itself;
- for a list stand its items, with commas between them;
- for anything else stands its compact JSON text, which reads as the value if the value is exact
  (`Json.read?_render`).

To put that on one line changes it only where it has to be changed: what breaks no line and closes
no comment stands there as it is (`Metadata.oneLine_of_plain`). Where nothing is left, the line ends
with its key.

# Why it is one comment

A value on its line breaks no line (`Metadata.oneLine_onLine`), and its asterisks are kept from its
slashes, so it closes no comment (`Metadata.oneLine_unclosed`). Keys do neither, and between a key
and its value stands a space. Two texts next to each other close a comment in one of them or where
they meet, so it is enough to look at the seams: what ends in an asterisk, and what begins with a
slash. The mark that closes a comment is then only at the end of the banner
(`Metadata.eq_nil_of_bannerText_eq`), and its lines are the lines that it was made of
(`Metadata.splitOn_bannerText`).
-/
namespace Graft

/-- The mark that closes a comment stands nowhere in a text but at its end, if it ends there. -/
theorem close_unique {text before after : List Char} (h : Unclosed (text ++ ['*']))
    (heq : text ++ ['*', '/'] = before ++ '*' :: '/' :: after) : after = [] := by
  rcases List.eq_nil_or_concat after with rfl | ⟨after, c, rfl⟩
  · rfl
  · -- without its last character the text would still hold the mark
    have hshort : text ++ ['*'] = before ++ '*' :: '/' :: after := by
      have hends : (text ++ ['*']) ++ ['/'] = (before ++ '*' :: '/' :: after) ++ [c] := by
        simpa using heq
      exact (List.append_inj' hends rfl).1
    exact absurd hshort (unclosed_iff.mp h before after)

namespace Metadata

open Text

-- ================================================== what shows a value

/-- A text that shows a value, before it is put on one line: a text shows itself, a list is shown by
what shows its items, with commas between, and any other value by its compact JSON text, which reads
as the value if the value is exact. -/
inductive Shows : Json → List Char → Prop
  | text (s : String) : Shows (.string s) s.toList
  | list {items : List Json} {texts : List (List Char)} (h : List.Forall₂ Shows items texts) :
      Shows (.array items) ([','].intercalate texts)
  | json {v : Json} (hstring : ∀ s, v ≠ .string s) (harray : ∀ items, v ≠ .array items)
      (hread : v.isExact 128 = true → Json.read? v.render = some v) : Shows v v.write

/-- What shows a list is what shows its items, with commas between. -/
theorem itemTexts_eq_intercalate (items : List Json) :
    itemTexts items = [','].intercalate (items.map valueText) := by
  induction items with
  | nil => rfl
  | cons v vs ih =>
      rw [itemTexts, ih]
      cases vs with
      | nil => simp
      | cons w vs => simp [List.intercalate_cons_cons]

/-- The text of a value shows the value. -/
theorem shows_valueText (v : Json) : Shows v (valueText v) := by
  induction v using Json.induct with
  | string s => exact .text s
  | array items ih =>
      rw [valueText, itemTexts_eq_intercalate]
      exact .list (List.forall₂_map_right_iff.mpr (List.forall₂_same.mpr ih))
  | _ => exact .json (by simp) (by simp) Json.read?_render

-- ============================================================ values

/-- A backslash is put behind an asterisk, so it never comes first. -/
theorem head?_guardClose (text : List Char) : (guardClose text).head? = text.head? := by
  cases text with
  | nil => rfl
  | cons c text =>
      rw [guardClose]
      split
      case isTrue h =>
        rw [Bool.and_eq_true, beq_iff_eq] at h
        rw [h.1]
        rfl
      case isFalse => rfl

/-- A guarded text closes no comment. -/
theorem guardClose_unclosed (text : List Char) : Unclosed (guardClose text) := by
  induction text with
  | nil => exact List.isChain_nil
  | cons c text ih =>
      rw [guardClose]
      split
      case isTrue =>
        -- the backslash keeps the asterisk from the slash
        have hslash : Unclosed ('\\' :: guardClose text) := (unclosed_cons (by decide)).mpr ih
        exact List.isChain_cons_cons.mpr ⟨by decide, hslash⟩
      case isFalse h =>
        refine List.isChain_cons.mpr ⟨?_, ih⟩
        rintro d hd ⟨rfl, rfl⟩
        rw [head?_guardClose] at hd
        exact h (by rw [Option.mem_def.mp hd]; rfl)

/-- A value on its line closes no comment, whatever it holds. -/
theorem oneLine_unclosed (text : List Char) : Unclosed (oneLine text) := guardClose_unclosed _

/-- White space that breaks no line is kept as it is. -/
theorem flush_of_onLine {held : List Char} (h : OnLine held.reverse) :
    joinLines.flush held = held.reverse := by
  have hnone : held.any isLineBreak = false := by
    rw [List.any_eq_false]
    intro c hc
    simp [h c (List.mem_reverse.mpr hc)]
  rw [joinLines.flush, hnone]
  rfl

/-- A text that breaks no line has nothing to join. -/
theorem joinLines_of_onLine {text held : List Char} (hheld : OnLine held.reverse)
    (htext : OnLine text) : joinLines held text = held.reverse ++ text := by
  induction text generalizing held with
  | nil => rw [joinLines, flush_of_onLine hheld, List.append_nil]
  | cons c text ih =>
      obtain ⟨hc, htext⟩ := List.forall_mem_cons.mp htext
      rw [joinLines]
      split
      case isTrue =>
        have hmore : (c :: held).reverse ++ text = held.reverse ++ c :: text := by simp
        rw [← hmore]
        refine ih ?_ htext
        rw [List.reverse_cons]
        exact List.forall_mem_append.mpr ⟨hheld, by simpa using hc⟩
      case isFalse =>
        have hnone : OnLine [].reverse := by simp [OnLine]
        rw [flush_of_onLine hheld, ih hnone htext]
        rfl

/-- A text that closes no comment has nothing to guard. -/
theorem guardClose_of_unclosed {text : List Char} (h : Unclosed text) :
    guardClose text = text := by
  induction text with
  | nil => rfl
  | cons c text ih =>
      obtain ⟨hnext, htext⟩ := List.isChain_cons.mp h
      rw [guardClose, if_neg, ih htext]
      intro hclose
      simp only [Bool.and_eq_true, beq_iff_eq] at hclose
      exact hnext '/' hclose.2 ⟨hclose.1, rfl⟩

/-- A value that has nothing around it, breaks no line and closes no comment is shown as it is. -/
theorem oneLine_of_plain {text : List Char} (htrim : trim text = text) (hline : OnLine text)
    (hclose : Unclosed text) : oneLine text = text := by
  have hnone : OnLine [].reverse := by simp [OnLine]
  rw [oneLine, htrim, joinLines_of_onLine hnone hline]
  exact guardClose_of_unclosed hclose

-- ============================================================= lines

theorem line_eq (entry : String × Json) :
    line entry = [' ', '*', ' ', '@'] ++ tagText entry := rfl

/-- The line of an entry is one line. -/
theorem line_onLine {entry : String × Json} (h : isKey entry.1 = true) : OnLine (line entry) := by
  intro c hc
  rw [line_eq] at hc
  rcases List.mem_append.mp hc with hc | hc
  · have hmark : OnLine [' ', '*', ' ', '@'] := by simp [OnLine, isLineBreak]
    exact hmark c hc
  · exact tagText_onLine h c hc

/-- No key has an asterisk in it. -/
theorem star_not_mem_key {key : String} (h : isKey key = true) : '*' ∉ key.toList := by
  obtain ⟨c, cs, heq, hstart, hparts⟩ := exists_key h
  rw [heq]
  intro hmem
  rcases List.mem_cons.mp hmem with rfl | hmem
  · exact absurd hstart (by decide)
  · exact absurd (hparts '*' hmem) (by decide)

/-- The line of an entry closes no comment: a space stands between the key and the value. -/
theorem line_unclosed {entry : String × Json} (h : isKey entry.1 = true) :
    Unclosed (line entry) := by
  have hkey : Unclosed entry.1.toList := unclosed_of_no_star (star_not_mem_key h)
  have hlast : entry.1.toList.getLast? ≠ some '*' := fun hlast =>
    star_not_mem_key h (List.mem_of_getLast? hlast)
  have hvalue : Unclosed (if (oneLine (valueText entry.2)).isEmpty then []
      else ' ' :: oneLine (valueText entry.2)) := by
    split
    case isTrue => exact List.isChain_nil
    case isFalse => exact (unclosed_cons (by decide)).mpr (oneLine_unclosed _)
  have htag : Unclosed (tagText entry) :=
    unclosed_append.mpr ⟨hkey, hvalue, fun hstar => absurd hstar hlast⟩
  rw [line_eq, unclosed_append]
  exact ⟨by decide, htag, fun hstar => absurd hstar (by decide)⟩

/-- Lines of a banner close no comment that what follows them does not close. -/
theorem lines_unclosed {m : Metadata} (hm : ∀ e ∈ m, isKey e.1 = true) {rest : List Char}
    (hrest : Unclosed rest) : Unclosed ((m.flatMap fun e => line e ++ ['\n']) ++ rest) := by
  induction m with
  | nil => exact hrest
  | cons e m ih =>
      obtain ⟨he, hm⟩ := List.forall_mem_cons.mp hm
      have hmore : Unclosed ('\n' :: ((m.flatMap fun e => line e ++ ['\n']) ++ rest)) :=
        (unclosed_cons (by decide)).mpr (ih hm)
      have htext : ((e :: m).flatMap fun e => line e ++ ['\n']) ++ rest
          = line e ++ '\n' :: ((m.flatMap fun e => line e ++ ['\n']) ++ rest) := by
        simp
      rw [htext, unclosed_append]
      exact ⟨line_unclosed he, hmore, fun _ hslash => absurd hslash (by simp)⟩

-- ========================================================== the banner

/-- What stands between the two marks of a banner. -/
def bannerBody (m : Metadata) : List Char :=
  '*' :: '\n' :: ((m.flatMap fun e => line e ++ ['\n']) ++ [' '])

/-- A banner is its two marks with the body between them. -/
theorem bannerText_eq (m : Metadata) :
    bannerText m = '/' :: '*' :: (bannerBody m ++ ['*', '/']) := by
  simp [bannerText, bannerBody]

/-- No comment is closed in the body of a banner, not even by the slash that follows it. -/
theorem bannerBody_unclosed {m : Metadata} (hm : ∀ e ∈ m, isKey e.1 = true) :
    Unclosed (bannerBody m ++ ['*']) := by
  have hlines := lines_unclosed hm (show Unclosed [' ', '*'] by decide)
  have hbody : bannerBody m ++ ['*']
      = '*' :: '\n' :: ((m.flatMap fun e => line e ++ ['\n']) ++ [' ', '*']) := by
    simp [bannerBody]
  rw [hbody]
  exact List.isChain_cons_cons.mpr ⟨by decide, (unclosed_cons (by decide)).mpr hlines⟩

/-- A banner as the row of its lines. -/
theorem bannerText_eq_intercalate (m : Metadata) :
    bannerText m = ['\n'].intercalate ("/**".toList :: (m.map line ++ [" */".toList])) := by
  have hlines : ∀ first : List Char, ['\n'].intercalate (first :: (m.map line ++ [" */".toList]))
      = first ++ '\n' :: ((m.flatMap fun e => line e ++ ['\n']) ++ " */".toList) := by
    induction m with
    | nil => simp
    | cons e m ih =>
        intro first
        rw [List.map_cons, List.cons_append, List.intercalate_cons_cons, ih]
        simp
  rw [hlines]
  simp [bannerText]

/-- Each line that a banner is made of is one line. -/
theorem lines_onLine {m : Metadata} (hm : ∀ e ∈ m, isKey e.1 = true) :
    ∀ l ∈ "/**".toList :: (m.map line ++ [" */".toList]), OnLine l := by
  intro l hl
  simp only [List.mem_cons, List.mem_append, List.mem_map, List.not_mem_nil, or_false] at hl
  rcases hl with rfl | ⟨e, he, rfl⟩ | rfl
  · show OnLine ['/', '*', '*']
    simp [OnLine, isLineBreak]
  · exact line_onLine (hm e he)
  · show OnLine [' ', '*', '/']
    simp [OnLine, isLineBreak]

/-- A banner is split into the lines that it is made of. -/
theorem splitOn_bannerText {m : Metadata} (hm : ∀ e ∈ m, isKey e.1 = true) :
    (bannerText m).splitOn '\n' = "/**".toList :: (m.map line ++ [" */".toList]) := by
  rw [bannerText_eq_intercalate]
  refine List.splitOn_intercalate '\n' ?_ (by simp)
  intro l hl hbreak
  exact absurd (lines_onLine hm l hl '\n' hbreak) (by decide)

/-- No banner has a carriage return in it, for the lines are ended by line feeds only. -/
theorem return_not_mem_bannerText {m : Metadata} (hm : ∀ e ∈ m, isKey e.1 = true) :
    '\r' ∉ bannerText m := by
  intro hmem
  rw [bannerText, List.mem_append, List.mem_append, List.mem_flatMap] at hmem
  rcases hmem with (hmem | ⟨e, he, hmem⟩) | hmem
  · exact absurd hmem (by decide)
  · rcases List.mem_append.mp hmem with hmem | hmem
    · exact absurd (line_onLine (hm e he) _ hmem) (by decide)
    · exact absurd hmem (by decide)
  · exact absurd hmem (by decide)

/-- The mark that closes a banner is at its end and nowhere else. -/
theorem eq_nil_of_bannerText_eq {m : Metadata} (hm : ∀ e ∈ m, isKey e.1 = true)
    {before after : List Char} (heq : bannerText m = before ++ '*' :: '/' :: after) :
    after = [] := by
  have hopen : Unclosed (('/' :: '*' :: bannerBody m) ++ ['*']) :=
    (unclosed_cons (by decide)).mpr
      (List.isChain_cons_cons.mpr ⟨by decide, bannerBody_unclosed hm⟩)
  rw [bannerText_eq] at heq
  exact close_unique hopen heq

/-- Metadata whose keys can all stand in a banner have one, and it is one comment: it starts with
the mark that opens a comment, the mark that closes one is at its end and nowhere else, and the
reader takes it for one comment whatever follows it. It has a line for every entry, in order, with
the key and, after a space, the value on one line, unless that is empty. What is put on one line
shows the value (`Shows`), and it stands there as it is if there is nothing around it, no line break
in it and nothing that closes a comment. -/
theorem banner?_lines {m : Metadata} (hne : m ≠ []) (hm : ∀ e ∈ m, isKey e.1 = true) :
    ∃ banner, m.banner? = .ok (some banner)
      ∧ "/**\n".toList <+: banner.toList
      ∧ " */".toList <:+ banner.toList
      ∧ (∀ before after, banner.toList = before ++ "*/".toList ++ after → after = [])
      ∧ '\r' ∉ banner.toList
      ∧ banner.toList.splitOn '\n' = "/**".toList :: (m.map fun e =>
          let value := oneLine (valueText e.2)
          " * @".toList ++ e.1.toList ++ if value = [] then [] else ' ' :: value) ++ [" */".toList]
      ∧ (banner.toList.splitOn '\n').length = m.length + 2
      ∧ (∀ g o rest, scanGap .between g o (banner.toList ++ rest)
          = scanGap .between (g.addComment true banner.toList)
              (o + byteLength banner.toList) rest)
      ∧ (∀ e ∈ m, Shows e.2 (valueText e.2))
      ∧ ∀ e ∈ m, trim (valueText e.2) = valueText e.2 → OnLine (valueText e.2) →
          Unclosed (valueText e.2) → oneLine (valueText e.2) = valueText e.2 := by
  refine ⟨_, banner?_eq_some_iff.mpr ⟨hne, hm, rfl⟩, ?_⟩
  simp only [String.toList_ofList]
  refine ⟨?_, ?_, ?_, return_not_mem_bannerText hm, ?_, ?_, ?_,
    fun e _ => shows_valueText e.2, fun _ _ => oneLine_of_plain⟩
  · rw [bannerText, List.append_assoc]
    exact List.prefix_append _ _
  · rw [bannerText]
    exact List.suffix_append _ _
  · intro before after heq
    exact eq_nil_of_bannerText_eq hm (by simpa using heq)
  · rw [splitOn_bannerText hm]
    simp [line]
  · rw [splitOn_bannerText hm]
    simp
  · intro g o rest
    rw [bannerText_eq, ← scanGap_comment (bannerBody_unclosed hm)]
    simp

/-- Values with a line break, with the mark that closes a comment, with nothing to show, and values
of every kind that is shown as JSON, one inside the other. -/
theorem banner?_lines_of_breaks :
    ∃ banner, banner? [("name", .string "ends */ here\r\n second line"),
        ("tags", .array [.string "a*", .string "/b", .null]), ("note", .string " \n "),
        ("enabled", .boolean true), ("hidden", .boolean false), ("id", .number (.whole 42)),
        ("offset", .number (.whole (-7))),
        ("ratio", .number (.float true (.finite 6755399441055744 (-52)))), ("nothing", .null),
        ("repo", .object [("url", .string "x\"\n*/"),
          ("tags", .array [.string "a", .object [("b", .null)], .array []])])]
        = .ok (some banner)
      ∧ '\r' ∉ banner.toList
      ∧ banner.toList.splitOn '\n' = ["/**".toList, " * @name ends *\\/ here second line".toList,
          " * @tags a*,/b,null".toList, " * @note".toList, " * @enabled true".toList,
          " * @hidden false".toList, " * @id 42".toList, " * @offset -7".toList,
          " * @ratio -1.5".toList, " * @nothing null".toList,
          " * @repo \x7b\"url\":\"x\\\"\\n*\\/\",\"tags\":[\"a\",\x7b\"b\":null\x7d,[]]\x7d".toList,
          " */".toList] := by
  obtain ⟨banner, hbanner, -, -, -, hreturn, hlines, -⟩ := banner?_lines
    (m := [("name", .string "ends */ here\r\n second line"),
        ("tags", .array [.string "a*", .string "/b", .null]), ("note", .string " \n "),
        ("enabled", .boolean true), ("hidden", .boolean false), ("id", .number (.whole 42)),
        ("offset", .number (.whole (-7))),
        ("ratio", .number (.float true (.finite 6755399441055744 (-52)))), ("nothing", .null),
        ("repo", .object [("url", .string "x\"\n*/"),
          ("tags", .array [.string "a", .object [("b", .null)], .array []])])])
    (by simp) (by decide +kernel)
  exact ⟨banner, hbanner, hreturn, hlines.trans (by decide +kernel)⟩

end Metadata

end Graft
