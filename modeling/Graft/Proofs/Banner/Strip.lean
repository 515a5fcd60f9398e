import Graft.Banner
/-!
Putting a banner in front, and taking it off again.

Metadata have a banner exactly if all their keys can stand in one (`Metadata.validate_eq_ok_iff`,
`Metadata.exists_banner`), and a key that cannot is reported, the first one if there are several
(`Metadata.exists_badKey_of_validate`).

# Reading a banner back

- A value on a line of a banner has no line break in it (`Metadata.oneLine_onLine`), so what follows
  the mark of a tag is on one line (`Metadata.tagText_onLine`).
- The lines of a banner are read back one by one, each as its tag (`Metadata.tagLines_lines`). Every
  entry takes at least one character, so the reader does not run out of fuel before it is through
  (`Metadata.length_le_lines`).
- A tag starts with the key of its entry (`Metadata.tagKey?_tagText`), and nothing but the key is
  compared with the metadata that are known.

# What comes off

The tags are the keys of the metadata, so the banner is taken off, and the code under it is what it
was (`Metadata.strip_prepend`), unless the code starts with that very banner: then none is put in
front. Nothing of this depends on the values, so the banner of one build is taken off by any later
one that knows its keys (`Metadata.strip_bannerText`), and building once more replaces it
(`Metadata.rebuild_replaces_banner`).
-/
namespace Graft

namespace Metadata

open Text

-- ============================================================= keys

/-- The first key that cannot stand in a banner is the one that is named. -/
theorem validate_of_badKey {m before after : Metadata} {key : String} {value : Json}
    (hm : m = before ++ (key, value) :: after) (hbefore : ∀ e ∈ before, isKey e.1 = true)
    (hkey : isKey key = false) : m.validate = .error (.metadata key .badKey) := by
  have hnone : before.find? (fun e => !isKey e.1) = none :=
    List.find?_eq_none.mpr fun e he => by simp [hbefore e he]
  have hfind : m.find? (fun e => !isKey e.1) = some (key, value) := by
    rw [hm, List.find?_append, hnone, Option.none_or, List.find?_cons_of_pos (by simp [hkey])]
  rw [validate, hfind]

/-- A fault of metadata is a bad key, and it is the first one. -/
theorem exists_badKey_of_validate {m : Metadata} {e : TransformError}
    (h : m.validate = .error e) :
    ∃ before key value after, m = before ++ (key, value) :: after
      ∧ (∀ e ∈ before, isKey e.1 = true) ∧ isKey key = false
      ∧ e = .metadata key .badKey := by
  rw [validate] at h
  cases hfind : m.find? (fun e => !isKey e.1) with
  | none => rw [hfind] at h; cases h
  | some entry =>
      rw [hfind] at h
      obtain ⟨hbad, before, after, hm, hbefore⟩ := List.find?_eq_some_iff_append.mp hfind
      refine ⟨before, entry.1, entry.2, after, hm, fun e he => ?_, ?_, ?_⟩
      · simpa using hbefore e he
      · simpa using hbad
      · exact (Except.error.inj h).symm

/-- Metadata are in order exactly if every key can stand in a banner. -/
theorem validate_eq_ok_iff {m : Metadata} :
    m.validate = .ok () ↔ ∀ e ∈ m, isKey e.1 = true := by
  cases hvalidate : m.validate with
  | ok u =>
      refine ⟨fun _ e he => ?_, fun _ => rfl⟩
      rw [validate] at hvalidate
      cases hfind : m.find? (fun e => !isKey e.1) with
      | none => simpa using List.find?_eq_none.mp hfind e he
      | some _ => rw [hfind] at hvalidate; cases hvalidate
  | error e =>
      refine ⟨nofun, fun h => ?_⟩
      obtain ⟨before, key, value, after, rfl, -, hkey, -⟩ := exists_badKey_of_validate hvalidate
      rw [h (key, value) (List.mem_append_right _ List.mem_cons_self)] at hkey
      cases hkey

/-- Metadata that pass their check have a banner, or need none. -/
theorem exists_banner {m : Metadata} (h : m.validate = .ok ()) : ∃ b, m.banner? = .ok b := by
  rw [banner?, h]
  split
  · exact ⟨_, rfl⟩
  · exact ⟨_, rfl⟩

-- ============================================================ lines

/-- Whether a text has no line break in it. -/
def OnLine (text : List Char) : Prop := ∀ c ∈ text, isLineBreak c = false

theorem isBlank_of_isLineBreak {c : Char} (h : isLineBreak c = true) : isBlank c = true := by
  rw [isLineBreak, Bool.or_eq_true, beq_iff_eq, beq_iff_eq] at h
  obtain rfl | rfl := h <;> rfl

/-- What is put for a run of white space breaks no line. -/
theorem flush_onLine (held : List Char) : OnLine (joinLines.flush held) := by
  unfold joinLines.flush
  split
  case isTrue => exact fun c hc => by rw [List.mem_singleton.mp hc]; rfl
  case isFalse hnone =>
    intro c hc
    rw [List.any_eq_true, not_exists] at hnone
    simpa [List.mem_reverse.mp hc] using hnone c

/-- A joined text breaks no line. -/
theorem joinLines_onLine (text held : List Char) : OnLine (joinLines held text) := by
  induction text generalizing held with
  | nil => exact flush_onLine held
  | cons c text ih =>
      rw [joinLines]
      split
      case isTrue => exact ih _
      case isFalse hblank =>
        intro d hd
        rcases List.mem_append.mp hd with hd | hd
        · exact flush_onLine held d hd
        · rcases List.mem_cons.mp hd with rfl | hd
          · exact Bool.eq_false_iff.mpr fun hbreak => hblank (isBlank_of_isLineBreak hbreak)
          · exact ih _ d hd

/-- A backslash breaks no line, so a guarded text breaks none that it did not break before. -/
theorem guardClose_onLine {text : List Char} (h : OnLine text) : OnLine (guardClose text) := by
  induction text with
  | nil => exact h
  | cons c text ih =>
      have hrest := ih fun d hd => h d (List.mem_cons_of_mem _ hd)
      rw [guardClose]
      split
      case isTrue =>
        exact List.forall_mem_cons.mpr ⟨rfl, List.forall_mem_cons.mpr ⟨rfl, hrest⟩⟩
      case isFalse => exact List.forall_mem_cons.mpr ⟨h c List.mem_cons_self, hrest⟩

theorem oneLine_onLine (text : List Char) : OnLine (oneLine text) :=
  guardClose_onLine (joinLines_onLine _ _)

-- ============================================================= tags

/-- What follows the `@` on the line of an entry. -/
def tagText (entry : String × Json) : List Char :=
  let value := oneLine (valueText entry.2)
  entry.1.toList ++ (if value.isEmpty then [] else ' ' :: value)

/-- A key starts with a letter and goes on with characters of keys. -/
theorem exists_key {key : String} (h : isKey key = true) :
    ∃ c cs, key.toList = c :: cs ∧ isKeyStart c = true ∧ ∀ d ∈ cs, isKeyPart d = true := by
  unfold isKey at h
  split at h
  case h_1 c cs heq =>
    obtain ⟨hstart, hparts⟩ := Bool.and_eq_true_iff.mp h
    exact ⟨c, cs, heq, hstart, List.all_eq_true.mp hparts⟩
  case h_2 => cases h

/-- No character of a key breaks a line. -/
theorem isLineBreak_of_isKeyPart {c : Char} (h : isKeyPart c = true) : isLineBreak c = false := by
  cases hbreak : isLineBreak c with
  | false => rfl
  | true =>
      rw [isLineBreak, Bool.or_eq_true, beq_iff_eq, beq_iff_eq] at hbreak
      obtain rfl | rfl := hbreak <;> cases h

theorem isKeyPart_of_isKeyStart {c : Char} (h : isKeyStart c = true) : isKeyPart c = true := by
  rw [isKeyPart, h]
  rfl

/-- What follows the mark of a tag is on one line. -/
theorem tagText_onLine {entry : String × Json} (h : isKey entry.1 = true) :
    OnLine (tagText entry) := by
  obtain ⟨c, cs, heq, hstart, hparts⟩ := exists_key h
  intro d hd
  rcases List.mem_append.mp hd with hd | hd
  · rw [heq] at hd
    rcases List.mem_cons.mp hd with rfl | hd
    · exact isLineBreak_of_isKeyPart (isKeyPart_of_isKeyStart hstart)
    · exact isLineBreak_of_isKeyPart (hparts d hd)
  · split at hd
    · cases hd
    · rcases List.mem_cons.mp hd with rfl | hd
      · rfl
      · exact oneLine_onLine _ d hd

/-- A tag starts with the key of its entry. -/
theorem tagKey?_tagText {entry : String × Json} (h : isKey entry.1 = true) :
    tagKey? (tagText entry) = some entry.1 := by
  obtain ⟨c, cs, heq, hstart, hparts⟩ := exists_key h
  have htake : (cs ++ if (oneLine (valueText entry.2)).isEmpty then []
      else ' ' :: oneLine (valueText entry.2)).takeWhile isKeyPart = cs := by
    rw [List.takeWhile_append_of_pos hparts]
    split
    · exact List.append_nil cs
    · exact List.append_nil cs
  rw [tagText, heq, List.cons_append, tagKey?, if_pos hstart, htake, ← heq, String.ofList_toList]

-- ====================================================== reading it back

theorem afterTagMark?_line (entry : String × Json) (rest : List Char) :
    afterTagMark? (line entry ++ rest) = some (tagText entry ++ rest) := rfl

/-- The lines of a banner are read as its tags. -/
theorem tagLines_lines {m : Metadata} (hm : ∀ e ∈ m, isKey e.1 = true) {rest : List Char}
    (hrest : afterTagMark? rest = none) {fuel : Nat} (hfuel : m.length < fuel) :
    tagLines fuel ((m.flatMap fun e => line e ++ ['\n']) ++ rest) = (m.map tagText, rest) := by
  induction m generalizing fuel with
  | nil =>
      obtain ⟨fuel, rfl⟩ := Nat.exists_eq_succ_of_ne_zero (Nat.ne_of_gt hfuel)
      rw [List.flatMap_nil, List.nil_append, tagLines, hrest]
      rfl
  | cons e m ih =>
      obtain ⟨he, hm⟩ := List.forall_mem_cons.mp hm
      obtain ⟨fuel, rfl⟩ := Nat.exists_eq_succ_of_ne_zero (Nat.ne_zero_of_lt hfuel)
      have hline : ∀ c ∈ tagText e, (!isLineBreak c) = true := fun c hc => by
        rw [tagText_onLine he c hc]
        rfl
      have htext : (List.flatMap (fun e => line e ++ ['\n']) (e :: m)) ++ rest
          = line e ++ '\n' :: ((m.flatMap fun e => line e ++ ['\n']) ++ rest) := by
        simp only [List.flatMap_cons, List.append_assoc, List.cons_append, List.nil_append]
      rw [htext, tagLines, afterTagMark?_line]
      simp only [List.dropWhile_append_of_pos hline, List.takeWhile_append_of_pos hline]
      have hdrop : ∀ l, ('\n' :: l).dropWhile (fun c => !isLineBreak c) = '\n' :: l := fun _ => rfl
      have htake : ∀ l, ('\n' :: l).takeWhile (fun c => !isLineBreak c) = [] := fun _ => rfl
      rw [hdrop, htake, List.append_nil]
      simp only [dropNewline?, ih hm (Nat.lt_of_succ_lt_succ hfuel), List.map_cons]

/-- Every entry takes at least one character, so there is fuel for every line. -/
theorem length_le_lines (m : Metadata) :
    m.length ≤ (m.flatMap fun e => line e ++ ['\n']).length := by
  induction m with
  | nil => exact Nat.le_refl 0
  | cons e m ih =>
      simp only [List.flatMap_cons, List.length_append, List.length_cons, List.length_nil]
      omega

/-- The banner of some metadata is found at the start of a text. -/
theorem leadingBanner?_bannerText {m : Metadata} (hm : ∀ e ∈ m, isKey e.1 = true) (hne : m ≠ [])
    (code : List Char) :
    leadingBanner? (bannerText m ++ '\n' :: code) = some (m.map tagText, code) := by
  have htext : bannerText m ++ '\n' :: code = '/' :: '*' :: '*' :: '\n'
      :: ((m.flatMap fun e => line e ++ ['\n']) ++ (' ' :: '*' :: '/' :: '\n' :: code)) := by
    simp [bannerText]
  have hlines : ∀ k, tagLines (k + m.length + 1)
      ((m.flatMap fun e => line e ++ ['\n']) ++ (' ' :: '*' :: '/' :: '\n' :: code))
        = (m.map tagText, ' ' :: '*' :: '/' :: '\n' :: code) := fun k =>
    tagLines_lines hm rfl (by omega)
  have hfuel : ∃ k, (bannerText m ++ '\n' :: code).length = k + m.length + 1 := by
    have hlength := m.length_le_lines
    refine ⟨(bannerText m ++ '\n' :: code).length - m.length - 1, ?_⟩
    rw [htext]
    simp only [List.length_cons, List.length_append]
    omega
  have htags : (m.map tagText).isEmpty = false := by
    rw [List.isEmpty_map, List.isEmpty_eq_false_iff]
    exact hne
  obtain ⟨k, hk⟩ := hfuel
  rw [leadingBanner?, hk, htext]
  have hopen : dropStart? ['/', '*', '*'] (trimLeft ('/' :: '*' :: '*' :: '\n'
      :: ((m.flatMap fun e => line e ++ ['\n']) ++ (' ' :: '*' :: '/' :: '\n' :: code))))
      = some ('\n' :: ((m.flatMap fun e => line e ++ ['\n'])
        ++ (' ' :: '*' :: '/' :: '\n' :: code))) := rfl
  have hbreak : ∀ l, dropNewline? (('\n' :: l).dropWhile isSpaceOrTab) = some l := fun _ => rfl
  rw [hopen, Option.bind_eq_bind, Option.bind_some, hbreak, Option.bind_eq_bind, Option.bind_some]
  simp only [hlines, htags, Bool.false_eq_true, if_false]
  rfl

/-- Metadata have a banner exactly if there are any, and all their keys can stand in one. -/
theorem banner?_eq_some_iff {m : Metadata} {banner : String} :
    m.banner? = .ok (some banner)
      ↔ m ≠ [] ∧ (∀ e ∈ m, isKey e.1 = true) ∧ banner = String.ofList (bannerText m) := by
  rw [banner?, ← validate_eq_ok_iff]
  cases hempty : m.isEmpty with
  | true =>
      rw [List.isEmpty_iff] at hempty
      simp [hempty]
  | false =>
      rw [List.isEmpty_eq_false_iff] at hempty
      cases hvalid : m.validate with
      | error e => simp
      | ok u => simp [hempty, eq_comm]

/-- The banner of earlier metadata in front of code is taken off if all their keys are known,
whatever their values were. -/
theorem strip_bannerText {old new : Metadata} (hne : old ≠ [])
    (hold : ∀ e ∈ old, isKey e.1 = true) (hknown : ∀ e ∈ old, ∃ e' ∈ new, e'.1 = e.1)
    (code : String) : new.strip (String.ofList (bannerText old) ++ "\n" ++ code) = code := by
  have hchars : (String.ofList (bannerText old) ++ "\n" ++ code).toList
      = bannerText old ++ '\n' :: code.toList := by
    simp [String.toList_append]
  rw [strip, hchars, leadingBanner?_bannerText hold hne]
  dsimp only
  rw [if_pos, String.ofList_toList]
  rw [List.all_map, List.all_eq_true]
  intro e he
  obtain ⟨e', he', hkey⟩ := hknown e he
  rw [Function.comp_apply, tagKey?_tagText (hold e he)]
  exact List.any_eq_true.mpr ⟨e', he', beq_iff_eq.mpr hkey⟩

/-- The banner of some metadata in front of code is taken off again. -/
theorem strip_banner {m : Metadata} {banner : String} (h : m.banner? = .ok (some banner))
    (code : String) : m.strip (banner ++ "\n" ++ code) = code := by
  obtain ⟨hne, hm, rfl⟩ := banner?_eq_some_iff.mp h
  exact strip_bannerText hne hm (fun e he => ⟨e, he, rfl⟩) code

/-- A banner that is read has a tag. -/
theorem exists_tag_of_leadingBanner? {text rest : List Char} {tags : List (List Char)}
    (h : leadingBanner? text = some (tags, rest)) : ∃ tag, tag ∈ tags := by
  simp only [leadingBanner?, Option.bind_eq_bind, Option.bind_eq_some_iff] at h
  obtain ⟨_, -, _, -, h⟩ := h
  split at h
  case isTrue => cases h
  case isFalse hne =>
    obtain ⟨_, -, h⟩ := Option.bind_eq_some_iff.mp h
    obtain ⟨rfl, -⟩ := Prod.mk.inj (Option.some.inj h)
    exact List.exists_mem_of_ne_nil _ fun heq => hne (by rw [heq]; rfl)

/-- Without metadata no banner is taken off. -/
theorem strip_nil (code : String) : strip [] code = code := by
  rw [strip]
  split
  case h_1 => rfl
  case h_2 tags rest heq =>
    obtain ⟨tag, htag⟩ := exists_tag_of_leadingBanner? heq
    refine if_neg fun hall => ?_
    have hours := List.all_eq_true.mp hall tag htag
    split at hours <;> cases hours

/-- A text can be dropped from the start of another one exactly if it is a prefix of it. -/
theorem isSome_dropStart?_iff {start text : List Char} :
    (dropStart? start text).isSome = true ↔ start <+: text := by
  induction start generalizing text with
  | nil => simp [dropStart?]
  | cons c start ih =>
      cases text with
      | nil => simp [dropStart?]
      | cons d text =>
          rw [dropStart?, List.cons_prefix_cons, ← ih]
          by_cases hcd : c = d <;> simp [hcd]

/-- Code that does not start with a banner gets it on lines of its own. -/
theorem prepend_of_not_prefix {code banner : String} (h : ¬ banner.toList <+: code.toList) :
    prepend code banner = banner ++ "\n" ++ code := by
  rw [prepend, if_neg fun hstart => h (isSome_dropStart?_iff.mp hstart)]

/-- Code under its banner, or without one if there is none, comes out of it as it was, unless it
starts with that banner itself. -/
theorem strip_prepend {m : Metadata} {banner : Option String} (h : m.banner? = .ok banner)
    {code : String} (hcode : ∀ b, banner = some b → ¬ b.toList <+: code.toList) :
    m.strip ((banner.map (prepend code)).getD code) = code := by
  cases banner with
  | none =>
      obtain rfl : m = [] := by
        unfold banner? at h
        split at h
        · exact List.isEmpty_iff.mp ‹_›
        · split at h <;> cases h
      exact strip_nil code
  | some b =>
      rw [Option.map_some, Option.getD_some, prepend_of_not_prefix (hcode b rfl)]
      exact strip_banner h code

-- ==================================================== building once more

/-- The banner of an earlier build comes off again, byte for byte, if every key of its metadata is
known now, whatever the values were and whatever code stands under it. A build with metadata that
have a banner puts theirs in its place, so that banners never pile up. -/
theorem rebuild_replaces_banner (old new : Metadata) (hne : old ≠ [])
    (hold : ∀ e ∈ old, isKey e.1 = true) (hknown : ∀ e ∈ old, ∃ e' ∈ new, e'.1 = e.1) :
    ∃ banner, old.banner? = .ok (some banner)
      ∧ (∀ code, new.strip (banner ++ "\n" ++ code) = code)
      ∧ ((∀ e ∈ new, isKey e.1 = true) → ∃ renewed, new.banner? = .ok (some renewed)
          ∧ ∀ code, ¬ renewed.toList <+: code.toList →
              prepend (new.strip (banner ++ "\n" ++ code)) renewed
                = renewed ++ "\n" ++ code) := by
  have hstrip := strip_bannerText hne hold hknown
  refine ⟨_, banner?_eq_some_iff.mpr ⟨hne, hold, rfl⟩, hstrip, fun hnew => ?_⟩
  have hsome : new ≠ [] := by
    obtain ⟨e, he⟩ := List.exists_mem_of_ne_nil old hne
    obtain ⟨e', he', -⟩ := hknown e he
    exact List.ne_nil_of_mem he'
  refine ⟨_, banner?_eq_some_iff.mpr ⟨hsome, hnew, rfl⟩, fun code hcode => ?_⟩
  rw [hstrip code, prepend_of_not_prefix hcode]

/-- A build with a new version and one key more, on code that starts with a banner of its own. -/
theorem rebuild_replaces_banner_of_new_version :
    ∃ banner renewed,
      banner? [("name", .string "Example"), ("version", .string "1 */\n * @name 0")]
          = .ok (some banner)
        ∧ banner? [("version", .string "2"), ("author", .null), ("name", .string "Example")]
          = .ok (some renewed)
        ∧ prepend (strip [("version", .string "2"), ("author", .null), ("name", .string "Example")]
            (banner ++ "\n" ++ "/**\n * @name Other\n */\ngo();")) renewed
          = renewed ++ "\n" ++ "/**\n * @name Other\n */\ngo();" := by
  obtain ⟨banner, hbanner, -, hrebuild⟩ := rebuild_replaces_banner
    [("name", .string "Example"), ("version", .string "1 */\n * @name 0")]
    [("version", .string "2"), ("author", .null), ("name", .string "Example")]
    (by simp) (by decide +kernel) (by decide +kernel)
  obtain ⟨renewed, hrenewed, hcode⟩ := hrebuild (by decide +kernel)
  refine ⟨banner, renewed, hbanner, hrenewed, hcode _ ?_⟩
  rw [(banner?_eq_some_iff.mp hrenewed).2.2]
  decide +kernel

end Metadata

end Graft
