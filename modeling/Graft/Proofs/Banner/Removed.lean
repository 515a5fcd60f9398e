import Graft.Proofs.Banner.Comment
/-!
What is taken off with a banner.

# The lines of a banner

The lines that look like a banner are told by their starts: white space, an asterisk and a tag. What
stands behind a tag is not looked at, so the comment may end there, and what follows on the line is
code that goes with it.

# What goes

`Metadata.strip_removes` says it for every code. The code is left from some place on, and what stood
before that place is white space and one comment (`IsLoneComment`) exactly if no tag closes the
comment. In that case the reader of gaps passes over it and finds the same code behind it
(`IsLoneComment.passesOver`), so nothing of the program is lost.

# How it is shown

A text is a lone comment if it is read as one up to its last mark (`isLoneComment_iff`): where that
mark closes the comment is decided by what stands before it. The text of a banner is put together
from its opening mark, the starts of its lines, the tags, and what ends it; the starts hold no slash
behind an asterisk, so a mark that closes the comment early is in one of the tags
(`exists_lines_of_tagLines`).
-/
namespace Graft

open Text

-- ========================================================= parts of a text

/-- Without a slash no comment is closed. -/
theorem unclosed_of_no_slash {text : List Char} (h : '/' ∉ text) : Unclosed text := by
  rw [unclosed_iff]
  rintro before after rfl
  simp at h

/-- What stands apart closes a comment only on one side or the other. -/
theorem unclosed_parted {text between more : List Char} (hne : between ≠ []) (hstar : '*' ∉ between)
    (hslash : '/' ∉ between) :
    Unclosed (text ++ (between ++ more)) ↔ Unclosed text ∧ Unclosed more := by
  have hhead : (between ++ more).head? ≠ some '/' := by
    obtain ⟨c, between, rfl⟩ := List.exists_cons_of_ne_nil hne
    rintro ⟨⟩
    simp at hslash
  have hlast : between.getLast? ≠ some '*' := fun h => hstar (List.mem_of_getLast? h)
  rw [unclosed_append, unclosed_append]
  constructor
  · rintro ⟨htext, ⟨-, hmore, -⟩, -⟩
    exact ⟨htext, hmore⟩
  · rintro ⟨htext, hmore⟩
    exact ⟨htext, ⟨unclosed_of_no_star hstar, hmore, fun h => absurd h hlast⟩,
      fun _ => hhead⟩

/-- What is dropped from the start of a text is that start. -/
theorem dropStart?_eq_some {start text rest : List Char} (h : dropStart? start text = some rest) :
    text = start ++ rest := by
  induction start generalizing text with
  | nil => simpa [dropStart?] using h
  | cons c start ih =>
      cases text with
      | nil => cases h
      | cons d text =>
          rw [dropStart?] at h
          split at h
          case isTrue hc =>
            rw [beq_iff_eq.mp hc, ih h]
            rfl
          case isFalse => cases h

/-- A line feed is dropped, perhaps with a carriage return before it. -/
theorem dropNewline?_eq_some {text rest : List Char} (h : dropNewline? text = some rest) :
    ∃ newline, text = newline ++ rest ∧ newline ≠ [] ∧ ∀ c ∈ newline, isLineBreak c = true := by
  unfold dropNewline? at h
  split at h
  case h_1 =>
    obtain rfl := Option.some.inj h
    exact ⟨['\n'], rfl, by simp, by simp [isLineBreak]⟩
  case h_2 =>
    obtain rfl := Option.some.inj h
    exact ⟨['\r', '\n'], rfl, by simp, by simp [isLineBreak]⟩
  case h_3 => cases h

/-- At most a line break is dropped. -/
theorem exists_of_getD_dropNewline? (text : List Char) :
    ∃ newline, text = newline ++ (dropNewline? text).getD text
      ∧ ∀ c ∈ newline, isLineBreak c = true := by
  cases h : dropNewline? text with
  | none => exact ⟨[], rfl, by simp⟩
  | some rest =>
      obtain ⟨newline, htext, -, hnewline⟩ := dropNewline?_eq_some h
      exact ⟨newline, htext, hnewline⟩

theorem isBlank_of_isSpaceOrTab {c : Char} (h : isSpaceOrTab c = true) : isBlank c = true := by
  rw [isSpaceOrTab, Bool.or_eq_true, beq_iff_eq, beq_iff_eq] at h
  obtain rfl | rfl := h <;> rfl

/-- The end of a line: spaces, and then line breaks. -/
theorem blank_lineEnd {spaces breaks : List Char} (hspaces : ∀ c ∈ spaces, isSpaceOrTab c = true)
    (hbreaks : ∀ c ∈ breaks, isLineBreak c = true) : ∀ c ∈ spaces ++ breaks, isBlank c = true := by
  intro c hc
  rcases List.mem_append.mp hc with hc | hc
  · exact isBlank_of_isSpaceOrTab (hspaces c hc)
  · exact Metadata.isBlank_of_isLineBreak (hbreaks c hc)

/-- White space has no other character in it. -/
theorem not_mem_of_blank {text : List Char} {c : Char} (h : ∀ d ∈ text, isBlank d = true)
    (hc : isBlank c = false) : c ∉ text := by
  intro hmem
  rw [h c hmem] at hc
  cases hc

/-- What is dropped, and what is left. -/
theorem exists_of_dropWhile (p : Char → Bool) (text : List Char) :
    ∃ dropped, text = dropped ++ text.dropWhile p ∧ ∀ c ∈ dropped, p c = true :=
  ⟨text.takeWhile p, List.takeWhile_append_dropWhile.symm,
    List.all_eq_true.mp List.all_takeWhile⟩

-- ===================================================== lone comments

/-- One block comment with nothing but white space around it. -/
def IsLoneComment (text : List Char) : Prop :=
  ∃ before body after, text = before ++ ('/' :: '*' :: (body ++ '*' :: '/' :: after))
    ∧ (∀ c ∈ before, isBlank c = true) ∧ (∀ c ∈ after, isBlank c = true)
    ∧ Unclosed (body ++ ['*'])

/-- The reader passes over a lone comment. -/
theorem IsLoneComment.passesOver {text : List Char} (h : IsLoneComment text) : PassesOver text := by
  obtain ⟨before, body, after, rfl, hbefore, hafter, hbody⟩ := h
  have htext : before ++ ('/' :: '*' :: (body ++ '*' :: '/' :: after))
      = before ++ (('/' :: '*' :: (body ++ ['*', '/'])) ++ after) := by
    simp
  rw [htext]
  exact (passesOver_blanks hbefore).append
    ((passesOver_comment hbody).append (passesOver_blanks hafter))

/-- White space before something else is told from it. -/
theorem blanks_unique {blanks blanks' text text' : List Char} {c d : Char}
    (h : ∀ c ∈ blanks, isBlank c = true) (h' : ∀ c ∈ blanks', isBlank c = true)
    (hc : isBlank c = false) (hd : isBlank d = false)
    (heq : blanks ++ c :: text = blanks' ++ d :: text') : c :: text = d :: text' := by
  have hdrop := congrArg (List.dropWhile isBlank) heq
  rw [List.dropWhile_append_of_pos h, List.dropWhile_append_of_pos h'] at hdrop
  simpa [hc, hd] using hdrop

/-- Whether a text is a lone comment is decided where its last mark closes a comment. -/
theorem isLoneComment_iff {before body after : List Char} (hbefore : ∀ c ∈ before, isBlank c = true)
    (hafter : ∀ c ∈ after, isBlank c = true) :
    IsLoneComment (before ++ ('/' :: '*' :: (body ++ '*' :: '/' :: after)))
      ↔ Unclosed (body ++ ['*']) := by
  refine ⟨fun h => ?_, fun h => ⟨before, body, after, rfl, hbefore, hafter, h⟩⟩
  obtain ⟨before', body', after', heq, hbefore', hafter', hbody'⟩ := h
  have hopen := blanks_unique hbefore hbefore' rfl rfl heq
  -- the same from behind
  have hclose : after.reverse ++ '/' :: '*' :: body.reverse
      = after'.reverse ++ '/' :: '*' :: body'.reverse := by
    have hbehind := congrArg List.reverse (List.cons.inj (List.cons.inj hopen).2).2
    simpa using hbehind
  have hbody := blanks_unique (by simpa using hafter) (by simpa using hafter') rfl rfl hclose
  obtain rfl : body = body' := by simpa using hbody
  exact hbody'

namespace Metadata

-- ============================================================ tags

/-- Up to the mark of a tag stand white space, one asterisk and no slash. -/
theorem afterTagMark?_eq_some {text tag : List Char} (h : afterTagMark? text = some tag) :
    ∃ mark, text = mark ++ '@' :: tag ∧ '/' ∉ mark := by
  unfold afterTagMark? at h
  split at h
  case h_2 => cases h
  case h_1 rest hstar =>
    split at h
    case h_2 => cases h
    case h_1 tag' htag =>
      obtain rfl := Option.some.inj h
      obtain ⟨before, hbefore, hspaces⟩ := exists_of_dropWhile isSpaceOrTab text
      obtain ⟨between, hbetween, hspaces'⟩ := exists_of_dropWhile isSpaceOrTab rest
      refine ⟨before ++ '*' :: between, ?_, ?_⟩
      · rw [hbefore, hstar, hbetween, htag]
        simp
      · intro hslash
        simp only [List.mem_append, List.mem_cons] at hslash
        rcases hslash with hslash | hslash | hslash
        · exact absurd (hspaces _ hslash) (by decide)
        · exact absurd hslash (by decide)
        · exact absurd (hspaces' _ hslash) (by decide)

/-- No line of a tag is read, or the first one is, up to its line break. -/
theorem tagLines_cases (fuel : Nat) (text : List Char) :
    tagLines (fuel + 1) text = ([], text)
      ∨ ∃ mark tag newline text', text = mark ++ '@' :: (tag ++ (newline ++ text'))
          ∧ '/' ∉ mark ∧ newline ≠ [] ∧ (∀ c ∈ newline, isLineBreak c = true)
          ∧ tagLines (fuel + 1) text
            = (tag :: (tagLines fuel text').1, (tagLines fuel text').2) := by
  rw [tagLines]
  cases hmark : afterTagMark? text with
  | none => exact .inl rfl
  | some line =>
      dsimp only
      cases hbreak : dropNewline? (line.dropWhile fun c => !isLineBreak c) with
      | none => exact .inl rfl
      | some text' =>
          obtain ⟨mark, htext, hslash⟩ := afterTagMark?_eq_some hmark
          obtain ⟨newline, hrest, hne, hnewline⟩ := dropNewline?_eq_some hbreak
          refine .inr ⟨mark, line.takeWhile fun c => !isLineBreak c, newline, text', ?_, hslash,
            hne, hnewline, rfl⟩
          rw [← hrest, List.takeWhile_append_dropWhile, htext]

/-- Lines of tags close a comment where one of the tags does. -/
theorem exists_lines_of_tagLines {fuel : Nat} {text rest : List Char} {tags : List (List Char)}
    (h : tagLines fuel text = (tags, rest)) :
    ∃ lines, text = lines ++ rest
      ∧ ∀ more, Unclosed (lines ++ more) ↔ (∀ tag ∈ tags, Unclosed tag) ∧ Unclosed more := by
  induction fuel generalizing text tags with
  | zero =>
      obtain ⟨rfl, rfl⟩ := Prod.mk.inj h
      exact ⟨[], rfl, by simp⟩
  | succ fuel ih =>
      rcases tagLines_cases fuel text with
        hnone | ⟨mark, tag, newline, text', rfl, hslash, hne, hnewline, hsome⟩
      · obtain ⟨rfl, rfl⟩ := Prod.mk.inj (hnone.symm.trans h)
        exact ⟨[], rfl, by simp⟩
      · obtain ⟨rfl, rfl⟩ := Prod.mk.inj (hsome.symm.trans h)
        have hmore : tagLines fuel text' = ((tagLines fuel text').1, (tagLines fuel text').2) := rfl
        obtain ⟨lines, htext', hlines⟩ := ih hmore
        -- the line just taken and the lines that the induction gives
        refine ⟨mark ++ '@' :: (tag ++ (newline ++ lines)), by simp [← htext'], fun more => ?_⟩
        have hblank : ∀ c ∈ newline, isBlank c = true :=
          fun c hc => isBlank_of_isLineBreak (hnewline c hc)
        -- the blanks and the break between two lines part them: no comment's end runs across
        have hparted : Unclosed (tag ++ (newline ++ (lines ++ more)))
            ↔ Unclosed tag ∧ Unclosed (lines ++ more) :=
          unclosed_parted hne (not_mem_of_blank hblank rfl) (not_mem_of_blank hblank rfl)
        calc Unclosed ((mark ++ '@' :: (tag ++ (newline ++ lines))) ++ more)
            ↔ Unclosed (mark ++ '@' :: (tag ++ (newline ++ (lines ++ more)))) := by simp
          _ ↔ Unclosed (tag ++ (newline ++ (lines ++ more))) := by
              rw [unclosed_append, unclosed_cons (by decide)]
              simp [unclosed_of_no_slash hslash]
          _ ↔ Unclosed tag ∧ (∀ tag ∈ (tagLines fuel text').1, Unclosed tag) ∧ Unclosed more := by
              rw [hparted, hlines]
          _ ↔ (∀ tag' ∈ tag :: (tagLines fuel text').1, Unclosed tag') ∧ Unclosed more := by
              rw [List.forall_mem_cons, and_assoc]

/-- A leading banner is a lone comment exactly if no tag closes it. -/
theorem exists_comment_of_leadingBanner? {text rest : List Char} {tags : List (List Char)}
    (h : leadingBanner? text = some (tags, rest)) :
    ∃ removed, text = removed ++ rest ∧ (IsLoneComment removed ↔ ∀ tag ∈ tags, Unclosed tag) := by
  simp only [leadingBanner?, Option.bind_eq_bind, Option.bind_eq_some_iff] at h
  obtain ⟨opened, hopened, first, hfirst, h⟩ := h
  split at h
  case isTrue => cases h
  case isFalse =>
    obtain ⟨closed, hclosed, h⟩ := Option.bind_eq_some_iff.mp h
    obtain ⟨htags, hrest⟩ := Prod.mk.inj (Option.some.inj h)
    -- the text, piece by piece
    obtain ⟨before, htext, hbefore⟩ := exists_of_dropWhile isBlank text
    obtain ⟨spaces, hspaces, hspace⟩ := exists_of_dropWhile isSpaceOrTab opened
    obtain ⟨newline, hnewline, hne, hbreak⟩ := dropNewline?_eq_some hfirst
    obtain ⟨lines, hlines, hclose⟩ := exists_lines_of_tagLines
      (show tagLines text.length first = (tags, (tagLines text.length first).2) by rw [← htags])
    obtain ⟨indent, hindent, hindented⟩ := exists_of_dropWhile isSpaceOrTab
      (tagLines text.length first).2
    obtain ⟨trail, htrail, htrailing⟩ := exists_of_dropWhile isSpaceOrTab closed
    obtain ⟨final, hfinal, hfinally⟩ := exists_of_getD_dropNewline?
      (closed.dropWhile isSpaceOrTab)
    rw [hrest] at hfinal
    have hopen : text.dropWhile isBlank = '/' :: '*' :: '*' :: opened := dropStart?_eq_some hopened
    have hend : (tagLines text.length first).2.dropWhile isSpaceOrTab = '*' :: '/' :: closed :=
      dropStart?_eq_some hclosed
    have hparts : text = (before ++ '/' :: '*'
        :: (('*' :: (spaces ++ (newline ++ (lines ++ indent))))
          ++ '*' :: '/' :: (trail ++ final))) ++ rest := by
      rw [htext, hopen, hspaces, hnewline, hlines, hindent, hend, htrail, hfinal]
      simp
    have hblank : ∀ c ∈ trail ++ final, isBlank c = true := blank_lineEnd htrailing hfinally
    -- the asterisk of `/**` and what follows the tags stand apart from them
    have hparted : ∀ c ∈ spaces ++ newline, isBlank c = true := blank_lineEnd hspace hbreak
    have hclosing : Unclosed (indent ++ ['*']) := by
      apply unclosed_of_no_slash
      have hslash : '/' ∉ indent :=
        not_mem_of_blank (fun c hc => isBlank_of_isSpaceOrTab (hindented c hc)) rfl
      simp [hslash]
    refine ⟨_, hparts, ?_⟩
    rw [isLoneComment_iff hbefore hblank]
    calc Unclosed (('*' :: (spaces ++ (newline ++ (lines ++ indent)))) ++ ['*'])
        ↔ Unclosed (['*'] ++ ((spaces ++ newline) ++ (lines ++ (indent ++ ['*'])))) := by simp
      _ ↔ Unclosed ['*'] ∧ Unclosed (lines ++ (indent ++ ['*'])) :=
          unclosed_parted (by simp [hne]) (not_mem_of_blank hparted rfl)
            (not_mem_of_blank hparted rfl)
      _ ↔ ∀ tag ∈ tags, Unclosed tag := by
          rw [hclose]
          simp [hclosing, unclosed_of_no_slash]

/-- Code without its banner is what stands behind some place of the code. What goes is white space
and one comment exactly if none of the tags closes the comment. -/
theorem strip_removes (m : Metadata) (code : String) :
    m.strip code = code ∨ ∃ removed tags, code.toList = removed ++ (m.strip code).toList
      ∧ leadingBanner? code.toList = some (tags, (m.strip code).toList)
      ∧ (∀ tag ∈ tags, ∃ e ∈ m, tagKey? tag = some e.1)
      ∧ (IsLoneComment removed ↔ ∀ tag ∈ tags, Unclosed tag) := by
  rw [strip]
  cases hbanner : leadingBanner? code.toList with
  | none => exact .inl rfl
  | some banner =>
      obtain ⟨tags, rest⟩ := banner
      dsimp only
      split
      case isFalse => exact .inl rfl
      case isTrue hours =>
        obtain ⟨removed, htext, hlone⟩ := exists_comment_of_leadingBanner? hbanner
        refine .inr ⟨removed, tags, by rw [htext, String.toList_ofList],
          by rw [String.toList_ofList], ?_, hlone⟩
        intro tag htag
        have htag := List.all_eq_true.mp hours tag htag
        split at htag
        case h_1 key hkey =>
          obtain ⟨e, he, heq⟩ := List.any_eq_true.mp htag
          exact ⟨e, he, by rw [hkey, beq_iff_eq.mp heq]⟩
        case h_2 => cases htag

-- a tag that closes the comment takes the code behind it along
example : strip [("name", .string "x")] "/**\n * @name x */ go(); /*\n */\nrun();" = "run();" := by
  decide +kernel

end Metadata

end Graft
