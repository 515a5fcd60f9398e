import Graft.Token.Cursor
/-!
Reading goes forward.

Every scanner of the library hands back a tail that starts further on in the text than the one it
was given; only a gap may be empty. So every token but the last one covers text
(`scanLexeme?_progress`).

A cursor stands in order: what was read, then the token it shows, then what follows that
(`Cursor.Sound`). From one cursor to a later one there are two relations, and all that is said about
the places of nodes is said with them: the later one has not gone back (`Cursor.Onward`), or has
gone on over at least one token (`Cursor.Beyond`).
-/
namespace Graft

-- ================================================================= tails

namespace Tail

/-- To drop characters never goes back. -/
theorem offset_le_drop (n : Nat) (t : Tail) : t.offset ≤ (t.drop n).offset := by
  induction n generalizing t with
  | zero => exact Nat.le_refl _
  | succ n ih =>
      obtain ⟨o, cs⟩ := t
      cases cs with
      | nil => exact Nat.le_refl _
      | cons c cs =>
          have h := ih ⟨o + c.utf8Size, cs⟩
          simp only [drop] at h ⊢
          omega

/-- It goes on where there is a character to drop. -/
theorem offset_lt_drop {n : Nat} {t : Tail} (hn : 0 < n) (ht : t.chars ≠ []) :
    t.offset < (t.drop n).offset := by
  obtain ⟨n, rfl⟩ := Nat.exists_eq_succ_of_ne_zero (Nat.ne_of_gt hn)
  obtain ⟨o, cs⟩ := t
  cases cs with
  | nil => exact absurd rfl ht
  | cons c cs =>
      have h := offset_le_drop n ⟨o + c.utf8Size, cs⟩
      have hc := c.utf8Size_pos
      simp only [drop] at h ⊢
      omega

/-- To take characters while a test holds never goes back, and goes on if it takes any. -/
theorem offset_spanChars (p : Char → Bool) (o : Nat) (cs : List Char) :
    o ≤ (spanChars p o cs).2.offset
      ∧ ((spanChars p o cs).1 ≠ [] → o < (spanChars p o cs).2.offset) := by
  induction cs generalizing o with
  | nil => exact ⟨Nat.le_refl _, fun h => absurd rfl h⟩
  | cons c cs ih =>
      rw [spanChars]
      split
      · have h := (ih (o + c.utf8Size)).1
        have hc := c.utf8Size_pos
        dsimp only
        exact ⟨by omega, fun _ => by omega⟩
      · exact ⟨Nat.le_refl _, fun h => absurd rfl h⟩

theorem offset_le_span (p : Char → Bool) (t : Tail) : t.offset ≤ (t.span p).2.offset :=
  (offset_spanChars p t.offset t.chars).1

theorem offset_lt_span {p : Char → Bool} {t : Tail} (h : (t.span p).1 ≠ []) :
    t.offset < (t.span p).2.offset :=
  (offset_spanChars p t.offset t.chars).2 h

end Tail

-- ============================================================= scanners

/-- A gap may be empty. -/
theorem scanGap_progress {mode : GapMode} {g g' : Gap} {o : Nat} {cs : List Char} {t : Tail}
    (h : scanGap mode g o cs = some (g', t)) : o ≤ t.offset := by
  induction cs generalizing mode g o with
  | nil =>
      cases mode <;> simp only [scanGap, Option.some.injEq, Prod.mk.injEq, reduceCtorEq] at h
      all_goals
        obtain ⟨-, rfl⟩ := h
        exact Nat.le_refl _
  | cons c cs ih =>
      -- one character on, the gap starts later, and the induction brings it further
      have hstep : ∀ {mode g}, scanGap mode g (o + c.utf8Size) cs = some (g', t) →
          o ≤ t.offset := fun h => Nat.le_trans (Nat.le_add_right ..) (ih h)
      cases mode with
      -- a blank, the end of a line, the two ways into a comment; or the gap ends here
      | between =>
          simp only [scanGap] at h
          split at h
          · exact hstep h
          · split at h
            · exact hstep h
            · split at h
              · exact hstep h
              · split at h
                · exact hstep h
                · obtain ⟨-, rfl⟩ := by simpa using h
                  exact Nat.le_refl _
      | line text =>
          simp only [scanGap] at h
          split at h
          · exact hstep h
          · exact hstep h
      | block text star =>
          simp only [scanGap] at h
          split at h
          · exact hstep h
          · exact hstep h
      | blockStart =>
          simp only [scanGap] at h
          exact hstep h

/-- A string ends with its quote at least. -/
theorem scanStringBody_progress {quote : Char} {mode : StringMode} {o : Nat} {cs : List Char}
    {pieces : List StringPiece} {raw : List Char} {t : Tail}
    (h : scanStringBody quote mode o cs = some (pieces, raw, t)) : o < t.offset := by
  induction cs generalizing mode o pieces raw with
  | nil => simp [scanStringBody] at h
  | cons c cs ih =>
      have hc := c.utf8Size_pos
      rw [scanStringBody] at h
      split at h
      · obtain ⟨-, -, rfl⟩ := by simpa using h
        exact Nat.lt_add_of_pos_right hc
      · split at h
        case h_1 heq =>
          obtain ⟨-, -, rfl⟩ := by simpa using h
          have := ih heq
          omega
        case h_2 => cases h
      · cases h

/-- A piece of a template ends with a backtick or an opening brace. -/
theorem scanTemplateBody_progress {mode : TemplateMode} {o : Nat} {cs : List Char}
    {r : List Char × Bool × Tail} (h : scanTemplateBody mode o cs = some r) :
    o < r.2.2.offset := by
  induction cs generalizing mode o r with
  | nil => simp [scanTemplateBody] at h
  | cons c cs ih =>
      have hc := c.utf8Size_pos
      simp only [scanTemplateBody] at h
      split at h
      · obtain rfl := by simpa using h
        exact Nat.lt_succ_self _
      · split at h
        · obtain rfl := by simpa using h
          exact Nat.lt_succ_self _
        · obtain ⟨r', hr', rfl⟩ := Option.map_eq_some_iff.mp h
          have := ih hr'
          dsimp only
          omega

/-- A regular expression ends with a slash. -/
theorem scanRegexBody_progress {escaped inClass : Bool} {o : Nat} {cs : List Char}
    {r : List Char × Tail} (h : scanRegexBody escaped inClass o cs = some r) :
    o < r.2.offset := by
  induction cs generalizing escaped inClass o r with
  | nil => simp [scanRegexBody] at h
  | cons c cs ih =>
      have hc := c.utf8Size_pos
      simp only [scanRegexBody] at h
      split at h
      · cases h
      · split at h
        · obtain rfl := by simpa using h
          exact Nat.lt_succ_self _
        · obtain ⟨r', hr', rfl⟩ := Option.map_eq_some_iff.mp h
          have := ih hr'
          dsimp only
          omega

/-- A name has a character, and an escape that has begun goes on. -/
theorem scanNameChars_progress {mode : NameMode} {isFirst : Bool} {o : Nat} {cs : List Char}
    {r : List Char × Bool × Tail} (h : scanNameChars mode isFirst o cs = some r) :
    o ≤ r.2.2.offset ∧ (isFirst = true ∨ mode ≠ .plain → o < r.2.2.offset) := by
  induction cs generalizing mode isFirst o r with
  | nil =>
      cases mode <;> simp only [scanNameChars, reduceCtorEq] at h
      split at h
      · cases h
      case isFalse hfirst =>
        obtain rfl := by simpa using h
        refine ⟨Nat.le_refl _, ?_⟩
        rintro (hf | hf)
        · exact absurd hf hfirst
        · exact absurd rfl hf
  | cons c cs ih =>
      have hc := c.utf8Size_pos
      -- what is read after `c` ends no earlier than it starts
      have hmap : ∀ {mode isFirst n} {f : List Char × Bool × Tail → List Char × Bool × Tail},
          (scanNameChars mode isFirst (o + n) cs).map f = some r → (∀ r, (f r).2.2 = r.2.2) →
          0 < n → o < r.2.2.offset := by
        intro mode isFirst n f h hf hn
        obtain ⟨r', hr', rfl⟩ := Option.map_eq_some_iff.mp h
        have := (ih hr').1
        rw [hf]
        omega
      have hgo : ∀ {mode isFirst}, scanNameChars mode isFirst (o + 1) cs = some r →
          o < r.2.2.offset := by
        intro mode isFirst h
        have := (ih h).1
        omega
      have hlt : o < r.2.2.offset → o ≤ r.2.2.offset
          ∧ (isFirst = true ∨ mode ≠ .plain → o < r.2.2.offset) :=
        fun h => ⟨Nat.le_of_lt h, fun _ => h⟩
      cases mode with
      | plain =>
          simp only [scanNameChars] at h
          split at h
          · exact hlt (hmap h (fun _ => rfl) Nat.one_pos)
          · split at h
            · exact hlt (hmap h (fun _ => rfl) hc)
            · split at h
              · cases h
              case isFalse hfirst =>
                obtain rfl := by simpa using h
                refine ⟨Nat.le_refl _, ?_⟩
                rintro (hf | hf)
                · exact absurd hf hfirst
                · exact absurd rfl hf
      | escape =>
          simp only [scanNameChars] at h
          split at h
          · exact hlt (hgo h)
          · cases h
      | unicode =>
          simp only [scanNameChars] at h
          split at h
          · exact hlt (hgo h)
          · split at h
            · exact hlt (hgo h)
            · cases h
      | hex missing value =>
          simp only [scanNameChars] at h
          split at h
          · split at h
            · split at h
              · exact hlt (hmap h (fun _ => rfl) Nat.one_pos)
              · cases h
            · exact hlt (hgo h)
          · cases h
      | braced value hasDigit =>
          simp only [scanNameChars] at h
          split at h
          · split at h
            · split at h
              · exact hlt (hmap h (fun _ => rfl) Nat.one_pos)
              · cases h
            · cases h
          · split at h
            · split at h
              · cases h
              · exact hlt (hgo h)
            · cases h

-- ============================================================== numbers

/-- A row of digits is never empty. -/
theorem scanDigits?_progress {isDigit : Char → Bool} {t : Tail} {r : List Char × Tail}
    (h : scanDigits? isDigit t = some r) : t.offset < r.2.offset := by
  unfold scanDigits? at h
  dsimp only at h
  split at h
  case isTrue hvalid =>
    obtain rfl := by simpa using h
    refine Tail.offset_lt_span fun hempty => ?_
    rw [hempty] at hvalid
    cases hvalid
  case isFalse => cases h

/-- An exponent may be missing. -/
theorem scanExponent?_progress {t : Tail} {r : Int × Tail} (h : scanExponent? t = some r) :
    t.offset ≤ r.2.offset := by
  have h1 := Tail.offset_le_drop 1 t
  have h2 := Tail.offset_le_drop 2 t
  unfold scanExponent? at h
  split at h
  case h_1 c cs hchars =>
    split at h
    case isTrue =>
      dsimp only at h
      split at h
      case h_1 row rest hdigits =>
        obtain rfl := by simpa using h
        have hd := scanDigits?_progress hdigits
        dsimp only at hd ⊢
        split at hd
        · exact Nat.le_of_lt (Nat.lt_of_le_of_lt h2 hd)
        · exact Nat.le_of_lt (Nat.lt_of_le_of_lt h2 hd)
        · exact Nat.le_of_lt (Nat.lt_of_le_of_lt h1 hd)
      case h_2 => cases h
    case isFalse =>
      obtain rfl := by simpa using h
      exact Nat.le_refl _
  case h_2 =>
    obtain rfl := by simpa using h
    exact Nat.le_refl _

/-- A fraction starts with a point. -/
theorem scanFraction?_progress {t : Tail} {r : List Char × Tail} (h : scanFraction? t = some r) :
    t.offset ≤ r.2.offset ∧ (t.chars.head? = some '.' → t.offset < r.2.offset) := by
  unfold scanFraction? at h
  split at h
  case h_1 c cs hchars =>
    have hdrop : t.offset < (t.drop 1).offset :=
      Tail.offset_lt_drop Nat.one_pos (by simp [hchars])
    split at h
    · have := scanDigits?_progress h
      exact ⟨by omega, fun _ => by omega⟩
    · obtain rfl := by simpa using h
      exact ⟨Nat.le_of_lt hdrop, fun _ => hdrop⟩
  case h_2 hchars =>
    have hdrop : t.offset < (t.drop 1).offset :=
      Tail.offset_lt_drop Nat.one_pos (by simp [hchars])
    obtain rfl := by simpa using h
    exact ⟨Nat.le_of_lt hdrop, fun _ => hdrop⟩
  case h_3 hnone hlone =>
    obtain rfl := by simpa using h
    refine ⟨Nat.le_refl _, fun hpoint => ?_⟩
    cases hchars : t.chars with
    | nil => simp [hchars] at hpoint
    | cons c cs =>
        obtain rfl : c = '.' := by simpa [hchars] using hpoint
        cases cs with
        | nil => exact absurd hchars hlone
        | cons d ds => exact absurd hchars (hnone d ds)

/-- What follows the whole digits may be missing too, unless a point stands there. -/
theorem scanAfterWhole?_progress {whole : List Char} {t : Tail} {r : Lexeme × Tail}
    (h : scanAfterWhole? whole t = some r) :
    t.offset ≤ r.2.offset ∧ (t.chars.head? = some '.' → t.offset < r.2.offset) := by
  simp only [scanAfterWhole?, Option.bind_eq_bind, Option.bind_eq_some_iff] at h
  obtain ⟨⟨fraction, afterFraction⟩, hf, ⟨exponent, rest⟩, he, h⟩ := h
  obtain ⟨hle, hlt⟩ := scanFraction?_progress hf
  have hexp := scanExponent?_progress he
  dsimp only at hle hlt hexp
  split at h
  case isTrue hsame =>
    obtain rfl := by simpa using h
    refine ⟨Nat.le_refl _, fun hpoint => ?_⟩
    have hlt := hlt hpoint
    have hsame : rest.offset = t.offset := by simpa using hsame
    omega
  case isFalse =>
    obtain rfl := by simpa using h
    exact ⟨by dsimp only; omega, fun hpoint => by have := hlt hpoint; dsimp only; omega⟩

/-- To check that no name follows a number changes nothing about it. -/
theorem closed?_eq_some {r r' : Lexeme × Tail} (h : closed? r = some r') : r' = r := by
  unfold closed? at h
  split at h
  · split at h
    · cases h
    · exact (Option.some.inj h).symm
  · exact (Option.some.inj h).symm

theorem eq_some_of_bind_closed? {o : Option (Lexeme × Tail)} {r : Lexeme × Tail}
    (h : o.bind closed? = some r) : o = some r := by
  obtain ⟨r', hr', h⟩ := Option.bind_eq_some_iff.mp h
  rw [hr', closed?_eq_some h]

/-- A number with a radix has its prefix at least. -/
theorem scanRadix?_progress {radix : Nat} {t : Tail} {r : Lexeme × Tail}
    (h : scanRadix? radix t = some r) : t.offset < r.2.offset := by
  simp only [scanRadix?, Option.bind_eq_bind, Option.bind_eq_some_iff] at h
  obtain ⟨⟨row, t'⟩, hdigits, h⟩ := h
  have hd := scanDigits?_progress hdigits
  have hdrop := Tail.offset_le_drop 1 t'
  dsimp only at hd h
  split at h
  · obtain rfl := by simpa using h
    dsimp only
    omega
  · obtain rfl := by simpa using h
    exact hd

/-- A number in the old octal form has its row of digits. -/
theorem scanOldOctal?_progress {t : Tail} {r : Lexeme × Tail}
    (h : scanOldOctal? t = some r) (hrow : (t.span fun c => isDecimalDigit c || c == '_').1 ≠ []) :
    t.offset < r.2.offset := by
  have hlt := Tail.offset_lt_span hrow
  unfold scanOldOctal? at h
  generalize t.span (fun c => isDecimalDigit c || c == '_') = taken at h hlt
  obtain ⟨row, rest⟩ := taken
  dsimp only at h hlt
  split at h
  · cases h
  · split at h
    · rw [closed?_eq_some h]
      exact hlt
    · split at h
      · exact Nat.lt_of_lt_of_le hlt (scanAfterWhole?_progress h).1
      · exact Nat.lt_of_lt_of_le hlt (scanAfterWhole?_progress (eq_some_of_bind_closed? h)).1
      · rw [closed?_eq_some h]
        exact hlt

/-- Every number takes up characters. -/
theorem scanNumber?_progress {t : Tail} {r : Lexeme × Tail} (h : scanNumber? t = some r) :
    t.offset < r.2.offset := by
  unfold scanNumber? at h
  split at h
  -- a zero, a dot and a digit start a number in three ways, and each takes one character at least
  case h_1 c cs hchars =>
    have hne : t.chars ≠ [] := by simp [hchars]
    have hd1 : t.offset < (t.drop 1).offset := Tail.offset_lt_drop Nat.one_pos hne
    have hd2 : t.offset < (t.drop 2).offset := Tail.offset_lt_drop (by omega) hne
    have hradix : ∀ radix, (scanRadix? radix (t.drop 2)).bind closed? = some r →
        t.offset < r.2.offset := by
      intro radix h
      exact Nat.lt_trans hd2 (scanRadix?_progress (eq_some_of_bind_closed? h))
    split at h
    · exact hradix 16 h
    · split at h
      · exact hradix 8 h
      · split at h
        · exact hradix 2 h
        · split at h
          · exact Nat.lt_of_lt_of_le hd1 (scanAfterWhole?_progress h).1
          · -- an old octal takes the zero with its digits; what is left is that this row is not
            -- empty
            split at h
            · refine scanOldOctal?_progress h ?_
              obtain ⟨o, chars⟩ := t
              dsimp only at hchars
              subst hchars
              simp [Tail.span, Tail.spanChars, isDecimalDigit, digitValue?]
            · split at h
              · rw [closed?_eq_some h]
                exact hd2
              · exact Nat.lt_of_lt_of_le hd1
                  (scanAfterWhole?_progress (eq_some_of_bind_closed? h)).1
  case h_2 cs hchars =>
    exact (scanAfterWhole?_progress (eq_some_of_bind_closed? h)).2 (by simp [hchars])
  -- a digit other than zero: the digits take one, and what follows them takes no character back
  case h_3 =>
    simp only [Option.bind_eq_bind, Option.bind_eq_some_iff] at h
    obtain ⟨⟨row, rest⟩, hdigits, h⟩ := h
    have hd := scanDigits?_progress hdigits
    dsimp only at hd h
    split at h
    · rw [closed?_eq_some h]
      exact Nat.lt_of_lt_of_le hd (Tail.offset_le_drop 1 rest)
    · exact Nat.lt_of_lt_of_le hd (scanAfterWhole?_progress (eq_some_of_bind_closed? h)).1

-- =============================================================== tokens

/-- Every mark takes up characters. -/
theorem scanMark?_progress {t : Tail} {r : Lexeme × Tail} (h : scanMark? t = some r) :
    t.offset < r.2.offset := by
  unfold scanMark? at h
  split at h
  case h_1 c cs hchars =>
    have hne : t.chars ≠ [] := by simp [hchars]
    split at h
    · obtain rfl := by simpa using h
      exact Tail.offset_lt_drop (by omega) hne
    · obtain rfl := by simpa using h
      exact Tail.offset_lt_drop (by omega) hne
  case h_2 hchars =>
    obtain rfl := by simpa using h
    exact Tail.offset_lt_drop (by omega) (by simp [hchars])
  case h_3 =>
    obtain ⟨e, he, rfl⟩ := Option.map_eq_some_iff.mp h
    have hlen : 0 < e.1.length := by
      have hall : ∀ e ∈ Mark.spellings, 0 < e.1.length := by decide
      exact hall e (List.mem_of_find?_eq_some he)
    have hstart : (Text.dropStart? e.1 t.chars).isSome = true := by
      simpa using List.find?_some he
    refine Tail.offset_lt_drop hlen fun hempty => ?_
    rw [hempty] at hstart
    cases hspelled : e.1 with
    | nil => simp [hspelled] at hlen
    | cons c cs => simp [hspelled, Text.dropStart?] at hstart

/-- What a token is read from: nothing at the end of the text, and else some text. -/
theorem scanLexeme?_progress {t : Tail} {r : Lexeme × Tail} (h : scanLexeme? t = some r) :
    t.offset ≤ r.2.offset ∧ (r.1 ≠ .finish → t.offset < r.2.offset) := by
  unfold scanLexeme? at h
  split at h
  case h_1 =>
    obtain rfl := by simpa using h
    exact ⟨Nat.le_refl _, fun h => absurd rfl h⟩
  case h_2 c cs hchars =>
    have hlt : t.offset < r.2.offset →
        t.offset ≤ r.2.offset ∧ (r.1 ≠ .finish → t.offset < r.2.offset) :=
      fun h => ⟨Nat.le_of_lt h, fun _ => h⟩
    split at h
    · obtain ⟨r', hr', rfl⟩ := Option.map_eq_some_iff.mp h
      exact hlt (Nat.lt_of_succ_lt (scanStringBody_progress hr'))
    · split at h
      · obtain ⟨r', hr', rfl⟩ := Option.map_eq_some_iff.mp h
        exact hlt (Nat.lt_of_succ_lt (scanTemplateBody_progress hr'))
      · split at h
        · obtain ⟨r', hr', rfl⟩ := Option.map_eq_some_iff.mp h
          exact hlt (Nat.lt_of_succ_le (scanNameChars_progress hr').1)
        · split at h
          · exact hlt (scanNumber?_progress h)
          · split at h
            · obtain ⟨r', hr', rfl⟩ := Option.map_eq_some_iff.mp h
              exact hlt ((scanNameChars_progress hr').2 (.inl rfl))
            · exact hlt (scanMark?_progress h)

-- ================================================================ names

namespace Lexeme

/-- Whether a token is a numeral. -/
def isNumeral : Lexeme → Bool
  | .number _ | .bigint _ => true
  | _ => false

/-- A token that is a name is no keyword. -/
def IsProper (l : Lexeme) : Prop :=
  ∀ text escaped, l = .name text escaped → Keyword.ofText? text.toList = none

/-- A numeral is no name, so it is no keyword in place of one. -/
theorem isProper_of_isNumeral {l : Lexeme} (h : l.isNumeral = true) : l.IsProper := by
  intro text escaped hl
  subst hl
  cases h

end Lexeme

/-- What the reader makes of a word is a keyword or a name that is none. -/
theorem isProper_wordLexeme (word : List Char) (escaped : Bool) :
    (wordLexeme word escaped).IsProper := by
  intro text escaped' h
  unfold wordLexeme at h
  split at h
  · cases h
  case h_2 hnone =>
    obtain ⟨rfl, -⟩ := by simpa using h
    rw [String.toList_ofList]
    exact hnone

theorem scanAfterWhole?_isNumeral {whole : List Char} {t : Tail} {r : Lexeme × Tail}
    (h : scanAfterWhole? whole t = some r) : r.1.isNumeral = true := by
  simp only [scanAfterWhole?, Option.bind_eq_bind, Option.bind_eq_some_iff] at h
  obtain ⟨_, _, _, _, h⟩ := h
  split at h
  · obtain rfl := by simpa using h
    rfl
  · obtain rfl := by simpa using h
    rfl

theorem scanRadix?_isNumeral {radix : Nat} {t : Tail} {r : Lexeme × Tail}
    (h : scanRadix? radix t = some r) : r.1.isNumeral = true := by
  simp only [scanRadix?, Option.bind_eq_bind, Option.bind_eq_some_iff] at h
  obtain ⟨⟨row, t'⟩, -, h⟩ := h
  dsimp only at h
  split at h
  · obtain rfl := by simpa using h
    rfl
  · obtain rfl := by simpa using h
    rfl

theorem scanOldOctal?_isNumeral {t : Tail} {r : Lexeme × Tail} (h : scanOldOctal? t = some r) :
    r.1.isNumeral = true := by
  unfold scanOldOctal? at h
  dsimp only at h
  split at h
  · cases h
  · split at h
    · rw [closed?_eq_some h]
      rfl
    · split at h
      · exact scanAfterWhole?_isNumeral h
      · exact scanAfterWhole?_isNumeral (eq_some_of_bind_closed? h)
      · rw [closed?_eq_some h]
        rfl

/-- What the number reader returns is a numeral. -/
theorem scanNumber?_isNumeral {t : Tail} {r : Lexeme × Tail} (h : scanNumber? t = some r) :
    r.1.isNumeral = true := by
  unfold scanNumber? at h
  split at h
  case h_1 c cs hchars =>
    split at h
    · exact scanRadix?_isNumeral (eq_some_of_bind_closed? h)
    · split at h
      · exact scanRadix?_isNumeral (eq_some_of_bind_closed? h)
      · split at h
        · exact scanRadix?_isNumeral (eq_some_of_bind_closed? h)
        · split at h
          · exact scanAfterWhole?_isNumeral h
          · split at h
            · exact scanOldOctal?_isNumeral h
            · split at h
              · rw [closed?_eq_some h]
                rfl
              · exact scanAfterWhole?_isNumeral (eq_some_of_bind_closed? h)
  case h_2 => exact scanAfterWhole?_isNumeral (eq_some_of_bind_closed? h)
  case h_3 =>
    simp only [Option.bind_eq_bind, Option.bind_eq_some_iff] at h
    obtain ⟨⟨row, rest⟩, -, h⟩ := h
    dsimp only at h
    split at h
    · rw [closed?_eq_some h]
      rfl
    · exact scanAfterWhole?_isNumeral (eq_some_of_bind_closed? h)

/-- A mark is no name. -/
theorem scanMark?_isProper {t : Tail} {r : Lexeme × Tail} (h : scanMark? t = some r) :
    r.1.IsProper := by
  intro text escaped hr
  unfold scanMark? at h
  split at h
  · split at h
    · obtain rfl := by simpa using h
      cases hr
    · obtain rfl := by simpa using h
      cases hr
  · obtain rfl := by simpa using h
    cases hr
  · obtain ⟨e, -, rfl⟩ := Option.map_eq_some_iff.mp h
    cases hr

/-- No token that the reader returns as a name is a keyword. -/
theorem scanLexeme?_isProper {t : Tail} {r : Lexeme × Tail} (h : scanLexeme? t = some r) :
    r.1.IsProper := by
  unfold scanLexeme? at h
  split at h
  · obtain rfl := by simpa using h
    exact fun _ _ h => by cases h
  · split at h
    · obtain ⟨r', -, rfl⟩ := Option.map_eq_some_iff.mp h
      exact fun _ _ h => by cases h
    · split at h
      · obtain ⟨r', -, rfl⟩ := Option.map_eq_some_iff.mp h
        exact fun _ _ h => by cases h
      · split at h
        · obtain ⟨r', -, rfl⟩ := Option.map_eq_some_iff.mp h
          exact fun _ _ h => by cases h
        · split at h
          · exact Lexeme.isProper_of_isNumeral (scanNumber?_isNumeral h)
          · split at h
            · obtain ⟨r', -, rfl⟩ := Option.map_eq_some_iff.mp h
              exact isProper_wordLexeme r'.1 r'.2.1
            · exact scanMark?_isProper h

-- =============================================================== cursors

namespace Cursor

/-- What has been read, the token shown and what follows it stand in this order. -/
structure Sound (c : Cursor) : Prop where
  gap : c.previousStop ≤ c.here.offset
  token : c.here.offset ≤ c.after.offset
  progress : c.lexeme ≠ .finish → c.here.offset < c.after.offset
  proper : c.lexeme.IsProper

/-- The cursor has gone on from `c` over at least one token. -/
structure Beyond (c c' : Cursor) : Prop where
  sound : c'.Sound
  past : c.here.offset < c'.previousStop

/-- The cursor has not gone back from `c`. -/
structure Onward (c c' : Cursor) : Prop where
  sound : c'.Sound
  here : c.here.offset ≤ c'.here.offset
  past : c.previousStop ≤ c'.previousStop

theorem Sound.onward {c : Cursor} (h : c.Sound) : c.Onward c :=
  ⟨h, Nat.le_refl _, Nat.le_refl _⟩

/-- What has gone on has not gone back. -/
theorem Beyond.onward {c c' : Cursor} (h : c.Beyond c') (hc : c.Sound) : c.Onward c' := by
  have h₁ := h.sound.gap
  have h₂ := h.past
  have h₃ := hc.gap
  exact ⟨h.sound, by omega, by omega⟩

theorem Onward.trans {a b c : Cursor} (hab : a.Onward b) (hbc : b.Onward c) : a.Onward c :=
  ⟨hbc.sound, Nat.le_trans hab.here hbc.here, Nat.le_trans hab.past hbc.past⟩

theorem Onward.beyond {a b c : Cursor} (hab : a.Onward b) (hbc : b.Beyond c) : a.Beyond c :=
  ⟨hbc.sound, Nat.lt_of_le_of_lt hab.here hbc.past⟩

theorem Beyond.then {a b c : Cursor} (hab : a.Beyond b) (hbc : b.Onward c) : a.Beyond c :=
  ⟨hbc.sound, Nat.lt_of_lt_of_le hab.past hbc.past⟩

/-- A cursor stands behind the gap, and the token before it ends where the gap begins. -/
theorem readFrom?_sound {t : Tail} {afterOpener isStart : Bool} {comments : List FiledComment}
    {looseSpreads : List Nat} {c : Cursor}
    (h : readFrom? t afterOpener isStart comments looseSpreads = some c) :
    c.Sound ∧ c.previousStop = t.offset := by
  simp only [readFrom?, Option.bind_eq_bind, Option.bind_eq_some_iff] at h
  obtain ⟨⟨gap, here⟩, hgap, ⟨lexeme, after⟩, hlexeme, h⟩ := h
  obtain ⟨hle, hlt⟩ := scanLexeme?_progress hlexeme
  obtain rfl := by simpa using h
  exact ⟨⟨scanGap_progress hgap, hle, hlt, scanLexeme?_isProper hlexeme⟩, rfl⟩

/-- The next token is beyond the shown one. -/
theorem advance?_beyond {c c' : Cursor} (hc : c.Sound) (hl : c.lexeme ≠ .finish)
    (h : c.advance? = some c') : c.Beyond c' := by
  obtain ⟨hsound, hpast⟩ := readFrom?_sound h
  exact ⟨hsound, hpast ▸ hc.progress hl⟩

/-- To read the token as a regular expression moves its end only. -/
theorem asRegex?_onward {c c' : Cursor} (hc : c.Sound) (h : c.asRegex? = some c') :
    c.Onward c' ∧ c'.here = c.here ∧ c'.lexeme ≠ .finish := by
  simp only [asRegex?, Option.bind_eq_bind, Option.bind_eq_some_iff] at h
  obtain ⟨⟨pattern, t⟩, hbody, h⟩ := h
  have hstart := Tail.offset_le_drop 1 c.here
  have hprogress := scanRegexBody_progress hbody
  have hflags := Tail.offset_le_span Text.isIdentifierPart t
  dsimp only at h hprogress
  split at h
  · obtain rfl := by simpa using h
    refine ⟨⟨⟨hc.gap, ?_, fun _ => ?_, fun _ _ h => by cases h⟩, Nat.le_refl _, Nat.le_refl _⟩,
      rfl, fun h => by cases h⟩
    · dsimp only
      omega
    · dsimp only
      omega
  · cases h

/-- To read the token as a template moves its end only. -/
theorem asTemplate?_onward {c c' : Cursor} (hc : c.Sound) (h : c.asTemplate? = some c') :
    c.Onward c' := by
  simp only [asTemplate?, Option.bind_eq_bind, Option.bind_eq_some_iff] at h
  obtain ⟨⟨raw, isLast, t⟩, hbody, h⟩ := h
  have hstart := Tail.offset_le_drop 1 c.here
  have hprogress := scanTemplateBody_progress hbody
  dsimp only at hprogress
  obtain rfl := by simpa using h
  refine ⟨⟨hc.gap, ?_, fun _ => ?_, fun _ _ h => by cases h⟩, Nat.le_refl _, Nat.le_refl _⟩
  · dsimp only
    omega
  · dsimp only
    omega

end Cursor

end Graft
