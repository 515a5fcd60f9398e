import Graft.Proofs.Token.Progress
import Graft.Text.Identifier
/-!
Texts that are read as a known row of tokens.

A cursor shows a row of tokens if it shows the first one, and the cursors after it show the others,
all on one line and without comments (`Cursor.Shows`). A text spells a row if the cursor at its
start shows it, wherever that start is (`Spells`). A text that starts with a token, perhaps after
one space, and goes on as such a row spells the longer row (`spells_cons`, `spells_space`). Plain
names (`scanLexeme?_word`) and most marks are read as what they are, whatever follows them.
-/
namespace Graft

open Text

-- ============================================================ plain characters

namespace Text

/-- A character that a plain identifier starts with. -/
def isPlainStart (c : Char) : Bool := isAsciiLetter c.toNat || c == '$' || c == '_'

/-- A character that a plain identifier goes on with. -/
def isPlainPart (c : Char) : Bool := isPlainStart c || isAsciiDigit c.toNat

/-- A plain identifier has a first character, and all after it may stand in a name. -/
theorem exists_of_isPlainIdentifier {name : String} (h : isPlainIdentifier name = true) :
    ∃ c cs, name.toList = c :: cs ∧ isPlainStart c = true ∧ cs.all isPlainPart = true := by
  unfold isPlainIdentifier at h
  split at h
  case h_1 => cases h
  case h_2 c cs heq =>
    obtain ⟨hstart, hparts⟩ := Bool.and_eq_true_iff.mp h
    exact ⟨c, cs, heq, hstart, hparts⟩

/-- What holds of all characters of ASCII. -/
theorem of_toNat_lt {P : Char → Bool} (h : ∀ n < 128, P (Char.ofNat n) = true) {c : Char}
    (hc : c.toNat < 128) : P c = true := by
  have := h c.toNat hc
  rwa [Char.ofNat_toNat] at this

/-- A plain name is ASCII. -/
theorem toNat_lt_of_isPlainPart {c : Char} (h : isPlainPart c = true) : c.toNat < 128 := by
  simp only [isPlainPart, isPlainStart, isAsciiLetter, isAsciiDigit, Bool.or_eq_true,
    Bool.and_eq_true, decide_eq_true_eq, beq_iff_eq] at h
  rcases h with ((h | rfl) | rfl) | h
  · omega
  · decide
  · decide
  · omega

/-- What may start a plain name may stand inside of one. -/
theorem isPlainPart_of_isPlainStart {c : Char} (h : isPlainStart c = true) :
    isPlainPart c = true := by
  rw [isPlainPart, h]
  rfl

end Text

/-- A character that no gap between tokens holds. -/
def isSolid (c : Char) : Bool :=
  !isInlineSpace c && !isLineEnd c && c != '/' && c != '<' && c != '-'

/-- What the reader of tokens asks about a character that a plain identifier starts with. -/
structure StartsWord (c : Char) : Prop where
  solid : isSolid c = true
  quote : (c == '"' || c == '\x27') = false
  backtick : (c == '\x60') = false
  hash : (c == '#') = false
  dot : (c == '.') = false
  digit : isDecimalDigit c = false
  start : isIdentifierStart c = true

/-- What starts a plain name starts nothing but a word. -/
theorem startsWord {c : Char} (h : isPlainStart c = true) : StartsWord c := by
  have hall := of_toNat_lt (P := fun c => !isPlainStart c || (isSolid c
      && !(c == '"' || c == '\x27') && !(c == '\x60') && !(c == '#') && !(c == '.')
      && !isDecimalDigit c && isIdentifierStart c)) (by decide +kernel)
    (toNat_lt_of_isPlainPart (isPlainPart_of_isPlainStart h))
  simp only [h, Bool.not_true, Bool.false_or, Bool.and_eq_true, Bool.not_eq_true'] at hall
  obtain ⟨⟨⟨⟨⟨⟨hsolid, hquote⟩, hbacktick⟩, hhash⟩, hdot⟩, hdigit⟩, hstart⟩ := hall
  exact ⟨hsolid, hquote, hbacktick, hhash, hdot, hdigit, hstart⟩

/-- A character of a plain identifier is one of a name. -/
theorem nameChar?_of_isPlainPart {c : Char} (h : isPlainPart c = true) :
    (c == '\\') = false ∧ nameChar? false c.toNat = some c := by
  have hall := of_toNat_lt (P := fun c => !isPlainPart c
      || (!(c == '\\') && nameChar? false c.toNat == some c)) (by decide +kernel)
    (toNat_lt_of_isPlainPart h)
  simpa [h] using hall

/-- The reader takes the first character of a plain name for what it is. -/
theorem nameChar?_of_isPlainStart {c : Char} (h : isPlainStart c = true) :
    nameChar? true c.toNat = some c := by
  have hall := of_toNat_lt (P := fun c => !isPlainStart c || nameChar? true c.toNat == some c)
    (by decide +kernel) (toNat_lt_of_isPlainPart (isPlainPart_of_isPlainStart h))
  simpa [h] using hall

-- ============================================================ words

/-- A character that a name does not go on with. -/
def endsName (c : Char) : Bool := c != '\\' && (nameChar? false c.toNat).isNone

/-- The reader of a name goes on to the first character that ends it. -/
theorem scanNameChars_rest {cs : List Char} {d : Char} (hcs : cs.all isPlainPart = true)
    (hd : endsName d = true) (rest : List Char) (o : Nat) :
    ∃ o', scanNameChars .plain false o (cs ++ d :: rest) = some (cs, false, ⟨o', d :: rest⟩) := by
  induction cs generalizing o with
  | nil =>
      obtain ⟨hslash, hnone⟩ := Bool.and_eq_true_iff.mp hd
      refine ⟨o, ?_⟩
      rw [List.nil_append, scanNameChars.eq_def]
      dsimp only
      rw [if_neg (by simpa using hslash), Option.isNone_iff_eq_none.mp hnone]
      rfl
  | cons c cs ih =>
      obtain ⟨hc, hcs⟩ := List.all_cons ▸ hcs |> Bool.and_eq_true_iff.mp
      obtain ⟨hslash, hname⟩ := nameChar?_of_isPlainPart hc
      obtain ⟨o', ho'⟩ := ih hcs (o + c.utf8Size)
      refine ⟨o', ?_⟩
      rw [List.cons_append, scanNameChars.eq_def]
      dsimp only
      rw [if_neg (by simp [hslash]), hname, ho']
      rfl

/-- A plain identifier is read as the word that it is. -/
theorem scanLexeme?_word {name : String} {d : Char} (hname : isPlainIdentifier name = true)
    (hd : endsName d = true) (rest : List Char) (o : Nat) :
    ∃ o', scanLexeme? ⟨o, name.toList ++ d :: rest⟩
      = some (wordLexeme name.toList false, ⟨o', d :: rest⟩) := by
  obtain ⟨c, cs, heq, hc, hcs⟩ := exists_of_isPlainIdentifier hname
  have hword := startsWord hc
  obtain ⟨o', ho'⟩ := scanNameChars_rest hcs hd rest (o + c.utf8Size)
  refine ⟨o', ?_⟩
  have hscan : scanNameChars .plain true o (c :: (cs ++ d :: rest))
      = some (c :: cs, false, ⟨o', d :: rest⟩) := by
    rw [scanNameChars.eq_def]
    dsimp only
    rw [if_neg (by simp [(nameChar?_of_isPlainPart (isPlainPart_of_isPlainStart hc)).1]),
      nameChar?_of_isPlainStart hc, ho']
    rfl
  rw [heq, List.cons_append, scanLexeme?]
  dsimp only
  rw [hword.quote, hword.backtick, hword.hash, hword.digit, hword.dot, hword.start, hscan]
  rfl

-- ============================================================ rows

namespace Cursor

/-- Whether nothing is said about the shown token, and no literal has come before it that may not be
assigned to. -/
structure Bare (c : Cursor) : Prop where
  isPure : c.isPure = false
  isInert : c.isInert = false
  looseSpreads : c.looseSpreads = []

/-- Whether a cursor and those after it show some tokens, all but the first one on the line of the
token before, and then the end of the text. -/
def Shows (c : Cursor) : List Lexeme → Prop
  | [] => c.lexeme = .finish
  | l :: ls => c.lexeme = l ∧ c.Bare ∧ ∃ c', c.advance? = some c' ∧ c'.newline = false ∧ c'.Shows ls

/-- The cursor shows the first token of the row. -/
theorem Shows.lexeme_eq {c : Cursor} {l : Lexeme} {ls : List Lexeme} (h : c.Shows (l :: ls)) :
    c.lexeme = l := h.1

theorem Shows.bare {c : Cursor} {l : Lexeme} {ls : List Lexeme} (h : c.Shows (l :: ls)) :
    c.Bare := h.2.1

/-- Where the token before ended plays no part in what a cursor shows. -/
theorem Shows.withStop {c : Cursor} {ls : List Lexeme} (h : c.Shows ls) (stop : Nat) :
    Shows { c with previousStop := stop } ls := by
  cases ls with
  | nil => exact h
  | cons l ls => exact ⟨h.1, ⟨h.bare.isPure, h.bare.isInert, h.bare.looseSpreads⟩, h.2.2⟩

end Cursor

/-- Whether a text is read as a row of tokens. -/
def Spells (chars : List Char) (ls : List Lexeme) : Prop :=
  ∀ o afterOpener isStart comments, ∃ c,
    Cursor.readFrom? ⟨o, chars⟩ afterOpener isStart comments [] = some c
      ∧ c.newline = isStart ∧ c.Shows ls

theorem spells_nil : Spells [] [] := fun _ _ _ _ => ⟨_, rfl, rfl, rfl⟩

/-- A text whose first token is known, and that goes on as a row. -/
theorem spells_cons {c : Char} {cs rest : List Char} {l : Lexeme} {ls : List Lexeme}
    (hc : isSolid c = true)
    (hscan : ∀ o, ∃ o', scanLexeme? ⟨o, c :: cs⟩ = some (l, ⟨o', rest⟩)) (h : Spells rest ls) :
    Spells (c :: cs) (l :: ls) := by
  intro o afterOpener isStart comments
  obtain ⟨o', ho'⟩ := hscan o
  have hgap : ∀ g, scanGap .between g o (c :: cs) = some (g, ⟨o, c :: cs⟩) := by
    intro g
    simp only [isSolid, Bool.and_eq_true, Bool.not_eq_true', bne_iff_ne] at hc
    obtain ⟨⟨⟨⟨hinline, hend⟩, hslash⟩, hless⟩, hminus⟩ := hc
    rw [scanGap.eq_def]
    simp [hinline, hend, startsLineComment, hslash, hless, hminus]
  obtain ⟨c', hc', hline, hshows⟩ := h o' (l == .mark (.assign .plain) || l == .mark .openParen)
    false comments
  refine ⟨⟨l, ⟨o, c :: cs⟩, ⟨o', rest⟩, isStart, o, false, false, comments, []⟩, ?_, rfl, rfl,
    ⟨rfl, rfl, rfl⟩, c', hc', hline, hshows⟩
  simp only [Cursor.readFrom?, hgap, ho', bind, Option.bind]
  rfl

/-- A space before a row of tokens does nothing. -/
theorem spells_space {cs : List Char} {ls : List Lexeme} (h : Spells cs ls) :
    Spells (' ' :: cs) ls := by
  intro o afterOpener isStart comments
  obtain ⟨c, hc, hline, hshows⟩ := h (o + ' '.utf8Size) afterOpener isStart comments
  refine ⟨{ c with previousStop := o }, ?_, hline, hshows.withStop o⟩
  have hstop : Cursor.readFrom? ⟨o, ' ' :: cs⟩ afterOpener isStart comments []
      = (Cursor.readFrom? ⟨o + ' '.utf8Size, cs⟩ afterOpener isStart comments []).map
        fun c => { c with previousStop := o } := by
    have hgap : ∀ g, scanGap .between g o (' ' :: cs)
        = scanGap .between g (o + ' '.utf8Size) cs := fun g => by
      rw [scanGap.eq_def]
      rfl
    simp only [Cursor.readFrom?, hgap]
    cases scanGap .between ⟨[], afterOpener, isStart, isStart, false, false⟩ (o + ' '.utf8Size) cs
      with
    | none => rfl
    | some gap =>
        obtain ⟨gap, here⟩ := gap
        dsimp only [bind, Option.bind]
        cases scanLexeme? here with
        | none => rfl
        | some _ => rfl
  rw [hstop, hc]
  rfl

/-- A plain identifier before a row of tokens, of which the first one cannot be part of a name. -/
theorem spells_word {name : String} {rest : List Char} {d : Char} {ls : List Lexeme}
    (hname : isPlainIdentifier name = true) (hd : endsName d = true) (h : Spells (d :: rest) ls) :
    Spells (name.toList ++ d :: rest) (wordLexeme name.toList false :: ls) := by
  obtain ⟨c, cs, heq, hc, -⟩ := exists_of_isPlainIdentifier hname
  have hscan := fun o => scanLexeme?_word hname hd rest o
  rw [heq] at hscan ⊢
  exact spells_cons (startsWord hc).solid hscan h

end Graft
