import Graft.Token.Comment
import Mathlib.Data.List.Chain
/-!
Texts that are nothing but gap.

The reader of a gap passes over white space and over comments. `PassesOver` says of a text that the
reader, between two tokens, comes out behind it between two tokens again, whatever has come before
and whatever follows; such texts can be put together (`PassesOver.append`). White space is one
(`passesOver_blanks`), and so is a block comment, which ends at its first asterisk with a slash
behind it. Where that is its end, the text is `Unclosed` up to there, and the comment is read as one
(`scanGap_comment`).
-/
namespace Graft

-- ======================================================== closing a comment

/-- A text in which no comment ends: no asterisk has a slash right behind it. -/
def Unclosed (text : List Char) : Prop := text.IsChain fun c d => ¬(c = '*' ∧ d = '/')

instance (text : List Char) : Decidable (Unclosed text) :=
  inferInstanceAs (Decidable (List.IsChain _ text))

/-- A text closes no comment just when the closing mark stands nowhere in it. -/
theorem unclosed_iff {text : List Char} :
    Unclosed text ↔ ∀ before after, text ≠ before ++ '*' :: '/' :: after := by
  rw [Unclosed, List.isChain_iff_forall_rel_of_append_cons_cons]
  constructor
  · intro h before after heq
    exact h heq ⟨rfl, rfl⟩
  · rintro h c d before after heq ⟨rfl, rfl⟩
    exact h before after heq

/-- Two texts next to each other close a comment in one of them or where they meet. -/
theorem unclosed_append {text more : List Char} :
    Unclosed (text ++ more) ↔ Unclosed text ∧ Unclosed more
      ∧ (text.getLast? = some '*' → more.head? ≠ some '/') := by
  rw [Unclosed, List.isChain_append]
  refine and_congr Iff.rfl (and_congr Iff.rfl ?_)
  constructor
  · intro h hlast hhead
    exact h '*' hlast '/' hhead ⟨rfl, rfl⟩
  · rintro h c hc d hd ⟨rfl, rfl⟩
    exact h hc hd

/-- What stands before a text closes no comment with it unless it is an asterisk. -/
theorem unclosed_cons {c : Char} {text : List Char} (hc : c ≠ '*') :
    Unclosed (c :: text) ↔ Unclosed text := by
  rw [Unclosed, List.isChain_cons]
  exact and_iff_right fun _ _ h => hc h.1

/-- A text without asterisks closes nothing. -/
theorem unclosed_of_no_star {text : List Char} (h : '*' ∉ text) : Unclosed text := by
  rw [unclosed_iff]
  rintro before after rfl
  simp at h

-- ========================================================= block comments

/-- The number of bytes that a text takes up. -/
def byteLength : List Char → Nat
  | [] => 0
  | c :: text => c.utf8Size + byteLength text

@[simp] theorem byteLength_nil : byteLength [] = 0 := rfl

@[simp] theorem byteLength_cons (c : Char) (text : List Char) :
    byteLength (c :: text) = c.utf8Size + byteLength text := rfl

@[simp] theorem byteLength_append (text more : List Char) :
    byteLength (text ++ more) = byteLength text + byteLength more := by
  induction text with
  | nil => simp
  | cons c text ih => simp [ih, Nat.add_assoc]

/-- Inside of a block comment the reader goes on to the first asterisk with a slash behind it.
`star` says that an asterisk has just been read, so the text must not start with a slash. -/
theorem scanGap_block {body : List Char} (hbody : Unclosed (body ++ ['*'])) {star : Bool}
    (hstart : star = true → body.head? ≠ some '/') (g : Gap) (held : List Char) (o : Nat)
    (rest : List Char) :
    scanGap (.block held star) g o (body ++ '*' :: '/' :: rest)
      = scanGap .between (g.addComment true (held.reverse ++ (body ++ ['*', '/'])))
          (o + byteLength (body ++ ['*', '/'])) rest := by
  induction body generalizing held star o with
  | nil =>
      simp [scanGap, Nat.add_assoc]
  | cons c body ih =>
      have hopen : (star && c == '/') = false := by
        by_cases hslash : c = '/'
        · cases star with
          | false => rfl
          | true => exact absurd (by rw [hslash]; rfl) (hstart rfl)
        · simp [hslash]
      rw [List.cons_append, Unclosed, List.isChain_cons] at hbody
      have hnext : (c == '*') = true → body.head? ≠ some '/' := by
        intro hstar hhead
        refine hbody.1 '/' ?_ ⟨beq_iff_eq.mp hstar, rfl⟩
        simp [List.head?_append, hhead]
      rw [List.cons_append, scanGap, if_neg (by simp [hopen]), ih hbody.2 hnext]
      simp [Nat.add_assoc]

/-- A block comment is read as one comment, whatever follows it. -/
theorem scanGap_comment {body : List Char} (hbody : Unclosed (body ++ ['*'])) (g : Gap) (o : Nat)
    (rest : List Char) :
    scanGap .between g o ('/' :: '*' :: (body ++ '*' :: '/' :: rest))
      = scanGap .between (g.addComment true ('/' :: '*' :: (body ++ ['*', '/'])))
          (o + byteLength ('/' :: '*' :: (body ++ ['*', '/']))) rest := by
  have hstart : scanGap .between g o ('/' :: '*' :: (body ++ '*' :: '/' :: rest))
      = scanGap (.block ['*', '/'] false) g (o + '/'.utf8Size + '*'.utf8Size)
          (body ++ '*' :: '/' :: rest) := rfl
  have hfree : false = true → body.head? ≠ some '/' := nofun
  rw [hstart, scanGap_block hbody hfree]
  simp [Nat.add_assoc]

-- ============================================================ passing over

/-- Whether the reader of a gap passes over a text, whatever has come before and whatever
follows. -/
def PassesOver (text : List Char) : Prop :=
  ∀ g o rest, ∃ g', scanGap .between g o (text ++ rest)
    = scanGap .between g' (o + byteLength text) rest

theorem passesOver_nil : PassesOver [] := fun g _ _ => ⟨g, rfl⟩

/-- Two texts that are passed over make one. -/
theorem PassesOver.append {text more : List Char} (h : PassesOver text) (h' : PassesOver more) :
    PassesOver (text ++ more) := by
  intro g o rest
  obtain ⟨g', hg'⟩ := h g o (more ++ rest)
  obtain ⟨g'', hg''⟩ := h' g' (o + byteLength text) rest
  exact ⟨g'', by rw [List.append_assoc, hg', hg'', byteLength_append, Nat.add_assoc]⟩

/-- Blank characters are passed over. -/
theorem passesOver_blanks {text : List Char} (h : ∀ c ∈ text, Text.isBlank c = true) :
    PassesOver text := by
  induction text with
  | nil => exact passesOver_nil
  | cons c text ih =>
      intro g o rest
      have hc : isInlineSpace c = true ∨ isLineEnd c = true := by
        by_cases hend : isLineEnd c = true
        · exact .inr hend
        · refine .inl ?_
          simp [isInlineSpace, h c List.mem_cons_self, hend]
      have htext := ih fun d hd => h d (List.mem_cons_of_mem _ hd)
      rw [List.cons_append, scanGap, byteLength_cons, ← Nat.add_assoc]
      by_cases hinline : isInlineSpace c = true
      · rw [if_pos hinline]
        exact htext g _ rest
      · rw [if_neg hinline, if_pos (hc.resolve_left hinline)]
        exact htext (g.lineBreak c) _ rest

/-- So is a block comment, up to its own closing mark. -/
theorem passesOver_comment {body : List Char} (h : Unclosed (body ++ ['*'])) :
    PassesOver ('/' :: '*' :: (body ++ ['*', '/'])) := by
  intro g o rest
  refine ⟨g.addComment true ('/' :: '*' :: (body ++ ['*', '/'])), ?_⟩
  rw [← scanGap_comment h]
  simp

end Graft
