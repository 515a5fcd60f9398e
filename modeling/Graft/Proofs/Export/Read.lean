import Graft.Proofs.Export.Shape
import Graft.Proofs.Grammar.Apply
import Graft.Proofs.Token.Row
/-!
How the statement that exports a plugin is read.

Its text is a row of nine tokens (`ExportConvention.spells_statement`), whatever plain names it is
made of, so the grammar can be evaluated on it: every reader is asked what it gives at a row of
known tokens, from the arrow function at the end to the whole program.

Whether the row is a statement depends on which of the names are keywords:

- the container must be a name, or a keyword for a value with accesses;
- the accessor must be a name, or a keyword for a value;
- the property may be any word.

Then the tree is the expected one (`ExportConvention.exists_tree`); otherwise there is none
(`ExportConvention.tree?_eq_none`). The levels of the grammar are no matter: each reader is
evaluated with more levels than the row needs.
-/
namespace Graft

open Text

-- ============================================================ tokens

/-- A point before a plain identifier is a mark of its own. -/
theorem scanLexeme?_dot {name : String} {rest : List Char} (hname : isPlainIdentifier name = true)
    (o : Nat) :
    ∃ o', scanLexeme? ⟨o, '.' :: (name.toList ++ rest)⟩
      = some (.mark .dot, ⟨o', name.toList ++ rest⟩) := by
  obtain ⟨c, cs, heq, hc, -⟩ := exists_of_isPlainIdentifier hname
  have hdot : '.' ≠ c := fun h => absurd (startsWord hc).dot (by simp [← h])
  refine ⟨o + '.'.utf8Size, ?_⟩
  rw [heq, List.cons_append, scanLexeme?]
  have hmark : scanMark? ⟨o, '.' :: c :: (cs ++ rest)⟩
      = some (.mark .dot, ⟨o + '.'.utf8Size, c :: (cs ++ rest)⟩) := by
    simp [scanMark?, Mark.spellings, dropStart?, hdot]
    rfl
  have hother : ('.' == '"' || '.' == '\x27') = false ∧ ('.' == '\x60') = false
      ∧ ('.' == '#') = false ∧ isDecimalDigit '.' = false
      ∧ (isIdentifierStart '.' || '.' == '\\') = false := by decide
  simp only [hother, List.head?_cons, Option.any_some, (startsWord hc).digit, hmark,
    Bool.and_false, Bool.or_false, Bool.false_eq_true, if_false]

namespace ExportConvention

variable {e : ExportConvention}

/-- The tokens of the statement that exports a plugin. -/
def lexemes (e : ExportConvention) : List Lexeme :=
  [wordLexeme e.container.toList false, .mark .dot, wordLexeme e.property.toList false,
    .mark (.assign .plain), .mark .openParen, .mark .closeParen, .mark .arrow,
    wordLexeme e.accessor.toList false, .mark .semicolon]

/-- Whether all names of a convention are plain identifiers. -/
structure IsPlain (e : ExportConvention) : Prop where
  container : isPlainIdentifier e.container = true
  property : isPlainIdentifier e.property = true
  accessor : isPlainIdentifier e.accessor = true

/-- The text of a plain statement spells its row of tokens. -/
theorem spells_statement (h : e.IsPlain) : Spells e.statement.toList e.lexemes := by
  have hchars : e.statement.toList = e.container.toList ++ '.' :: (e.property.toList
      ++ ' ' :: '=' :: ' ' :: '(' :: ')' :: ' ' :: '=' :: '>' :: ' '
        :: (e.accessor.toList ++ [';'])) := by
    simp [statement, String.toList_append]
  have hend : Spells [';'] [.mark .semicolon] :=
    spells_cons (by decide) (fun o => ⟨o + 1, rfl⟩) spells_nil
  have hvalue := spells_space (spells_word h.accessor (by decide) hend)
  have harrow : Spells ('=' :: '>' :: ' ' :: (e.accessor.toList ++ [';']))
      (.mark .arrow :: _) :=
    spells_cons (by decide) (fun o => ⟨o + 2, rfl⟩) hvalue
  have hclose := spells_cons (c := ')') (l := .mark .closeParen) (by decide)
    (fun o => ⟨o + 1, rfl⟩) (spells_space harrow)
  have hopen := spells_cons (c := '(') (l := .mark .openParen) (by decide)
    (fun o => ⟨o + 1, rfl⟩) hclose
  have hassign : Spells ('=' :: ' ' :: '(' :: _) (.mark (.assign .plain) :: _) :=
    spells_cons (by decide) (fun o => ⟨o + 1, rfl⟩) (spells_space hopen)
  rw [hchars]
  exact spells_word h.container (by decide) (spells_cons (by decide)
    (scanLexeme?_dot h.property) (spells_word h.property (by decide) (spells_space hassign)))

end ExportConvention

-- ============================================================ values

namespace Parse

open Node

variable {c : Cursor} {s : Setting} {l : Lexeme} {held given : Form} {n : Nat}

/-- The arrow function that gives the value of a form. -/
def arrowTree (given : Form) : Node :=
  made (.arrow false true false false)
    [made .parameters [],
      made .functionBody [made .expressionStatement [made given []]]]

/-- The tokens of an arrow function without parameters, at the end of a statement. -/
def arrowRow (l : Lexeme) : List Lexeme :=
  [.mark .openParen, .mark .closeParen, .mark .arrow, l, .mark .semicolon]

/-- The value that is assigned is read as the arrow function that it is. -/
theorem assignment_arrowRow (h : c.Shows (arrowRow l))
    (hs : s.inGenerator = false ∧ s.inAsync = false) (hl : l.atom? = some given) :
    ∃ v c', (Rules.level (n + 6)).assignment s c = some (v, c') ∧ v.unplaced = arrowTree given
      ∧ c'.Shows [.mark .semicolon] := by
  obtain ⟨hc, hbare, c₁, h₁, -, hc₁, -, c₂, h₂, hline, hc₂, -, c₃, h₃, -, hc₃, hbare₃, c₄, h₄, -,
    hend⟩ := h
  subst hc₃
  have hvalue := level_assignment_word (s := { allowsIn := s.allowsIn, allowsReturn := true })
    (n := n) hl hbare₃ ⟨rfl, rfl⟩ h₄ hend.lexeme_eq
  have hbrace : c₃.lexeme ≠ .mark .openBrace := fun heq => by simp [heq, Lexeme.atom?] at hl
  have hwhole := assignment_arrow (r := { Rules.level (n + 5) with fuel := n + 6 }) rfl hs.1 hc h₁
    hc₁ h₂ hc₂ hline h₃ hbrace
  rw [hvalue, hbare.isInert, Option.map_some] at hwhole
  refine ⟨_, c₄, hwhole, ?_, hend⟩
  simp only [unplaced_node, List.map_cons, List.map_nil]
  rfl

/-- The value is not read if the name that it gives is no value. -/
theorem assignment_arrowRow_eq_none (h : c.Shows (arrowRow l))
    (hs : s.inGenerator = false ∧ s.inAsync = false) {w : Keyword} {text : String}
    (hl : l = .keyword w text false) (hnone : l.atom? = none) :
    (Rules.level (n + 7)).assignment s c = none := by
  obtain ⟨hc, hbare, c₁, h₁, -, hc₁, -, c₂, h₂, hline, hc₂, -, c₃, h₃, -, hc₃, -, c₄, h₄, -,
    hend⟩ := h
  rw [← hc₃] at hl hnone
  have hvalue := level_assignment_keyword (s := { allowsIn := s.allowsIn, allowsReturn := true })
    (n := n) hl h₄ hend.lexeme_eq rfl ⟨rfl, rfl⟩ hnone (fun h => by cases h)
  have hbrace : c₃.lexeme ≠ .mark .openBrace := fun heq => by simp [heq] at hl
  rw [level_assignment, assignment_arrow rfl hs.1 hc h₁ hc₁ h₂ hc₂ hline h₃ hbrace]
  show Option.map _ ((Rules.level (n + 6)).assignment _ c₃) = _
  rw [hvalue, Option.map_none]

/-- The tokens of the assignment of an arrow function to a property of a value. -/
def slotRow (container property accessor : Lexeme) : List Lexeme :=
  container :: .mark .dot :: property :: .mark (.assign .plain) :: arrowRow accessor

/-- An access by name may be assigned to. -/
theorem asTarget?_member (loose : List Nat) (name : String) (held : Form) (own inner : Span) :
    (Node.node (.member false name) own [.node held inner []]).asTarget? loose
      = some (.node .place own [.node (.member false name) own [.node held inner []]]) := rfl

/-- A meta property may not. -/
theorem asTarget?_meta (loose : List Nat) (a b : String) (own : Span) :
    (Node.node (.metaProperty a b) own []).asTarget? loose = none := rfl

/-- What the rule for a value makes of the row, if its container is a value. -/
theorem assignment_slotRow {container property accessor : Lexeme} {name : String}
    (h : c.Shows (slotRow container property accessor))
    (hs : s.inGenerator = false ∧ s.inAsync = false) (hheld : container.holder? = some held)
    (hname : wordAsKey property = some name) :
    ∃ c' target, c'.Shows (arrowRow accessor)
      ∧ target.unplaced = made .place [(made held []).access name]
      ∧ (Rules.level (n + 5)).assignment s c = ((Rules.level (n + 4)).assignment s c').map
          fun read => (.node (.assign .plain) ⟨c.here.offset, read.2.previousStop⟩
            [target, read.1], read.2) := by
  obtain ⟨hc, hbare, c₁, h₁, -, hc₁, -, c₂, h₂, -, hc₂, -, c₃, h₃, -, hc₃, -, c₄, h₄, -,
    hrest⟩ := h
  subst hc hc₂
  have hmember : (Rules.level (n + 4)).binary s .comma c = _ :=
    level_binary_member hheld hbare.isPure hs h₁ hc₁ h₂ hname h₃ hc₃ rfl
  have hvalueAt := (operandAt_of_holder? hheld h₁ hc₁ rfl).toValueAt
  have hassign := assignment_assign (r := { Rules.level (n + 4) with fuel := n + 5 })
    hvalueAt hs.1 hmember hc₃ h₄
  rw [asTarget?_member, Option.bind_some] at hassign
  refine ⟨c₄, _, hrest, ?_, hassign⟩
  simp only [unplaced_node, List.map_cons, List.map_nil]
  rfl

/-- A container that is no value makes no value of the row. -/
theorem assignment_slotRow_eq_none {container property accessor : Lexeme} {w : Keyword}
    {text : String} (h : c.Shows (slotRow container property accessor))
    (hs : s.inGenerator = false ∧ s.inAsync = false) (hw : container = .keyword w text false)
    (hnone : container.holder? = none) : (Rules.level (n + 6)).assignment s c = none := by
  obtain ⟨hc, hbare, c₁, h₁, -, hc₁, -, c₂, h₂, -, hc₂, -, c₃, h₃, -, hc₃, -, c₄, h₄, -, -⟩ := h
  subst hc
  have hsuper : w ≠ .super := fun heq => by simp [hw, heq, Lexeme.holder?] at hnone
  have hatom : c.lexeme.atom? = none := by
    cases hatom : c.lexeme.atom? with
    | none => rfl
    | some form => simp [holder?_of_atom? hatom] at hnone
  by_cases hmeta : w = .new ∨ w = .import
  · have hunary : unaryOp? c.lexeme = none := by
      rw [hw]
      obtain rfl | rfl := hmeta <;> rfl
    have hoperand := operandAt_of_word (by rw [hw, wordAsKey]) hunary h₁ hc₁ rfl
    obtain hfails | ⟨a, b, span, hvalue⟩ := primary_meta
      (r := { Rules.level (n + 1) with fuel := n + 2 }) (s := s) hmeta hw h₁ hc₁ h₂ h₃
    · have hnothing : (Rules.level (n + 4)).unary s c = none :=
        level_unary_eq_none (n := n + 1) hoperand hs.2 hfails
      exact level_assignment_eq_none (n := n + 3) hoperand.toValueAt hs.1 hnothing
    · have hbinary : (Rules.level (n + 5)).binary s .comma c = _ :=
        level_binary_of_primary (n := n + 1) hoperand hbare.isPure hs.2 hvalue
          (accesses_end hc₃ rfl) hc₃ rfl
      have hassign := assignment_assign (r := { Rules.level (n + 5) with fuel := n + 6 })
        hoperand.toValueAt hs.1 hbinary hc₃ h₄
      rw [asTarget?_meta, Option.bind_none] at hassign
      exact hassign
  · rw [not_or] at hmeta
    exact level_assignment_keyword hw h₁ hc₁ rfl hs hatom fun _ => ⟨hsuper, hmeta⟩

-- ======================================================== statements

/-- The row as a statement, if its container and its accessor are values. -/
theorem statement_slotRow {container property accessor : Lexeme} {name : String}
    {place : StatementPlace} (h : c.Shows (slotRow container property accessor))
    (hs : s.inGenerator = false ∧ s.inAsync = false) (hheld : container.holder? = some held)
    (hname : wordAsKey property = some name) (hgiven : accessor.atom? = some given) :
    ∃ st c', (Rules.level (n + 8)).statement s place c = some (st, c')
      ∧ st.unplaced = made .expressionStatement
        [made (.assign .plain) [made .place [(made held []).access name], arrowTree given]]
      ∧ c'.Shows [] := by
  obtain ⟨c₁, target, h₁, htarget, heq⟩ := assignment_slotRow (n := n + 2) h hs hheld hname
  obtain ⟨v, c₂, hv, htree, h₂⟩ := assignment_arrowRow (n := n) h₁ hs hgiven
  rw [hv, Option.map_some] at heq
  obtain ⟨hc, hbare, c', hadv, -, hc', -⟩ := h
  obtain ⟨hc₂, -, c₃, h₃, -, hend⟩ := h₂
  subst hc
  have hstatement : (Rules.level (n + 8)).statement s place c = _ :=
    (statement_eq hbare.isInert).trans (unmarkedStatement_apply
      (r := { Rules.level (n + 7) with fuel := n + 8 }) hheld hadv hc' heq hc₂
      (fun _ h => by cases h) h₃)
  refine ⟨_, c₃, hstatement, ?_, hend⟩
  simp only [unplaced_node, List.map_cons, List.map_nil, htarget, htree]
  rfl

/-- The row is no statement if its container or its accessor is no value. -/
theorem statement_slotRow_eq_none {container property accessor : Lexeme} {name : String}
    {place : StatementPlace} (h : c.Shows (slotRow container property accessor))
    (hs : s.inGenerator = false ∧ s.inAsync = false) (hreturn : s.allowsReturn = false)
    (hname : wordAsKey property = some name)
    (hnone : (∃ w text, container = .keyword w text false ∧ container.holder? = none)
      ∨ container.holder?.isSome = true
        ∧ ∃ w text, accessor = .keyword w text false ∧ accessor.atom? = none) :
    (Rules.level (n + 9)).statement s place c = none := by
  obtain ⟨hc, hbare, c', hadv, hline, hc', -⟩ := id h
  obtain ⟨w, text, hw, hnone⟩ | ⟨hheld, w, text, hw, hnone⟩ := hnone
  · have hvalue : (Rules.level (n + 8)).assignment s c = none :=
      assignment_slotRow_eq_none (n := n + 2) h hs hw hnone
    have hdot : ∀ k, (Rules.level (k + 5)).assignment s c' = none := fun k =>
      level_assignment_mark hc' rfl hs
    have hpattern : (Rules.level (n + 8)).pattern s c' = none :=
      bindingPattern_dot hc'
    have hstatement : (Rules.level (n + 8)).statement s .alone c' = none := by
      rw [level_statement]
      exact statement_dot hc' (hdot (n + 2))
    rw [level_statement, statement_eq hbare.isInert]
    exact unmarkedStatement_keyword (hc.trans hw) hadv hc' hline hreturn hvalue (hdot (n + 3))
      hpattern hstatement
  · obtain ⟨held, hheld⟩ := Option.isSome_iff_exists.mp hheld
    obtain ⟨c₁, target, h₁, -, heq⟩ := assignment_slotRow (n := n + 3) h hs hheld hname
    rw [assignment_arrowRow_eq_none (n := n) h₁ hs hw hnone, Option.map_none] at heq
    rw [level_statement, statement_eq hbare.isInert]
    exact unmarkedStatement_eq_none (hc ▸ hheld) hadv hc' heq

end Parse

-- ======================================================== the program

namespace ExportConvention

open Node Parse

variable {e : ExportConvention}

/-- What the container is when it is read as a value with an access, if it is one. -/
def heldForm? (e : ExportConvention) : Option Form :=
  (wordLexeme e.container.toList false).holder?

/-- What the accessor is when it is read as a value, if it is one. -/
def givenForm? (e : ExportConvention) : Option Form :=
  (wordLexeme e.accessor.toList false).atom?

/-- A word is a keyword or a name, and in either case it has the text that was written. -/
theorem wordLexeme_cases (word : List Char) :
    (∃ w, wordLexeme word false = .keyword w (String.ofList word) false)
      ∨ wordLexeme word false = .name (String.ofList word) false := by
  unfold wordLexeme
  split
  · exact .inl ⟨_, rfl⟩
  · exact .inr rfl

theorem wordAsKey_wordLexeme (word : List Char) :
    wordAsKey (wordLexeme word false) = some (String.ofList word) := by
  obtain ⟨w, h⟩ | h := wordLexeme_cases word <;> rw [h] <;> rfl

/-- The statement is read from its first token on, with levels enough. -/
theorem exists_parse?_eq (h : e.IsPlain) :
    ∃ c n, c.Shows e.lexemes ∧ Program.parse? e.statement
      = (directivesAndStatements (Rules.level (n + 9)) {} (do return (← peek) == .finish) true
          (n + 9) c).bind fun read =>
        if Program.hasStrayDefault (.node (.program none) ⟨0, read.2.here.offset⟩ read.1)
          || !Node.exportsOnce read.1 then none
        else some ⟨.node (.program none) ⟨0, read.2.here.offset⟩ read.1,
          read.2.comments.reverse⟩ := by
  obtain ⟨c, hc, -, hshows⟩ := spells_statement h 0 false true []
  refine ⟨c, 8 * e.statement.toList.length + 23, hshows, ?_⟩
  have hbang : Program.hashbang ⟨0, e.statement.toList⟩ = (none, ⟨0, e.statement.toList⟩) := by
    obtain ⟨d, ds, heq, hd, -⟩ := exists_of_isPlainIdentifier h.container
    have hhash : d ≠ '#' := fun h => absurd (startsWord hd).hash (by simp [h])
    have hchars : ∃ rest, e.statement.toList = d :: rest := by
      simp [statement, String.toList_append, heq]
    obtain ⟨rest, hrest⟩ := hchars
    rw [Program.hashbang, hrest]
    split
    · cases ‹_ :: _ = _›
      exact absurd rfl hhash
    · rfl
  simp only [Program.parse?, hbang, hc]
  rfl

/-- The statement has no default that only a pattern may have. -/
theorem hasStrayDefault_shape {c a : Lexeme} {held given : Form} (hc : c.holder? = some held)
    (ha : a.atom? = some given) : Program.hasStrayDefault (e.shape held given) = false := by
  have hatom : ∀ (l : Lexeme) (form : Form), l.holder? = some form →
      form ≠ .defaultedProperty := fun l form h => by
    unfold Lexeme.holder? Lexeme.atom? at h
    split at h
    · cases h; simp
    · split at h <;> cases h <;> simp
  have hheld := hatom c held hc
  have hgiven := hatom a given (holder?_of_atom? ha)
  simp [Program.hasStrayDefault, shape, made, access, any_node]

/-- The statement that exports a plugin, if it is one. -/
theorem exists_tree {held given : Form} (h : e.IsPlain) (hheld : e.heldForm? = some held)
    (hgiven : e.givenForm? = some given) :
    ∃ n, e.tree? = some n ∧ n.unplaced = e.shape held given := by
  obtain ⟨c, n, hshows, hparse⟩ := exists_parse?_eq h
  obtain ⟨st, c', hst, htree, hend⟩ : ∃ st c',
      (Rules.level (n + 9)).statement {} .listed c = some (st, c') ∧ _ ∧ c'.Shows [] :=
    statement_slotRow (n := n + 1) hshows ⟨rfl, rfl⟩ hheld (wordAsKey_wordLexeme _) hgiven
  have hword : c.lexeme ≠ .finish ∧ ∀ value raw, c.lexeme ≠ .string value raw := by
    rw [hshows.lexeme_eq]
    obtain ⟨w, heq⟩ | heq := wordLexeme_cases e.container.toList <;> rw [heq] <;> simp
  rw [directivesAndStatements_one hword.1 hword.2 hst hend, Option.bind_some] at hparse
  rw [String.ofList_toList] at htree
  have hstray : ∀ line span,
      Program.hasStrayDefault (.node (.program line) span [st]) = false := fun line span => by
    have hshape : Program.hasStrayDefault (e.shape held given) = false :=
      hasStrayDefault_shape hheld hgiven
    have hst : Program.hasStrayDefault st = false := by
      rw [Program.hasStrayDefault, ← any_unplaced, htree]
      exact hshape
    rw [Program.hasStrayDefault] at hst ⊢
    rw [any_node, List.any_cons, List.any_nil, hst]
    rfl
  obtain ⟨own, ks, rfl, hks⟩ := exists_of_unplaced htree
  rw [hstray, show Node.exportsOnce [Node.node .expressionStatement own ks] = true from rfl]
    at hparse
  exact ⟨_, by rw [tree?, hparse]; rfl, htree⟩

/-- No statement exports a plugin if one of the names is a keyword that is no value. -/
theorem tree?_eq_none (h : e.IsPlain) (hnone : e.heldForm? = none ∨ e.givenForm? = none) :
    e.tree? = none := by
  have hkeyword : ∀ word : List Char, (wordLexeme word false).atom? = none →
      ∃ w text, wordLexeme word false = .keyword w text false := fun word hatom => by
    obtain ⟨w, heq⟩ | heq := wordLexeme_cases word
    · exact ⟨w, _, heq⟩
    · rw [heq] at hatom
      cases hatom
  obtain ⟨c, n, hshows, hparse⟩ := exists_parse?_eq h
  have hst : (Rules.level (n + 9)).statement {} .listed c = none := by
    refine statement_slotRow_eq_none hshows ⟨rfl, rfl⟩ rfl (wordAsKey_wordLexeme _) ?_
    cases hheld : e.heldForm? with
    | none =>
        have hatom : (wordLexeme e.container.toList false).atom? = none := by
          cases hatom : (wordLexeme e.container.toList false).atom? with
          | none => rfl
          | some form => cases (holder?_of_atom? hatom).symm.trans hheld
        obtain ⟨w, text, heq⟩ := hkeyword _ hatom
        exact .inl ⟨w, text, heq, hheld⟩
    | some held =>
        have hgiven := hnone.resolve_left (by simp [hheld])
        obtain ⟨w, text, heq⟩ := hkeyword _ hgiven
        exact .inr ⟨by rw [← heldForm?, hheld]; rfl, w, text, heq, hgiven⟩
  have hword : c.lexeme ≠ .finish := by
    rw [hshows.lexeme_eq]
    obtain ⟨w, heq⟩ | heq := wordLexeme_cases e.container.toList <;> rw [heq] <;> simp
  rw [directivesAndStatements_eq_none hword hst, Option.bind_none] at hparse
  rw [tree?, hparse, Option.bind_none]

-- One keyword holds a slot without being a name, and another one holds none.
example : (⟨"this", "exports", "exports"⟩ : ExportConvention).heldForm? = some .thisValue := by
  decide
example : (⟨"class", "exports", "exports"⟩ : ExportConvention).heldForm? = none := by decide

end ExportConvention

end Graft
