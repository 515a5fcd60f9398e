import Graft.Grammar.Program
import Graft.Proofs.Grammar.Ends
import Graft.Proofs.Token.Row
/-!
What the readers of values and statements give at a known row of tokens.

A reader is a function of a cursor, so it can be evaluated at a cursor whose tokens are known. The
small readers have an equation each, which `simp` uses (`bind_apply`, `atMark_apply`, ...), and the
rules follow from the rules that they are written in terms of, from the tightest operators to whole
statements.

# Values

- A name and the few keywords that are values are read as such (`level_assignment_word`), also with
  an access by name behind them (`level_binary_member`).
- All other keywords are no values (`level_assignment_keyword`), and neither is a mark that ends one
  (`level_assignment_mark`).

The rules are a record that is built level by level, so each of these is proved for rules in terms
of other rules first, and then at every level that is high enough.

# Statements

In front of a point nothing is a statement of a kind of its own, so what is read there is a value or
nothing (`unmarkedStatement_apply`). No statement starts with a keyword that is no value and a point
(`unmarkedStatement_keyword`).
-/
namespace Graft

/-- The form of a value without parts that a token is, if it is a name or one of a few keywords. -/
def Lexeme.atom? : Lexeme → Option Form
  | .name text _ => some (.identifier text)
  | .keyword .this _ false => some .thisValue
  | .keyword .null _ false => some .nullValue
  | .keyword .true _ false => some (.boolean true)
  | .keyword .false _ false => some (.boolean false)
  | _ => none

/-- The form of a value without parts that a token is in front of an access by name. -/
def Lexeme.holder? (l : Lexeme) : Option Form :=
  match l with
  | .keyword .super _ false => some .superValue
  | l => l.atom?

namespace Mark

/-- Marks that no value starts with. -/
def startsNoValue : Mark → Bool
  | .dot | .semicolon => true
  | _ => false

/-- Marks behind a value that do not belong to it. -/
def endsValue : Mark → Bool
  | .semicolon | .assign .plain => true
  | _ => false

theorem eq_of_startsNoValue {m : Mark} (h : m.startsNoValue = true) :
    m = .dot ∨ m = .semicolon := by
  cases m <;> first | exact .inl rfl | exact .inr rfl | cases h

/-- Of the marks in the statement, two end one. -/
theorem eq_of_endsValue {m : Mark} (h : m.endsValue = true) :
    m = .semicolon ∨ m = .assign .plain := by
  unfold endsValue at h
  split at h
  · exact .inl rfl
  · exact .inr rfl
  · cases h

end Mark

namespace Parse

section

variable {α β : Type} {c c' : Cursor}

-- ============================================================ small readers

@[simp] theorem bind_apply (p : Parse α) (f : α → Parse β) (c : Cursor) :
    (p >>= f) c = (p c).bind fun r => f r.1 r.2 := rfl

@[simp] theorem pure_apply (a : α) (c : Cursor) : (pure a : Parse α) c = some (a, c) := rfl

@[simp] theorem map_apply (f : α → β) (p : Parse α) (c : Cursor) :
    (f <$> p) c = (p c).map fun r => (f r.1, r.2) := by
  show (p c).bind _ = _
  cases p c <;> rfl

@[simp] theorem failure_apply (c : Cursor) : (failure : Parse α) c = none := rfl

@[simp] theorem get_apply (c : Cursor) : (get : Parse Cursor) c = some (c, c) := rfl

@[simp] theorem peek_apply (c : Cursor) : peek c = some (c.lexeme, c) := rfl

@[simp] theorem position_apply (c : Cursor) : position c = some (c.here.offset, c) := rfl

@[simp] theorem newlineBefore_apply (c : Cursor) : newlineBefore c = some (c.newline, c) := rfl

@[simp] theorem atMark_apply (m : Mark) (c : Cursor) :
    atMark m c = some (c.lexeme == .mark m, c) := rfl

@[simp] theorem node_apply (start : Nat) (form : Form) (ks : List Node) (c : Cursor) :
    node start form ks c = some (.node form ⟨start, c.previousStop⟩ ks, c) := rfl

theorem next_apply (h : c.advance? = some c') : next c = some ((), c') := by
  rw [next, h]
  rfl

theorem leaf_apply (form : Form) (h : c.advance? = some c') :
    leaf form c = some (.node form ⟨c.here.offset, c'.previousStop⟩ [], c') := by
  simp [leaf, next_apply h]

theorem eatMark_apply {m : Mark} (hc : c.lexeme = .mark m) (h : c.advance? = some c') :
    eatMark m c = some (true, c') := by
  simp [eatMark, hc, next_apply h]

theorem mark_apply {m : Mark} (hc : c.lexeme = .mark m) (h : c.advance? = some c') :
    mark m c = some ((), c') := by
  simp [mark, hc, next_apply h]

theorem mark_eq_none {m : Mark} (hc : c.lexeme ≠ .mark m) : mark m c = none := by
  simp [mark, hc]

theorem eatMark_eq_false {m : Mark} (hc : c.lexeme ≠ .mark m) : eatMark m c = some (false, c) := by
  simp [eatMark, hc]

theorem keyword_apply {w : Keyword} {text : String} (hc : c.lexeme = .keyword w text false)
    (h : c.advance? = some c') : keyword w c = some ((), c') := by
  simp [keyword, atKeyword_eq, hc, Lexeme.isKeyword, next_apply h]

end

-- ============================================================ values of one word

section

variable {c c' c₁ c₂ c₃ : Cursor} {r : Rules} {s : Setting} {form : Form} {m : Mark} {n : Nat}

/-- A word that is a value by itself is read as one. -/
theorem primary_word (hc : c.lexeme.atom? = some form)
    (hs : s.inGenerator = false ∧ s.inAsync = false) (h : c.advance? = some c')
    (hc' : c'.lexeme = .mark m) :
    primary r s c = some (.node form ⟨c.here.offset, c'.previousStop⟩ [], c') := by
  unfold Lexeme.atom? at hc
  split at hc <;> cases hc <;>
    simp [primary, *, ahead, next_apply h, leaf_apply _ h, atKeyword, usable]

/-- In front of an access by name, `super` is a value as well. -/
theorem primary_holder (hc : c.lexeme.holder? = some form)
    (hs : s.inGenerator = false ∧ s.inAsync = false) (h : c.advance? = some c')
    (hc' : c'.lexeme = .mark .dot) :
    primary r s c = some (.node form ⟨c.here.offset, c'.previousStop⟩ [], c') := by
  unfold Lexeme.holder? at hc
  split at hc
  · cases hc
    simp [primary, *, leaf_apply _ h]
  · exact primary_word hc hs h hc'

theorem primary_mark (hc : c.lexeme = .mark m) (hm : m.startsNoValue = true) :
    primary r s c = none := by
  obtain rfl | rfl := Mark.eq_of_startsNoValue hm
  all_goals simp [primary, hc]

/-- Behind `function` stands a name or a parenthesis. -/
theorem functionValue_eq_none {text : String} (hc : c.lexeme = .keyword .function text false)
    (h : c.advance? = some c') (hc' : c'.lexeme = .mark m) (hm : m.startsNoValue = true) :
    functionValue r c = none := by
  obtain rfl | rfl := Mark.eq_of_startsNoValue hm
  all_goals
    simp [functionValue, eatWord, atWord_eq, hc, Lexeme.isTheWord, keyword_apply hc h,
      eatMark_eq_false, hc', atName_eq, Lexeme.isUsable, signatureAndBody, parameters, mark_eq_none]

/-- Behind `class` stands a name, a parent or a body. -/
theorem classParts_eq_none {text : String} (hc : c.lexeme = .keyword .class text false)
    (h : c.advance? = some c') (hc' : c'.lexeme = .mark m) (hm : m.startsNoValue = true) :
    classParts r s c = none := by
  obtain rfl | rfl := Mark.eq_of_startsNoValue hm
  all_goals
    simp [classParts, keyword_apply hc h, hc', atName_eq, atWord_eq, Lexeme.isUsable, eatKeyword,
      atKeyword_eq, Lexeme.isKeyword, mark_eq_none, Lexeme.isTheWord]

/-- A keyword that is no value, and no beginning of one that goes on with the mark after it. -/
theorem primary_keyword {w : Keyword} {text : String} {escaped : Bool}
    (hc : c.lexeme = .keyword w text escaped) (h : c.advance? = some c') (hc' : c'.lexeme = .mark m)
    (hm : m.startsNoValue = true) (hnone : c.lexeme.atom? = none)
    (hdot : m = .dot → w ≠ .super ∧ w ≠ .new ∧ w ≠ .import) (hnew : r.primary s c' = none) :
    primary r s c = none := by
  cases escaped with
  | true => simp [primary, hc]
  | false =>
      simp only [primary, bind_apply, position_apply, peek_apply, Option.bind_some, hc]
      cases w with
      | function => exact functionValue_eq_none hc h hc' hm
      | «class» => simp [classParts_eq_none hc h hc' hm]
      | new | «import» | super =>
          obtain rfl | rfl := Mark.eq_of_startsNoValue hm
          · simp at hdot
          · simp [construction, importValue, keyword_apply hc h, eatMark_eq_false, hc', hnew,
              mark_eq_none, leaf_apply _ h]
      | this | null | «true» | «false» =>
          rw [hc] at hnone
          cases hnone
      | _ => rfl

/-- A meta property, or none. -/
theorem primary_meta {w : Keyword} {text : String} (hw : w = .new ∨ w = .import)
    (hc : c.lexeme = .keyword w text false) (h : c.advance? = some c₁)
    (hc₁ : c₁.lexeme = .mark .dot) (h₁ : c₁.advance? = some c₂) (h₂ : c₂.advance? = some c₃) :
    primary r s c = none
      ∨ ∃ a b span, primary r s c = some (.node (.metaProperty a b) span [], c₃) := by
  obtain rfl | rfl := hw
  · cases hv : c₂.lexeme.isTheWord "target" with
    | false =>
        simp [primary, hc, construction, keyword_apply hc h, eatMark_apply hc₁ h₁, word, atWord_eq,
          hv]
    | true =>
        exact .inr ⟨"new", "target", ⟨c.here.offset, c₃.previousStop⟩, by
          simp [primary, hc, construction, keyword_apply hc h, eatMark_apply hc₁ h₁, word,
            atWord_eq, hv, next_apply h₂]⟩
  · cases hv : c₂.lexeme.isTheWord "meta" with
    | false =>
        simp [primary, hc, importValue, keyword_apply hc h, eatMark_apply hc₁ h₁, word, atWord_eq,
          hv]
    | true =>
        exact .inr ⟨"import", "meta", ⟨c.here.offset, c₃.previousStop⟩, by
          simp [primary, hc, importValue, keyword_apply hc h, eatMark_apply hc₁ h₁, word, atWord_eq,
            hv, next_apply h₂]⟩

-- ==================================================== what stands behind a value

/-- A row of accesses ends in front of what ends a value. -/
theorem accesses_end {allowsChain chained : Bool} {start n : Nat} {value : Node}
    (hc : c.lexeme = .mark m) (hm : m.endsValue = true) :
    accesses r s allowsChain start (n + 1) value chained c = some ((value, chained), c) := by
  obtain rfl | rfl := Mark.eq_of_endsValue hm <;> simp_all [accesses]

theorem exists_word_of_wordAsKey {l : Lexeme} {name : String} (h : wordAsKey l = some name) :
    (∃ escaped, l = .name name escaped) ∨ ∃ w escaped, l = .keyword w name escaped := by
  unfold wordAsKey at h
  split at h <;> simp_all

/-- An access by name is read as one, and there the row ends. -/
theorem accesses_member {start n : Nat} {value : Node} {name : String}
    (hc : c.lexeme = .mark .dot) (h₁ : c.advance? = some c₁) (hc₁ : wordAsKey c₁.lexeme = some name)
    (h₂ : c₁.advance? = some c₂) (hc₂ : c₂.lexeme = .mark m) (hm : m.endsValue = true) :
    accesses r s true start (n + 2) value false c
      = some ((.node (.member false name) ⟨start, c₂.previousStop⟩ [value], false), c₂) := by
  rw [accesses]
  obtain ⟨escaped, heq⟩ | ⟨w, escaped, heq⟩ := exists_word_of_wordAsKey hc₁ <;>
    simp [hc, next_apply h₁, heq, wordAsKey, next_apply h₂, accesses_end hc₂ hm]

/-- A value with its accesses is read if the value is and the accesses are. -/
theorem postfixed_apply {n : Nat} {value whole : Node} (hr : r.fuel = n + 1)
    (hp : r.primary s c = some (value, c₁))
    (h : accesses r s true c.here.offset r.fuel value false c₁ = some ((whole, false), c₂))
    (hc₂ : c₂.lexeme = .mark m) (hm : m.endsValue = true) :
    postfixed r s c = some (whole, c₂) := by
  rw [hr] at h
  obtain rfl | rfl := Mark.eq_of_endsValue hm <;> simp_all [postfixed, accessesAndCalls, eatMark]

/-- Without a value there is nothing to access. -/
theorem postfixed_eq_none (h : r.primary s c = none) : postfixed r s c = none := by
  simp [postfixed, h]

-- ========================================================== operators

/-- A look at the token after the shown one always comes to something, and reads nothing. -/
theorem exists_nextInLine (p : Lexeme → Bool) (c : Cursor) :
    ∃ b, nextInLine p c = some (b, c) := by
  rw [nextInLine, ahead]
  split
  · exact ⟨_, rfl⟩
  · exact ⟨_, rfl⟩

/-- No value that `await` or `yield` could be applied to starts behind the shown token. -/
theorem nextInLine_eq_false {p : Lexeme → Bool} (h : c.advance? = some c')
    (hp : p c'.lexeme = false) : nextInLine p c = some (false, c) := by
  simp [nextInLine, ahead, next_apply h, hp]

/-- A place where the rules for values go on to the rules for operands: no private name, no
parenthesis, no `yield` with its value, and no parameters of an arrow function start there. -/
structure ValueAt (c : Cursor) : Prop where
  notPrivate : ∀ name, c.lexeme ≠ .privateName name
  notParen : c.lexeme ≠ .mark .openParen
  notYield : ∃ b, valueAfterYield c = some (b, c) ∧ (c.lexeme.isTheWord "yield" && b) = false
  notArrow : ∀ r s, arrowHead r s c = some (none, c)

/-- A place where, moreover, no operator with one operand stands. -/
structure OperandAt (c : Cursor) : Prop extends ValueAt c where
  notUpdate : updateOp? c.lexeme = none
  notUnary : unaryOp? c.lexeme = none
  notAwait : ∃ b, valueAfterAwait c = some (b, c) ∧ (c.lexeme.isTheWord "await" && b) = false

/-- At a mark that starts no value the rules go on to those for operands, which fail there. -/
theorem operandAt_of_mark (hc : c.lexeme = .mark m) (hm : m.startsNoValue = true) :
    OperandAt c := by
  have hword : ∀ w, c.lexeme.isTheWord w = false := fun w => by rw [hc]; rfl
  have hlook : ∀ p w, ∃ b, nextInLine p c = some (b, c) ∧ (c.lexeme.isTheWord w && b) = false :=
    fun p w => (exists_nextInLine p c).imp fun b h => ⟨h, by rw [hword, Bool.false_and]⟩
  obtain rfl | rfl := Mark.eq_of_startsNoValue hm
  all_goals
    exact
      { notPrivate := by simp [hc]
        notParen := by simp [hc]
        notYield := hlook _ _
        notArrow := by simp [arrowHead, attempt, hc, word, atWord_eq, Lexeme.isTheWord]
        notUpdate := by rw [hc]; rfl
        notUnary := by rw [hc]; rfl
        notAwait := hlook _ _ }

/-- Behind a word, a mark that starts no value is nothing that an operator could be applied to. -/
theorem valueAfter_eq_false (h : c.advance? = some c') (hc' : c'.lexeme = .mark m)
    (hm : m.startsNoValue = true) :
    valueAfterAwait c = some (false, c) ∧ valueAfterYield c = some (false, c) := by
  obtain rfl | rfl := Mark.eq_of_startsNoValue hm
  all_goals
    exact ⟨nextInLine_eq_false h (by rw [hc']; rfl), nextInLine_eq_false h (by rw [hc']; rfl)⟩

/-- A value starts with a word that is followed by no value. -/
theorem valueAt_of_word {name : String} (hc : wordAsKey c.lexeme = some name)
    (h : c.advance? = some c') (hc' : c'.lexeme = .mark m) (hm : m.startsNoValue = true) :
    ValueAt c where
  notPrivate _ heq := by simp [heq, wordAsKey] at hc
  notParen heq := by simp [heq, wordAsKey] at hc
  notYield := ⟨false, (valueAfter_eq_false h hc' hm).2, Bool.and_false _⟩
  notArrow r s := by
    have hparen : c.lexeme ≠ .mark .openParen := fun heq => by simp [heq, wordAsKey] at hc
    obtain rfl | rfl := Mark.eq_of_startsNoValue hm
    all_goals
      cases hword : c.lexeme.isTheWord "async" <;> cases hline : c'.newline <;>
        simp [arrowHead, attempt, word, atWord_eq, hparen, hword, hline, next_apply h, hc',
          bindingName]

/-- A word that is no operator is an operand. -/
theorem operandAt_of_word {name : String} (hc : wordAsKey c.lexeme = some name)
    (hop : unaryOp? c.lexeme = none) (h : c.advance? = some c') (hc' : c'.lexeme = .mark m)
    (hm : m.startsNoValue = true) : OperandAt c where
  toValueAt := valueAt_of_word hc h hc' hm
  notUpdate := by
    obtain ⟨_, heq⟩ | ⟨_, _, heq⟩ := exists_word_of_wordAsKey hc <;> rw [heq] <;> rfl
  notUnary := hop
  notAwait := ⟨false, (valueAfter_eq_false h hc' hm).1, Bool.and_false _⟩

/-- What is a value by itself also is one in front of an access. -/
theorem holder?_of_atom? {l : Lexeme} (h : l.atom? = some form) : l.holder? = some form := by
  unfold Lexeme.holder?
  split
  · cases h
  · exact h

/-- What holds the slot is a word, and no operator. -/
theorem exists_word_of_holder? {l : Lexeme} (h : l.holder? = some form) :
    (∃ name, wordAsKey l = some name) ∧ unaryOp? l = none := by
  unfold Lexeme.holder? Lexeme.atom? at h
  split at h
  · exact ⟨⟨_, rfl⟩, rfl⟩
  · split at h <;> cases h <;> exact ⟨⟨_, rfl⟩, rfl⟩

/-- What holds the slot is an operand. -/
theorem operandAt_of_holder? (hc : c.lexeme.holder? = some form) (h : c.advance? = some c')
    (hc' : c'.lexeme = .mark m) (hm : m.startsNoValue = true) : OperandAt c := by
  obtain ⟨⟨name, hname⟩, hop⟩ := exists_word_of_holder? hc
  exact operandAt_of_word hname hop h hc' hm

/-- Where no operator stands, a value is the accesses and calls that start there. -/
theorem unary_eq_postfixed (hc : OperandAt c) (hs : s.inAsync = false) :
    unary r s c = (r.postfixed s c).bind fun read =>
      match updateOp? read.2.lexeme with
      | some op =>
          if read.2.newline then some read
          else (asPlace read.1 read.2).bind fun target => (next target.2).bind fun after =>
            node c.here.offset (.update op false) [target.1] after.2
      | none => some read := by
  obtain ⟨b, hb, hand⟩ := hc.notAwait
  simp only [unary, bind_apply, position_apply, peek_apply, Option.bind_some, hc.notUpdate,
    hc.notUnary, atWord_eq, hs, Bool.and_false, Bool.false_eq_true, if_false, hb, hand]
  congr 1
  funext read
  cases updateOp? read.2.lexeme with
  | none => rfl
  | some op => cases hline : read.2.newline <;> simp [hline]

/-- An operand without an operator in front is what follows it. -/
theorem unary_apply {value : Node} (hc : OperandAt c) (hs : s.inAsync = false)
    (hp : r.postfixed s c = some (value, c')) (hc' : c'.lexeme = .mark m)
    (hm : m.endsValue = true) : unary r s c = some (value, c') := by
  have hupdate : updateOp? (.mark m) = none := by
    obtain rfl | rfl := Mark.eq_of_endsValue hm
    all_goals rfl
  rw [unary_eq_postfixed hc hs, hp]
  simp only [Option.bind_some, hc', hupdate]

theorem unary_eq_none (hc : OperandAt c) (hs : s.inAsync = false) (hp : r.postfixed s c = none) :
    unary r s c = none := by
  rw [unary_eq_postfixed hc hs, hp, Option.bind_none]

/-- An operator with nothing that it could be applied to. -/
theorem unary_operator_eq_none {op : UnaryOp} (hl : updateOp? c.lexeme = none)
    (hop : unaryOp? c.lexeme = some op) (h : c.advance? = some c') (hr : r.unary s c' = none) :
    unary r s c = none := by
  simp [unary, hl, hop, next_apply h, hr]

/-- A value with two operands starts with a value with one. -/
theorem binary_eq_operators {least : Precedence} (hl : ∀ name, c.lexeme ≠ .privateName name) :
    binary r s least c = (r.unary s c).bind fun read =>
      operators r s c.here.offset (c.lexeme == .mark .openParen) least r.fuel
        (if c.isPure then read.1.asPure else read.1) read.2 := by
  simp only [binary, bind_apply, position_apply, atMark_apply, get_apply, peek_apply,
    Option.bind_some]

/-- A value with one operand is one with two if no operator follows. -/
theorem binary_apply {n : Nat} {least : Precedence} {value : Node} (hr : r.fuel = n + 1)
    (hc : ValueAt c) (hpure : c.isPure = false) (hp : r.unary s c = some (value, c'))
    (hc' : c'.lexeme = .mark m) (hm : m.endsValue = true) :
    binary r s least c = some (value, c') := by
  have hop : infixOp? s (.mark m) = none := by
    obtain rfl | rfl := Mark.eq_of_endsValue hm
    all_goals rfl
  simp [binary_eq_operators hc.notPrivate, hp, hpure, hr, operators, hc', hop]

theorem binary_eq_none {least : Precedence} (hc : ValueAt c) (hp : r.unary s c = none) :
    binary r s least c = none := by
  rw [binary_eq_operators hc.notPrivate, hp, Option.bind_none]

-- ========================================================= whole values

/-- Without a value there is no assignment. -/
theorem assignment_eq_none (hc : ValueAt c) (hs : s.inGenerator = false)
    (hp : r.binary s .comma c = none) : assignment r s c = none := by
  obtain ⟨b, hb, hand⟩ := hc.notYield
  simp only [assignment, bind_apply, position_apply, atMark_apply, get_apply, Option.bind_some,
    atWord_eq, hs, Bool.and_false, Bool.false_eq_true, if_false, hb, hand, hc.notArrow, hp,
    Option.bind_none]

/-- A value that nothing is assigned to is an assignment. -/
theorem assignment_value {value : Node} (hc : ValueAt c) (hs : s.inGenerator = false)
    (hbare : c.Bare) (hp : r.binary s .comma c = some (value, c'))
    (hc' : c'.lexeme = .mark .semicolon) : assignment r s c = some (value, c') := by
  obtain ⟨b, hb, hand⟩ := hc.notYield
  simp only [assignment, bind_apply, position_apply, atMark_apply, get_apply, Option.bind_some,
    atWord_eq, hs, Bool.and_false, Bool.false_eq_true, if_false, hb, hand, hc.notArrow, hp]
  simp [hc', hbare.isPure, hbare.isInert]

/-- A value in front of an equals sign becomes what is assigned to, if it can be assigned to. -/
theorem assignment_assign {value : Node} (hc : ValueAt c) (hs : s.inGenerator = false)
    (hp : r.binary s .comma c = some (value, c₁)) (hc₁ : c₁.lexeme = .mark (.assign .plain))
    (h₁ : c₁.advance? = some c₂) :
    assignment r s c = (value.asTarget? c₁.looseSpreads).bind fun target =>
      (r.assignment s c₂).map fun right =>
        (.node (.assign .plain) ⟨c.here.offset, right.2.previousStop⟩ [target, right.1],
          right.2) := by
  obtain ⟨b, hb, hand⟩ := hc.notYield
  have hparen := hc.notParen
  simp only [assignment, bind_apply, position_apply, atMark_apply, get_apply, Option.bind_some,
    atWord_eq, hs, Bool.and_false, Bool.false_eq_true, if_false, hb, hand, hc.notArrow, hp]
  cases htarget : value.asTarget? c₁.looseSpreads with
  | none => simp [hc₁, hparen, htarget]
  | some target =>
      simp [hc₁, hparen, htarget, next_apply h₁]
      cases r.assignment s c₂ <;> rfl

/-- An arrow function without parameters that gives a value. -/
theorem assignment_arrow (hfuel : r.fuel = n + 1) (hs : s.inGenerator = false)
    (hc : c.lexeme = .mark .openParen) (h : c.advance? = some c₁)
    (hc₁ : c₁.lexeme = .mark .closeParen) (h₁ : c₁.advance? = some c₂)
    (hc₂ : c₂.lexeme = .mark .arrow) (hline : c₂.newline = false) (h₂ : c₂.advance? = some c₃)
    (hc₃ : c₃.lexeme ≠ .mark .openBrace) :
    assignment r s c
      = (r.assignment { allowsIn := s.allowsIn, allowsReturn := true } c₃).map fun read =>
        (.node (.arrow false true c.isInert false) ⟨c.here.offset, read.2.previousStop⟩
          [.node .parameters ⟨c.here.offset, c₂.previousStop⟩ [],
            .node .functionBody read.1.span [.node .expressionStatement read.1.span [read.1]]],
          read.2) := by
  have hhead : arrowHead r s c
      = some (some (false, .node .parameters ⟨c.here.offset, c₂.previousStop⟩ []), c₂) := by
    simp [arrowHead, attempt, hc, parameters, mark_apply hc h, hfuel, listed, hc₁, restIsLast,
      mark_apply hc₁ h₁, hc₂, hline]
  obtain ⟨b, hb⟩ := exists_nextInLine isWordOrLiteral c
  have hword : c.lexeme.isTheWord "yield" = false := by rw [hc]; rfl
  simp only [assignment, bind_apply, position_apply, atMark_apply, get_apply, Option.bind_some,
    atWord_eq, hs, Bool.and_false, Bool.false_eq_true, if_false, valueAfterYield, hb, hhead, hword,
    Bool.false_and, arrowBody, mark_apply hc₂ h₂]
  simp [hc₃]
  cases r.assignment { allowsIn := s.allowsIn, allowsReturn := true } c₃ <;> rfl

end

-- =========================================================== statements

section

variable {c c' c₁ c₂ : Cursor} {r : Rules} {s : Setting} {place : StatementPlace} {value : Node}

theorem endStatement_apply (hc : c.lexeme = .mark .semicolon) (h : c.advance? = some c') :
    endStatement c = some ((), c') := by
  simp [endStatement, eatMark_apply hc h]

theorem endStatement_eq_none (hc : c.lexeme = .mark .dot) (hline : c.newline = false) :
    endStatement c = none := by
  simp [endStatement, eatMark_eq_false, hc, hline]

theorem expression_apply (h : r.assignment s c = some (value, c'))
    (hc' : c'.lexeme = .mark .semicolon) : expression r s c = some (value, c') := by
  simp [expression, h, hc']

theorem expression_eq_none (h : r.assignment s c = none) : expression r s c = none := by
  simp [expression, h]

/-- A value that is no label and ends with a semicolon is a statement. -/
theorem expressionStatement_apply (h : r.assignment s c = some (value, c₁))
    (hc₁ : c₁.lexeme = .mark .semicolon) (hlabel : ∀ label, value.form ≠ .identifier label)
    (h₁ : c₁.advance? = some c₂) :
    expressionStatement r s c
      = some (.node .expressionStatement ⟨c.here.offset, c₂.previousStop⟩ [value], c₂) := by
  obtain ⟨form, span, ks⟩ := value
  simp only [expressionStatement, bind_apply, position_apply, Option.bind_some,
    expression_apply h hc₁]
  cases form with
  | identifier label => exact absurd rfl (hlabel label)
  | _ => simp [endStatement_apply hc₁ h₁]

theorem expressionStatement_eq_none (h : r.assignment s c = none) :
    expressionStatement r s c = none := by
  simp [expressionStatement, expression_eq_none h]

/-- A statement that starts with a word that is a value, and with an access by name. -/
theorem unmarkedStatement_holder (r : Rules) (s : Setting) (place : StatementPlace) {form : Form}
    (hc : c.lexeme.holder? = some form) (h : c.advance? = some c') (hc' : c'.lexeme = .mark .dot) :
    unmarkedStatement r s place c = expressionStatement r s c
      ∨ unmarkedStatement r s place c = (expression r s c).bind fun read =>
        (endStatement read.2).bind fun after =>
          some (.node .expressionStatement ⟨c.here.offset, after.2.previousStop⟩ [read.1], after.2)
      := by
  -- `async` before a dot is no function, and `let` before a dot is a plain access
  have hfunction : ahead (do
      next
      return !(← newlineBefore) && (← atKeyword .function)) c = some (false, c) := by
    simp [ahead, next_apply h, atKeyword_eq, hc', Lexeme.isKeyword]
  have huse : letUse place c = some (.access, c) := by
    simp [letUse, h, hc']
  cases hl : c.lexeme with
  | name text escaped =>
      -- only `let` takes the second way, where the expression is read within its own statement
      by_cases hlet : text = "let" ∧ escaped = false
      · obtain ⟨rfl, rfl⟩ := hlet
        right
        simp only [unmarkedStatement, bind_apply, position_apply, peek_apply, Option.bind_some, hl,
          letStatement, huse]
        rfl
      · left
        by_cases hasync : text = "async" ∧ escaped = false
        · obtain ⟨rfl, rfl⟩ := hasync
          simp only [unmarkedStatement, bind_apply, position_apply, peek_apply, Option.bind_some,
            hl, hfunction]
          rfl
        · simp only [unmarkedStatement, bind_apply, position_apply, peek_apply, Option.bind_some,
            hl]
          cases escaped <;> simp_all
  | keyword w text escaped =>
      left
      rw [hl] at hc
      unfold Lexeme.holder? Lexeme.atom? at hc
      split at hc
      · simp_all [unmarkedStatement]
      · split at hc <;> simp_all [unmarkedStatement]
  | _ => simp [hl, Lexeme.holder?, Lexeme.atom?] at hc

/-- In front of a dot nothing is a statement of another kind, so what is read is a value. -/
theorem unmarkedStatement_apply {form : Form} (hc : c.lexeme.holder? = some form)
    (h : c.advance? = some c') (hc' : c'.lexeme = .mark .dot)
    (hvalue : r.assignment s c = some (value, c₁)) (hc₁ : c₁.lexeme = .mark .semicolon)
    (hlabel : ∀ label, value.form ≠ .identifier label) (h₁ : c₁.advance? = some c₂) :
    unmarkedStatement r s place c
      = some (.node .expressionStatement ⟨c.here.offset, c₂.previousStop⟩ [value], c₂) := by
  obtain heq | heq := unmarkedStatement_holder r s place hc h hc'
  · rw [heq, expressionStatement_apply hvalue hc₁ hlabel h₁]
  · rw [heq, expression_apply hvalue hc₁, Option.bind_some, endStatement_apply hc₁ h₁]
    rfl

/-- And if no value is read there, there is no statement. -/
theorem unmarkedStatement_eq_none {form : Form} (hc : c.lexeme.holder? = some form)
    (h : c.advance? = some c') (hc' : c'.lexeme = .mark .dot) (hvalue : r.assignment s c = none) :
    unmarkedStatement r s place c = none := by
  obtain heq | heq := unmarkedStatement_holder r s place hc h hc'
  · rw [heq, expressionStatement_eq_none hvalue]
  · rw [heq, expression_eq_none hvalue, Option.bind_none]

/-- Where nothing is said about a statement, it stays as it was read. -/
theorem statement_eq (hc : c.isInert = false) :
    statement r s place c = unmarkedStatement r s place c := by
  simp only [statement, bind_apply, get_apply, Option.bind_some, hc]
  cases unmarkedStatement r s place c <;> rfl

/-- No statement starts with a point. -/
theorem statement_dot (hc : c.lexeme = .mark .dot) (h : r.assignment s c = none) :
    statement r s place c = none := by
  simp [statement, unmarkedStatement, hc, expressionStatement_eq_none h]

/-- No pattern starts with a point. -/
theorem bindingPattern_dot (hc : c.lexeme = .mark .dot) : bindingPattern r s c = none := by
  simp [bindingPattern, eatMark_eq_false, hc, bindingName]

theorem head_eq_none (hc : c.lexeme = .mark .dot) : head r s c = none := by
  simp [head, mark_eq_none, hc]

theorem declarator_eq_none (h : r.pattern s c = none) : declarator r s c = none := by
  simp [declarator, h]

/-- No statement starts with a keyword and a point, unless a value does. -/
theorem unmarkedStatement_keyword {w : Keyword} {text : String} {escaped : Bool}
    (hc : c.lexeme = .keyword w text escaped) (h : c.advance? = some c')
    (hc' : c'.lexeme = .mark .dot) (hline : c'.newline = false) (hs : s.allowsReturn = false)
    (hvalue : r.assignment s c = none) (hnext : r.assignment s c' = none)
    (hpattern : r.pattern s c' = none) (hstatement : r.statement s .alone c' = none) :
    unmarkedStatement r s place c = none := by
  -- an escaped word names no statement and is no value, so nothing is read
  cases escaped with
  | true => simp [unmarkedStatement, hc, expressionStatement_eq_none hvalue]
  | false =>
      have hnone := expressionStatement_eq_none hvalue
      simp only [unmarkedStatement, bind_apply, position_apply, peek_apply, Option.bind_some, hc]
      -- each keyword asks for something that a dot is not
      cases w with
      | «if» => simp [ifStatement, keyword_apply hc h, head_eq_none hc']
      | «for» =>
          simp [forStatement, keyword_apply hc h, eatWord, atWord_eq, hc', Lexeme.isTheWord,
            mark_eq_none]
      | «while» => simp [whileStatement, keyword_apply hc h, head_eq_none hc']
      | «do» => simp [doWhileStatement, keyword_apply hc h, hstatement]
      | «break» | «continue» =>
          simp [jump, next_apply h, jumpLabel, hline, hc', endStatement_eq_none hc' hline]
      | «return» => simp [returnStatement, hs]
      | throw => simp [throwStatement, next_apply h, hline, expression_eq_none hnext]
      | «try» => simp [tryStatement, next_apply h, blockStatement, mark_eq_none, hc']
      | switch => simp [switchStatement, next_apply h, head_eq_none hc']
      | «with» => simp [withStatement, next_apply h, head_eq_none hc']
      | debugger => simp [next_apply h, endStatement_eq_none hc' hline]
      | var => simp [variableDeclaration, next_apply h, declarator_eq_none hpattern]
      | const =>
          cases place <;> simp [variableDeclaration, next_apply h, declarator_eq_none hpattern]
      | function =>
          simp [functionStatement, functionDeclaration, eatWord, atWord_eq, hc, Lexeme.isTheWord,
            keyword_apply hc h, eatMark_eq_false, hc', bindingName, atName_eq]
      | «class» => cases place <;> simp [classParts_eq_none hc h hc' rfl]
      | «import» => simp [ahead, next_apply h, hc', hnone]
      | «export» =>
          simp [exportDeclaration, keyword_apply hc h, eatMark_eq_false, eatKeyword, atKeyword_eq,
            Lexeme.isKeyword, hc']
      -- the other keywords start no statement, and their value was refused
      | _ => exact hnone

-- =========================================================== programs

/-- Without its text between quotes no statement is a directive. -/
theorem asDirective?_none (start : Nat) (n : Node) : n.asDirective? none start = none := by
  unfold Node.asDirective?
  split
  · split <;> rfl
  · rfl

/-- A body that is one statement. -/
theorem directivesAndStatements_one {n : Nat} (hc : c.lexeme ≠ .finish)
    (hstring : ∀ value raw, c.lexeme ≠ .string value raw)
    (h : r.statement s .listed c = some (value, c')) (hc' : c'.lexeme = .finish) :
    directivesAndStatements r s (do return (← peek) == .finish) true (n + 2) c
      = some ([value], c') := by
  simp [directivesAndStatements, hc, h, hc', asDirective?_none]

theorem directivesAndStatements_eq_none {n : Nat} {expecting : Bool} (hc : c.lexeme ≠ .finish)
    (h : r.statement s .listed c = none) :
    directivesAndStatements r s (do return (← peek) == .finish) expecting (n + 1) c = none := by
  simp [directivesAndStatements, hc, h]

end

-- ============================================================= by levels

section

variable {c c' c₁ c₂ c₃ : Cursor} {s : Setting} {form : Form} {m : Mark} {n : Nat}

theorem level_primary (n : Nat) :
    (Rules.level (n + 1)).primary = primary { Rules.level n with fuel := n + 1 } := rfl

theorem level_postfixed (n : Nat) :
    (Rules.level (n + 1)).postfixed = postfixed { Rules.level n with fuel := n + 1 } := rfl

theorem level_unary (n : Nat) :
    (Rules.level (n + 1)).unary = unary { Rules.level n with fuel := n + 1 } := rfl

theorem level_binary (n : Nat) :
    (Rules.level (n + 1)).binary = binary { Rules.level n with fuel := n + 1 } := rfl

theorem level_assignment (n : Nat) :
    (Rules.level (n + 1)).assignment = assignment { Rules.level n with fuel := n + 1 } := rfl

theorem level_statement (n : Nat) :
    (Rules.level (n + 1)).statement = statement { Rules.level n with fuel := n + 1 } := rfl

/-- Without a first part there is no operand, three levels up. -/
theorem level_unary_eq_none (hc : OperandAt c) (hs : s.inAsync = false)
    (h : (Rules.level (n + 1)).primary s c = none) : (Rules.level (n + 3)).unary s c = none := by
  rw [level_unary]
  refine unary_eq_none hc hs ?_
  rw [level_postfixed]
  exact postfixed_eq_none h

/-- Without an operand there is no assignment, two levels up. -/
theorem level_assignment_eq_none (hc : ValueAt c) (hs : s.inGenerator = false)
    (h : (Rules.level (n + 1)).unary s c = none) : (Rules.level (n + 3)).assignment s c = none := by
  rw [level_assignment]
  refine assignment_eq_none hc hs ?_
  rw [level_binary]
  exact binary_eq_none hc h

/-- A mark that starts no value is no operand. -/
theorem level_unary_mark (hc : c.lexeme = .mark m) (hm : m.startsNoValue = true)
    (hs : s.inAsync = false) : (Rules.level (n + 3)).unary s c = none := by
  refine level_unary_eq_none (operandAt_of_mark hc hm) hs ?_
  rw [level_primary]
  exact primary_mark hc hm

theorem level_assignment_mark (hc : c.lexeme = .mark m) (hm : m.startsNoValue = true)
    (hs : s.inGenerator = false ∧ s.inAsync = false) :
    (Rules.level (n + 5)).assignment s c = none :=
  level_assignment_eq_none (operandAt_of_mark hc hm).toValueAt hs.1 (level_unary_mark hc hm hs.2)

/-- No value starts with a keyword, a few aside. -/
theorem level_unary_keyword {w : Keyword} {text : String} {escaped : Bool}
    (hc : c.lexeme = .keyword w text escaped) (h : c.advance? = some c') (hc' : c'.lexeme = .mark m)
    (hm : m.startsNoValue = true) (hs : s.inGenerator = false ∧ s.inAsync = false)
    (hnone : c.lexeme.atom? = none)
    (hdot : m = .dot → w ≠ .super ∧ w ≠ .new ∧ w ≠ .import) :
    (Rules.level (n + 4)).unary s c = none := by
  have hkey : wordAsKey c.lexeme = some text := by rw [hc, wordAsKey]
  cases hop : unaryOp? c.lexeme with
  | none =>
      refine level_unary_eq_none (operandAt_of_word hkey hop h hc' hm) hs.2 ?_
      rw [level_primary]
      refine primary_keyword hc h hc' hm hnone hdot ?_
      rw [level_primary]
      exact primary_mark hc' hm
  | some op =>
      rw [level_unary]
      have hupdate : updateOp? c.lexeme = none := by rw [hc]; rfl
      exact unary_operator_eq_none hupdate hop h (level_unary_mark (n := n) hc' hm hs.2)

/-- A keyword that is no value by itself starts no assignment, if no value follows it. -/
theorem level_assignment_keyword {w : Keyword} {text : String} {escaped : Bool}
    (hc : c.lexeme = .keyword w text escaped) (h : c.advance? = some c') (hc' : c'.lexeme = .mark m)
    (hm : m.startsNoValue = true) (hs : s.inGenerator = false ∧ s.inAsync = false)
    (hnone : c.lexeme.atom? = none)
    (hdot : m = .dot → w ≠ .super ∧ w ≠ .new ∧ w ≠ .import) :
    (Rules.level (n + 6)).assignment s c = none :=
  level_assignment_eq_none (valueAt_of_word (by rw [hc, wordAsKey]) h hc' hm) hs.1
    (level_unary_keyword hc h hc' hm hs hnone hdot)

/-- A first part with its accesses is read as a value with two operands. -/
theorem level_binary_of_primary {value whole : Node} {least : Precedence} (hc : OperandAt c)
    (hpure : c.isPure = false) (hs : s.inAsync = false)
    (hp : (Rules.level (n + 1)).primary s c = some (value, c₁))
    (h : accesses { Rules.level (n + 1) with fuel := n + 2 } s true c.here.offset (n + 2) value
      false c₁ = some ((whole, false), c₂))
    (hc₂ : c₂.lexeme = .mark m) (hm : m.endsValue = true) :
    (Rules.level (n + 4)).binary s least c = some (whole, c₂) := by
  rw [level_binary]
  refine binary_apply rfl hc.toValueAt hpure ?_ hc₂ hm
  show (Rules.level (n + 3)).unary s c = _
  rw [level_unary]
  refine unary_apply hc hs ?_ hc₂ hm
  show (Rules.level (n + 2)).postfixed s c = _
  rw [level_postfixed]
  exact postfixed_apply rfl hp h hc₂ hm

/-- A word that is a value, at the end of a statement. -/
theorem level_assignment_word (hc : c.lexeme.atom? = some form) (hbare : c.Bare)
    (hs : s.inGenerator = false ∧ s.inAsync = false) (h : c.advance? = some c')
    (hc' : c'.lexeme = .mark .semicolon) :
    (Rules.level (n + 5)).assignment s c
      = some (.node form ⟨c.here.offset, c'.previousStop⟩ [], c') := by
  have hoperand := operandAt_of_holder? (holder?_of_atom? hc) h hc' rfl
  rw [level_assignment]
  have hprimary : (Rules.level (n + 1)).primary s c
      = some (.node form ⟨c.here.offset, c'.previousStop⟩ [], c') := by
    rw [level_primary]
    exact primary_word hc hs h hc'
  have hbinary : (Rules.level (n + 4)).binary s .comma c
      = some (.node form ⟨c.here.offset, c'.previousStop⟩ [], c') :=
    level_binary_of_primary hoperand hbare.isPure hs.2 hprimary (accesses_end hc' rfl) hc' rfl
  exact assignment_value hoperand.toValueAt hs.1 hbare hbinary hc'

/-- A word that is a value in front of an access by name. -/
theorem level_binary_member {least : Precedence} {name : String}
    (hc : c.lexeme.holder? = some form) (hpure : c.isPure = false)
    (hs : s.inGenerator = false ∧ s.inAsync = false) (h : c.advance? = some c₁)
    (hc₁ : c₁.lexeme = .mark .dot) (h₁ : c₁.advance? = some c₂)
    (hc₂ : wordAsKey c₂.lexeme = some name) (h₂ : c₂.advance? = some c₃)
    (hc₃ : c₃.lexeme = .mark m) (hm : m.endsValue = true) :
    (Rules.level (n + 4)).binary s least c
      = some (.node (.member false name) ⟨c.here.offset, c₃.previousStop⟩
        [.node form ⟨c.here.offset, c₁.previousStop⟩ []], c₃) := by
  have hoperand := operandAt_of_holder? hc h hc₁ rfl
  have hprimary : (Rules.level (n + 1)).primary s c
      = some (.node form ⟨c.here.offset, c₁.previousStop⟩ [], c₁) := by
    rw [level_primary]
    exact primary_holder hc hs h hc₁
  exact level_binary_of_primary hoperand hpure hs.2 hprimary
    (accesses_member hc₁ h₁ hc₂ h₂ hc₃ hm) hc₃ hm

end

end Parse

end Graft
