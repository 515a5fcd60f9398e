import Graft.Grammar.Statement
import Graft.Proofs.Grammar.Expression
/-!
Statements stand where they were read.

There is one theorem for each reader, in the order of the readers.

- Declarations: a declaration holds declarators and nothing else (`declaration_reads`), and nothing
  but a declaration holds any. That is what makes a declarator a node of a kind of its own.
- Control flow: a statement covers its head and its parts, which stand behind its first token
  (`node_part`). A loop is told by what follows its first head (`forStatement_reads`).
- Modules: what is said about names that are imported or exported holds nothing but words and
  strings, and some of these stand where another word stands already. They are set aside
  (`Form.aside`), and the others stand in a row (`importDeclaration_reads`,
  `exportDeclaration_reads`).
-/
namespace Graft

namespace Node

/-- The mark that a statement may get changes nothing about places. -/
theorem remade_asInertStatement (n : Node) : n.Remade n.asInertStatement := by
  fun_induction asInertStatement n with
  | case1 =>
      exact remade_form rfl rfl (fun _ => suits_of_isPlain rfl _) rfl rfl Nat.one_pos fun _ => rfl
  | case2 span own pattern value more =>
      refine remade_child [] ?_ rfl (.inr ⟨_, rfl⟩)
      exact remade_child [pattern] (remade_asInert value) rfl (.inl rfl)
  | case3 span declaration ih => exact remade_child [] ih rfl (.inl rfl)
  | case4 span shown ih =>
      exact remade_child [] (ih.trans (remade_asInert _)) rfl (.inl rfl)
  | case5 => exact .refl _

end Node

namespace Parse

variable {r : Rules} {s : Setting} {c : Cursor}

/-- A part that is remade in place was read in place. -/
theorem Reads.remadePart {top : Nat} {n m : Node} {c' : Cursor} (h : Reads (IsPart top) c n c')
    (hm : n.Remade m) : Reads (IsPart top) c m c' :=
  ⟨h.beyond, h.stands.laid.replace h.stands.kind.present (Prod.mk.inj hm.place).1
    (hm.wellPlaced (h.stands.laid.wellPlaced n List.mem_cons_self)),
    (Prod.mk.inj hm.place).2.trans h.stands.kind.present,
    Nat.le_trans (Nat.le_of_eq hm.rank) h.stands.kind.rank⟩

/-- A statement over all that is read after its first token. -/
theorem node_part {K : Node → Prop} [Free K] {top : Nat} {form : Form} {ns : List Node}
    {c₁ c₂ c₃ : Cursor}
    (h₁ : c.Beyond c₁) (hns : ReadsAll K c₁ ns c₂) (h₃ : c₂.Onward c₃)
    (hwhole : form.isWhole = true) (hplain : form.isPlain = true)
    (hform : isUpTo top form = true) :
    Ends (node c.here.offset form ns) c₃ (Reads (IsPart top) c) :=
  node_after h₁ hns h₃ hwhole (suits hplain) fun _ => isPart_node hform

/-- The head of a statement is a value between parentheses. -/
theorem head_reads (hr : r.Sound) (hc : c.Sound) : Ends (head r s) c (Reads IsValue c) := by
  unfold head
  refine (mark_ends _ hc).bind fun _ c₁ h₁ => ?_
  refine (expression_reads hr h₁.sound).bind fun value c₂ h₂ => ?_
  refine (mark_ends _ h₂.beyond.sound).bind fun _ c₃ h₃ => ends_pure ?_
  have hon := h₁.onward hc
  have hend := h₃.onward h₂.beyond.sound
  exact ⟨hon.beyond (h₂.beyond.then hend), h₂.stands.mono hon.here hend.past⟩

-- ============================================================ declarations

/-- A declarator. -/
def IsDeclarator (n : Node) : Prop := n.form.rank = Form.rank .declarator

/-- A declarator has a pattern, and a value or nothing behind it. -/
theorem declarator_reads (hr : r.Sound) (hc : c.Sound) :
    Ends (declarator r s) c (Reads IsDeclarator c) := by
  unfold declarator
  refine ends_position ((hr.pattern s hc).bind fun pattern c₁ h₁ => ?_)
  refine (eatMark_ends _ h₁.beyond.sound).bind fun b c₂ h₂ => ?_
  refine optionalValue_readsAll h₂ (hr.assignment s) fun value c₃ h₃ => ?_
  exact node_headed h₁ (Free.free pattern h₁.stands.kind) h₂.onward h₃
    h₃.onward.sound.onward rfl (suits rfl) fun _ => rfl

theorem moreDeclarators_reads (hr : r.Sound) (hc : c.Sound) :
    Ends (moreDeclarators r s) c (ReadsAll IsDeclarator c) :=
  afterCommas_readsAll (declarator_reads hr) r.fuel hc

/-- A declaration, to which a loop may assign. -/
structure IsDeclaration (n : Node) : Prop extends IsPart 4 n where
  takes : n.form.takesValue = true

instance : Free IsDeclaration := ⟨fun _ h => free_of_rank (by decide) h.rank⟩

/-- A declaration over the declarators that are read after its first token. -/
theorem declaration_reads {kind : VariableKind} {ns : List Node} {c₁ c₂ c₃ : Cursor}
    (h₁ : c.Beyond c₁) (hns : ReadsAll IsDeclarator c₁ ns c₂) (hsome : ns ≠ []) (h₃ : c₂.Onward c₃) :
    Ends (node c.here.offset (.variableDeclaration kind) ns) c₃ (Reads IsDeclaration c) := by
  have hpast := h₁.past
  have hgap := h₁.sound.gap
  refine node_reads (h₁.then (hns.onward.trans h₃)) ?_ ⟨isPart_node rfl, rfl⟩
  exact hns.laid.wellPlaced_node rfl (Node.suits_declaration hns.kinds hsome) (fun h => by cases h)
    (by omega) h₃.past (.inl (by omega))

/-- A declaration holds declarators and nothing else. -/
theorem variableDeclaration_reads (hr : r.Sound) {kind : VariableKind} (hc : c.Sound)
    (hl : c.lexeme ≠ .finish) :
    Ends (variableDeclaration r s kind) c (Reads (IsPart 4) c) := by
  unfold variableDeclaration
  refine ends_position ((next_ends hc hl).bind fun _ c₁ h₁ => ?_)
  refine (declarator_reads hr h₁.sound).bind fun first c₂ h₂ => ?_
  refine (moreDeclarators_reads hr h₂.beyond.sound).bind fun more c₃ h₃ => ?_
  have hall := (h₂.all h₁.sound).append h₂.beyond.sound.onward h₃
  refine ends_unless fun _ => (endStatement_ends hall.onward.sound).bind fun _ c₄ h₄ => ?_
  exact (declaration_reads h₁ hall (by simp) h₄).mono fun _ _ h => h.imp fun hn => hn.toIsPart

/-- A value as a statement. -/
theorem statement_of_value {value : Node} {c₁ c₂ : Cursor} (h₁ : Reads IsValue c value c₁)
    (h₂ : c₁.Onward c₂) :
    Ends (node c.here.offset .expressionStatement [value]) c₂ (Reads (IsPart 4) c) :=
  node_headed h₁ (Nat.lt_of_le_of_lt h₁.stands.kind.rank (by decide)) h₂
    (readsAll_nil (K := Any) h₂.sound) h₂.sound.onward rfl
    (suits_expressionStatement h₁.stands.kind.closed) fun _ => isPart_node rfl

/-- A value as a statement is one, unless it turns out to be a label. -/
theorem expressionStatement_reads (hr : r.Sound) (hc : c.Sound) :
    Ends (expressionStatement r s) c (Reads (IsPart 4) c) := by
  unfold expressionStatement
  refine ends_position ((expression_reads hr hc).bind fun value c₁ h₁ => ?_)
  have hvalue : Ends (endStatement >>= fun _ => node c.here.offset .expressionStatement [value])
      c₁ (Reads (IsPart 4) c) :=
    (endStatement_ends h₁.beyond.sound).bind fun _ c₂ h₂ => statement_of_value h₁ h₂
  split
  case h_1 label _ _ =>
    refine ends_ifEaten (eatMark_ends _ h₁.beyond.sound) (fun c₂ h₂ => ?_) hvalue
    refine (hr.statement _ _ h₂.sound).bind fun body c₃ h₃ => ?_
    exact node_part (h₁.beyond.then (h₂.onward h₁.beyond.sound)) (h₃.all h₂.sound)
      h₃.beyond.sound.onward rfl rfl rfl
  case h_2 => exact hvalue

theorem looks_letUse (place : StatementPlace) : Looks (letUse place) := by
  intro c use c' h
  exact (Prod.mk.inj (Option.some.inj h)).2.symm

/-- What starts with `let` is a declaration or a value, by what follows. -/
theorem letStatement_reads (hr : r.Sound) {place : StatementPlace} (hc : c.Sound)
    (hl : c.lexeme = .name "let" false) :
    Ends (letStatement r s place) c (Reads (IsPart 4) c) := by
  unfold letStatement
  refine ends_position ?_
  have hsimple : ∀ {read : Parse Node}, Ends read c (Reads IsValue c) →
      Ends (do
        let value ← read
        endStatement
        node c.here.offset .expressionStatement [value]) c (Reads (IsPart 4) c) := by
    intro read hread
    refine hread.bind fun value c₁ h₁ => ?_
    exact (endStatement_ends h₁.beyond.sound).bind fun _ c₂ h₂ => statement_of_value h₁ h₂
  refine (looks_letUse place).bind fun use => ?_
  split
  case h_1 =>
    refine ends_if (fun _ => ends_failure) fun _ => ?_
    exact variableDeclaration_reads hr hc (by simp [hl])
  case h_2 => exact hsimple (identifier_reads hc hl)
  case h_3 => exact hsimple (hr.assignment s hc)
  case h_4 => exact hsimple (expression_reads hr hc)

/-- A function stands as a statement where it may. -/
theorem functionStatement_reads (hr : r.Sound) {place : StatementPlace} (hc : c.Sound) :
    Ends (functionStatement r s place) c (Reads (IsPart 4) c) := by
  unfold functionStatement
  refine (functionDeclaration_reads hr true hc).bind fun declaration c₁ h₁ => ?_
  split
  · exact ends_unless fun _ => ends_pure h₁
  · exact ends_pure h₁

-- ============================================================ control flow

theorem blockStatement_reads (hr : r.Sound) (hc : c.Sound) :
    Ends (blockStatement r s) c (Reads (IsPart 4) c) := by
  unfold blockStatement
  refine ends_position ((mark_ends _ hc).bind fun _ c₁ h₁ => ?_)
  refine (many_readsAll (looks_atMark _) (fun hc _ => (hr.statement _ _ hc).mono
    fun _ _ h => h.all hc) r.fuel h₁.sound).bind fun statements c₂ h₂ => ?_
  refine (mark_ends _ h₂.onward.sound).bind fun _ c₃ h₃ => ?_
  exact node_part h₁ h₂ (h₃.onward h₂.onward.sound) rfl rfl rfl

/-- A reader of a part, or nothing. -/
theorem optionalPart_readsAll {K : Node → Prop} [Free K] {b : Bool} {p : Parse Node} {β : Type}
    {f : Node → Parse β} {Q : β → Cursor → Prop} (hc : c.Sound) (hp : Ends p c (Reads K c))
    (hf : ∀ n c', ReadsAll Any c [n] c' → Ends (f n) c' Q) :
    Ends (if b = true then p >>= f else pure Node.absent >>= f) c Q :=
  ends_choose (fun _ => hp.mono fun _ _ h => h.any hc)
    (fun _ => ends_pure (readsAll_absent hc any_absent)) hf

/-- Nothing, or a reader of a part. -/
theorem optionalPart_readsAll' {K : Node → Prop} [Free K] {b : Bool} {p : Parse Node} {β : Type}
    {f : Node → Parse β} {Q : β → Cursor → Prop} (hc : c.Sound) (hp : Ends p c (Reads K c))
    (hf : ∀ n c', ReadsAll Any c [n] c' → Ends (f n) c' Q) :
    Ends (if b = true then pure Node.absent >>= f else p >>= f) c Q :=
  ends_choose (fun _ => ends_pure (readsAll_absent hc any_absent))
    (fun _ => hp.mono fun _ _ h => h.any hc) hf

theorem ifStatement_reads (hr : r.Sound) (hc : c.Sound) :
    Ends (ifStatement r s) c (Reads (IsPart 4) c) := by
  unfold ifStatement
  refine ends_position ((keyword_ends _ hc).bind fun _ c₁ h₁ => ?_)
  refine (head_reads hr h₁.sound).bind fun test c₂ h₂ => ?_
  refine (hr.statement _ _ h₂.beyond.sound).bind fun yes c₃ h₃ => ?_
  refine (eatKeyword_ends _ h₃.beyond.sound).bind fun b c₄ h₄ => ?_
  have hc₄ := h₄.onward.sound
  refine optionalPart_readsAll hc₄ (hr.statement _ _ hc₄) fun no c₅ h₅ => ?_
  have hall := (h₂.any h₁.sound).append h₂.beyond.sound.onward
    ((h₃.any h₂.beyond.sound).append h₄.onward h₅)
  exact node_part h₁ hall h₅.onward.sound.onward rfl rfl rfl

section

variable {c₀ c₁ : Cursor} {left : Node}

/-- A loop that counts has three heads, each of which may be absent. -/
theorem countingLoop_reads (hr : r.Sound) (h₁ : c₀.Beyond c₁) (hleft : ReadsAll Any c₁ [left] c) :
    Ends (countingLoop r s c₀.here.offset left) c (Reads (IsPart 4) c₀) := by
  unfold countingLoop
  refine (mark_ends _ hleft.onward.sound).bind fun _ c₂ h₂ => ends_atMark ?_
  refine optionalPart_readsAll' h₂.sound (expression_reads hr h₂.sound) fun test c₃ h₃ => ?_
  refine (mark_ends _ h₃.onward.sound).bind fun _ c₄ h₄ => ends_atMark ?_
  refine optionalPart_readsAll' h₄.sound (expression_reads hr h₄.sound) fun step c₅ h₅ => ?_
  refine (mark_ends _ h₅.onward.sound).bind fun _ c₆ h₆ => ?_
  refine (hr.statement _ _ h₆.sound).bind fun body c₇ h₇ => ?_
  have hall := hleft.append (h₂.onward hleft.onward.sound)
    (h₃.append (h₄.onward h₃.onward.sound)
      (h₅.append (h₆.onward h₅.onward.sound) (h₇.any h₆.sound)))
  exact node_part h₁ hall h₇.beyond.sound.onward rfl rfl rfl

/-- A loop over keys has something that takes a value in front. -/
theorem keyLoop_reads (hr : r.Sound) (h₁ : c₀.Beyond c₁) (hleft : ReadsAll Any c₁ [left] c)
    (htakes : left.form.takesValue = true) :
    Ends (keyLoop r s c₀.here.offset left) c (Reads (IsPart 4) c₀) := by
  unfold keyLoop
  refine (keyword_ends _ hleft.onward.sound).bind fun _ c₂ h₂ => ?_
  refine (expression_reads hr h₂.sound).bind fun object c₃ h₃ => ?_
  refine (mark_ends _ h₃.beyond.sound).bind fun _ c₄ h₄ => ?_
  refine (hr.statement _ _ h₄.sound).bind fun body c₅ h₅ => ?_
  have hall := hleft.append (h₂.onward hleft.onward.sound)
    ((h₃.any h₂.sound).append (h₄.onward h₃.beyond.sound) (h₅.any h₄.sound))
  exact node_after h₁ hall h₅.beyond.sound.onward rfl (suits_assigning rfl rfl htakes)
    fun _ => isPart_node rfl

/-- A loop over elements has something that takes a value in front. -/
theorem elementLoop_reads (hr : r.Sound) {isAwait : Bool} (h₁ : c₀.Beyond c₁)
    (hleft : ReadsAll Any c₁ [left] c) (htakes : left.form.takesValue = true) :
    Ends (elementLoop r s c₀.here.offset isAwait left) c (Reads (IsPart 4) c₀) := by
  unfold elementLoop
  refine (word_ends _ hleft.onward.sound).bind fun _ c₂ h₂ => ?_
  refine (hr.assignment _ h₂.sound).bind fun sequence c₃ h₃ => ?_
  refine (mark_ends _ h₃.beyond.sound).bind fun _ c₄ h₄ => ?_
  refine (hr.statement _ _ h₄.sound).bind fun body c₅ h₅ => ?_
  have hall := hleft.append (h₂.onward hleft.onward.sound)
    ((h₃.any h₂.sound).append (h₄.onward h₃.beyond.sound) (h₅.any h₄.sound))
  exact node_after h₁ hall h₅.beyond.sound.onward rfl (suits_assigning rfl rfl htakes)
    fun _ => isPart_node rfl

end

theorem ne_finish_of_variableKind? {l : Lexeme} {kind : VariableKind}
    (h : variableKind? l = some kind) : l ≠ .finish := by
  rintro rfl
  cases h

/-- A loop is told by what follows its first head. -/
theorem forStatement_reads (hr : r.Sound) (hc : c.Sound) :
    Ends (forStatement r s) c (Reads (IsPart 4) c) := by
  unfold forStatement
  refine ends_position ((keyword_ends _ hc).bind fun _ c₁ h₁ => ?_)
  refine (eatWord_ends _ h₁.sound).bind fun isAwait c₂ h₂ => ends_unless fun _ => ?_
  refine (mark_ends _ h₂.onward.sound).bind fun _ c₃ h₃ => ends_position (ends_peek ?_)
  have hb : c.Beyond c₃ := h₁.then (h₂.onward.trans (h₃.onward h₂.onward.sound))
  have hc₃ := h₃.sound
  extract_lets kind count loop
  -- a keyword was seen, so the lexeme taken below is not the end of the source
  have hkind : ∀ known, kind = some known → c₃.lexeme ≠ .finish :=
    fun _ h => ne_finish_of_variableKind? h
  clear_value kind
  have hloop : ∀ declares, Ends (loop declares) c₃ (Reads (IsPart 4) c) := by
    intro declares
    dsimp only [loop]
    split
    -- `for (const …` : one declarator, the others, and then the kind of loop is decided
    case h_1 known =>
      refine (next_ends hc₃ (hkind known rfl)).bind fun _ c₄ h₄ => ?_
      refine (declarator_reads hr h₄.sound).bind fun first c₅ h₅ => ?_
      refine (moreDeclarators_reads hr h₅.beyond.sound).bind fun more c₆ h₆ => ?_
      have hall := (h₅.all h₄.sound).append h₅.beyond.sound.onward h₆
      refine (declaration_reads h₄ hall (by simp) h₆.onward.sound.onward).bind
        fun left c₇ h₇ => ends_atKeyword ?_
      have hleft := h₇.any hc₃
      have htakes := h₇.stands.kind.takes
      refine ends_ite (fun _ => ends_unless fun _ => keyLoop_reads hr hb hleft htakes) fun _ => ?_
      refine ends_atWord (ends_ite (fun _ => elementLoop_reads hr hb hleft htakes) fun _ => ?_)
      exact ends_unless fun _ => countingLoop_reads hr hb hleft
    -- no declaration: an empty initialiser, or an expression that may turn out to be a target
    case h_2 =>
      refine ends_atMark (ends_ite (fun _ => ends_unless fun _ => ?_) fun _ => ?_)
      · exact countingLoop_reads hr hb (readsAll_absent hc₃ any_absent)
      refine ends_atWord ((looks_ahead _).bind fun startsWithAsyncOf => ?_)
      refine (expression_reads hr hc₃).bind fun value c₄ h₄ => ends_get (ends_atKeyword ?_)
      -- an expression is taken for a place only once `in` or `of` follows it
      have hplace : ∀ {left}, Node.asTarget? c₄.looseSpreads value = some left →
          Reads IsPlace c₃ left c₄ := fun ht => ⟨h₄.beyond, asTarget?_stands h₄.stands ht⟩
      refine ends_ite (fun _ => ends_unless fun _ => ?_) fun _ => ends_atWord ?_
      · split
        case h_1 left ht =>
          exact keyLoop_reads hr hb ((hplace ht).any hc₃) (hplace ht).stands.kind.takes
        case h_2 => exact ends_failure
      refine ends_ite (fun _ => ends_unless fun _ => ?_) fun _ => ends_unless fun _ => ?_
      · split
        case h_1 left ht =>
          exact elementLoop_reads hr hb ((hplace ht).any hc₃) (hplace ht).stands.kind.takes
        case h_2 => exact ends_failure
      · exact countingLoop_reads hr hb (h₄.any hc₃)
  -- the three ways a loop's head is entered differ in whether a look ahead decides
  split
  case h_1 => exact (looks_ahead _).bind hloop
  case h_2 => exact ends_of_eq rfl (hloop true)
  case h_3 => exact ends_of_eq rfl (hloop false)

theorem whileStatement_reads (hr : r.Sound) (hc : c.Sound) :
    Ends (whileStatement r s) c (Reads (IsPart 4) c) := by
  unfold whileStatement
  refine ends_position ((keyword_ends _ hc).bind fun _ c₁ h₁ => ?_)
  refine (head_reads hr h₁.sound).bind fun test c₂ h₂ => ?_
  refine (hr.statement _ _ h₂.beyond.sound).bind fun body c₃ h₃ => ?_
  have hall := (h₂.any h₁.sound).append h₂.beyond.sound.onward (h₃.any h₂.beyond.sound)
  exact node_part h₁ hall h₃.beyond.sound.onward rfl rfl rfl

theorem doWhileStatement_reads (hr : r.Sound) (hc : c.Sound) :
    Ends (doWhileStatement r s) c (Reads (IsPart 4) c) := by
  unfold doWhileStatement
  refine ends_position ((keyword_ends _ hc).bind fun _ c₁ h₁ => ?_)
  refine (hr.statement _ _ h₁.sound).bind fun body c₂ h₂ => ?_
  refine (keyword_ends _ h₂.beyond.sound).bind fun _ c₃ h₃ => ?_
  refine (head_reads hr h₃.sound).bind fun test c₄ h₄ => ?_
  refine (eatMark_ends _ h₄.beyond.sound).bind fun _ c₅ h₅ => ?_
  have hall := (h₂.any h₁.sound).append (h₃.onward h₂.beyond.sound) (h₄.any h₃.sound)
  exact node_part h₁ hall h₅.onward rfl rfl rfl

/-- A label behind a jump does not go back. -/
theorem jumpLabel_ends (hc : c.Sound) : Ends (jumpLabel s) c fun _ c' => c.Onward c' := by
  unfold jumpLabel
  refine ends_newlineBefore (ends_ite (fun _ => ends_pure hc.onward) fun _ => ends_peek ?_)
  split
  case h_1 text escaped hl =>
    refine ends_unless fun _ => ?_
    exact (next_ends hc (by simp [hl])).bind fun _ c₁ h₁ => ends_pure (h₁.onward hc)
  case h_2 => exact ends_pure hc.onward

/-- A jump is read with its label or without. -/
theorem jump_reads {form : Option String → Form} (hc : c.Sound) (hl : c.lexeme ≠ .finish)
    (hform : ∀ label, (form label).isWhole = true ∧ (form label).isPlain = true
      ∧ isUpTo 4 (form label) = true) : Ends (jump s form) c (Reads (IsPart 4) c) := by
  unfold jump
  refine ends_position ((next_ends hc hl).bind fun _ c₁ h₁ => ?_)
  refine (jumpLabel_ends h₁.sound).bind fun label c₂ h₂ => ?_
  refine (endStatement_ends h₂.sound).bind fun _ c₃ h₃ => ?_
  obtain ⟨hwhole, hplain, hrank⟩ := hform label
  exact node_part (K := Any) h₁ (readsAll_nil h₁.sound) (h₂.trans h₃) hwhole hplain hrank

theorem looks_atStatementEnd : Looks atStatementEnd := by
  intro c b c' h
  exact (Prod.mk.inj (Option.some.inj h)).2.symm

theorem returnStatement_reads (hr : r.Sound) (hc : c.Sound) (hl : c.lexeme ≠ .finish) :
    Ends (returnStatement r s) c (Reads (IsPart 4) c) := by
  unfold returnStatement
  refine ends_position (ends_unless fun _ => (next_ends hc hl).bind fun _ c₁ h₁ => ?_)
  refine looks_atStatementEnd.bind fun ends => ?_
  refine optionalPart_readsAll' h₁.sound (expression_reads hr h₁.sound) fun value c₂ h₂ => ?_
  exact (endStatement_ends h₂.onward.sound).bind fun _ c₃ h₃ => node_part h₁ h₂ h₃ rfl rfl rfl

theorem throwStatement_reads (hr : r.Sound) (hc : c.Sound) (hl : c.lexeme ≠ .finish) :
    Ends (throwStatement r s) c (Reads (IsPart 4) c) := by
  unfold throwStatement
  refine ends_position ((next_ends hc hl).bind fun _ c₁ h₁ => ends_newlineBefore ?_)
  refine ends_unless fun _ => (expression_reads hr h₁.sound).bind fun value c₂ h₂ => ?_
  exact (endStatement_ends h₂.beyond.sound).bind
    fun _ c₃ h₃ => node_part h₁ (h₂.all h₁.sound) h₃ rfl rfl rfl

theorem withStatement_reads (hr : r.Sound) (hc : c.Sound) (hl : c.lexeme ≠ .finish) :
    Ends (withStatement r s) c (Reads (IsPart 4) c) := by
  unfold withStatement
  refine ends_position ((next_ends hc hl).bind fun _ c₁ h₁ => ?_)
  refine (head_reads hr h₁.sound).bind fun object c₂ h₂ => ?_
  refine (hr.statement _ _ h₂.beyond.sound).bind fun body c₃ h₃ => ?_
  have hall := (h₂.any h₁.sound).append h₂.beyond.sound.onward (h₃.any h₂.beyond.sound)
  exact node_part h₁ hall h₃.beyond.sound.onward rfl rfl rfl

/-- A case is its test, or nothing, and its statements. -/
theorem switchCase_reads (hr : r.Sound) (hc : c.Sound) :
    Ends (switchCase r s) c (Reads (IsPart 4) c) := by
  unfold switchCase
  refine ends_position ?_
  extract_lets ends cases
  have hends : Looks ends := (looks_atKeyword _).then fun _ => (looks_atKeyword _).then
    fun _ => (looks_atMark _).then fun _ => looks_pure _
  -- the word `default`, or the word `case` and a value
  have hcases : ∀ {test c₁ c₂}, c.Beyond c₁ → ReadsAll Any c₁ [test] c₂ → test.form.rank ≤ 2 →
      Ends (cases test) c₂ (Reads (IsPart 4) c) := by
    intro test c₁ c₂ h₁ h₂ hrank
    refine (mark_ends _ h₂.onward.sound).bind fun _ c₃ h₃ => ?_
    refine (many_readsAll hends (fun hc _ => (hr.statement _ _ hc).mono
      fun _ _ h => h.any hc) r.fuel h₃.sound).bind fun statements c₄ h₄ => ?_
    have hall := h₂.append (h₃.onward h₂.onward.sound) h₄
    exact node_after h₁ hall h₄.onward.sound.onward rfl (Node.suits_case hrank)
      fun _ => isPart_node rfl
  refine ends_ifEaten (eatKeyword_ends _ hc) (fun c₁ h₁ => ends_of_eq rfl ?_) ?_
  · exact hcases h₁ (readsAll_absent h₁.sound any_absent) (Nat.zero_le 2)
  · refine (keyword_ends _ hc).bind fun _ c₁ h₁ => ?_
    exact (expression_reads hr h₁.sound).bind fun test c₂ h₂ =>
      hcases h₁ (h₂.any h₁.sound) h₂.stands.kind.rank

theorem switchStatement_reads (hr : r.Sound) (hc : c.Sound) (hl : c.lexeme ≠ .finish) :
    Ends (switchStatement r s) c (Reads (IsPart 4) c) := by
  unfold switchStatement
  refine ends_position ((next_ends hc hl).bind fun _ c₁ h₁ => ?_)
  refine (head_reads hr h₁.sound).bind fun value c₂ h₂ => ?_
  refine (mark_ends _ h₂.beyond.sound).bind fun _ c₃ h₃ => ?_
  refine (many_readsAll (looks_atMark _) (fun hc _ => (switchCase_reads hr hc).mono
    fun _ _ h => h.any hc) r.fuel h₃.sound).bind fun cases c₄ h₄ => ?_
  refine (mark_ends _ h₄.onward.sound).bind fun _ c₅ h₅ => ?_
  have hall := (h₂.any h₁.sound).append (h₃.onward h₂.beyond.sound) h₄
  exact node_part h₁ hall (h₅.onward h₄.onward.sound) rfl rfl rfl

/-- A clause that catches has a pattern or nothing, and a block. -/
theorem catchClause_reads (hr : r.Sound) (hc : c.Sound) :
    Ends (catchClause r s) c (Reads (IsPart 4) c) := by
  unfold catchClause
  refine ends_position ((keyword_ends _ hc).bind fun _ c₁ h₁ => ?_)
  extract_lets body
  have hbody : ∀ {name c₂ c₃}, ReadsAll Any c₁ [name] c₂ → c₂.Onward c₃ →
      Ends (body name) c₃ (Reads (IsPart 4) c) := by
    intro name c₂ c₃ h₂ h₃
    refine (blockStatement_reads hr h₃.sound).bind fun body c₄ h₄ => ?_
    exact node_part h₁ (h₂.append h₃ (h₄.any h₃.sound)) h₄.beyond.sound.onward rfl rfl rfl
  refine ends_ifEaten (eatMark_ends _ h₁.sound) (fun c₂ h₂ => ?_) (ends_of_eq rfl ?_)
  · refine (hr.pattern _ h₂.sound).bind fun pattern c₃ h₃ => ?_
    refine (mark_ends _ h₃.beyond.sound).bind fun _ c₄ h₄ => ends_of_eq rfl ?_
    have hon := h₂.onward h₁.sound
    have hname := h₃.any h₂.sound
    exact hbody ⟨hon.trans hname.onward, hname.laid.mono hon.here (Nat.le_refl _), hname.kinds⟩
      (h₄.onward h₃.beyond.sound)
  · exact hbody (readsAll_absent h₁.sound any_absent) h₁.sound.onward

/-- A statement that tries has a block, and something that catches or comes last. -/
theorem tryStatement_reads (hr : r.Sound) (hc : c.Sound) (hl : c.lexeme ≠ .finish) :
    Ends (tryStatement r s) c (Reads (IsPart 4) c) := by
  unfold tryStatement
  refine ends_position ((next_ends hc hl).bind fun _ c₁ h₁ => ?_)
  refine (blockStatement_reads hr h₁.sound).bind fun body c₂ h₂ => ends_atKeyword ?_
  have hc₂ := h₂.beyond.sound
  refine optionalPart_readsAll hc₂ (catchClause_reads hr hc₂) fun handler c₃ h₃ => ?_
  refine (eatKeyword_ends _ h₃.onward.sound).bind fun b c₄ h₄ => ?_
  have hc₄ := h₄.onward.sound
  refine optionalPart_readsAll hc₄ (blockStatement_reads hr hc₄) fun finalizer c₅ h₅ => ?_
  have hall := (h₂.any h₁.sound).append hc₂.onward (h₃.append h₄.onward h₅)
  exact ends_unless fun _ => node_part h₁ hall h₅.onward.sound.onward rfl rfl rfl

-- ============================================================ modules

/-- Words and strings, or nothing. -/
def IsBare (n : Node) : Prop := n.isBare = true

instance : Free IsBare := ⟨fun _ h => Node.rank_of_isBare h⟩

/-- Words and strings. -/
structure IsWords (n : Node) : Prop extends IsPart 2 n where
  bare : n.isBare = true

instance : Free IsWords := ⟨fun _ h => Node.rank_of_isBare h.bare⟩

/-- What is put together from words and strings holds nothing else. -/
theorem isBare_node {form : Form} {span : Span} {ns : List Node} (hform : form.isBare = true)
    (h : ∀ n ∈ ns, n.isBare = true) : (Node.node form span ns).isBare = true := by
  rw [Node.isBare, Node.fold_node, List.all_map]
  exact Bool.and_eq_true_iff.mpr ⟨hform, List.all_eq_true.mpr h⟩

/-- A token that is a word is read as one. -/
theorem leaf_readsWords {form : Form} (hc : c.Sound) (hl : c.lexeme ≠ .finish)
    (hleaf : form.isLeaf = true) (hform : isUpTo 2 form = true) (hbare : form.isBare = true) :
    Ends (leaf form) c (Reads IsWords c) :=
  leaf_ends hc hl fun _ hb => ⟨hb, stands_node (Node.wellPlaced_leaf hleaf) (Nat.le_refl _) hb.past
    ⟨isPart_node hform, isBare_node hbare fun _ h => absurd h List.not_mem_nil⟩⟩

/-- A text that names a module is read. -/
theorem stringValue_ends (hc : c.Sound) : Ends stringValue c fun _ c' => c.Beyond c' := by
  unfold stringValue
  refine ends_peek ?_
  split
  case h_1 value raw hl =>
    exact (next_ends hc (by simp [hl])).bind fun _ c₁ h₁ => ends_pure h₁
  case h_2 => exact ends_failure

/-- A name under which something is exported is a word or a text. -/
theorem exportedName_reads (hc : c.Sound) : Ends exportedName c (Reads IsWords c) := by
  unfold exportedName
  refine ends_peek ?_
  split
  case h_1 value raw hl =>
    exact ends_unless fun _ => leaf_readsWords hc (by simp [hl]) rfl rfl rfl
  case h_2 =>
    split
    case h_1 name hname =>
      refine leaf_ends hc ?_ fun c' hb => ⟨hb, stands_node ?_ (Nat.le_refl _) hb.past
        ⟨isPart_node rfl, rfl⟩⟩
      · intro hl
        rw [hl] at hname
        cases hname
      · exact Node.wellPlaced_leaf rfl
    case h_2 => exact ends_failure

/-- An attribute is a key and a text. -/
theorem attributeEntry_reads (hc : c.Sound) : Ends attributeEntry c (Reads IsWords c) := by
  unfold attributeEntry
  refine ends_position (ends_peek ?_)
  extract_lets entry
  have hentry : ∀ {key c₁}, Reads IsWords c key c₁ → Ends (entry key) c₁ (Reads IsWords c) := by
    intro key c₁ h₁
    refine (mark_ends _ h₁.beyond.sound).bind fun _ c₂ h₂ => ends_peek ?_
    split
    case h_1 value raw hl =>
      refine (leaf_readsWords h₂.sound (by simp [hl]) rfl rfl rfl).bind fun value c₃ h₃ => ?_
      refine node_first h₁ h₁.stands.kind.present h₂ (h₃.all h₂.sound) h₃.beyond.sound.onward rfl
        (suits rfl) fun _ => ⟨isPart_node rfl, isBare_node rfl fun n hn => ?_⟩
      rcases List.mem_cons.mp hn with rfl | hn
      · exact h₁.stands.kind.bare
      · exact List.mem_singleton.mp hn ▸ h₃.stands.kind.bare
    case h_2 => exact ends_failure
  split
  case h_1 value raw hl =>
    exact (leaf_readsWords hc (by simp [hl]) rfl rfl rfl).bind fun key c₁ h₁ => hentry h₁
  case h_2 => exact (exportedName_reads hc).bind fun key c₁ h₁ => hentry h₁

/-- Attributes hold nothing but words and texts. -/
theorem attributes_readsAll (hc : c.Sound) :
    Ends (attributes r) c fun n c' => ReadsAll IsBare c [n] c' := by
  unfold attributes
  refine ends_position ?_
  extract_lets list
  have hlist : ∀ {word c₁}, c.Beyond c₁ →
      Ends (list word) c₁ fun n c' => ReadsAll IsBare c [n] c' := by
    intro word c₁ h₁
    refine (mark_ends _ h₁.sound).bind fun _ c₂ h₂ => ?_
    refine (listed_readsAll (fun hc => (attributeEntry_reads hc).mono fun _ _ h => h.all hc)
      r.fuel h₂.sound).bind fun p c₃ h₃ => ?_
    obtain ⟨entries, comma⟩ := p
    refine (mark_ends _ h₃.onward.sound).bind fun _ c₄ h₄ => ends_unless fun _ => ?_
    refine (node_after (K := IsBare) (h₁.then (h₂.onward h₁.sound)) h₃
      (h₄.onward h₃.onward.sound) rfl (suits rfl)
      fun _ => isBare_node rfl fun n hn => (h₃.kinds n hn).bare).mono fun _ _ h => h.all hc
  refine (eatKeyword_ends _ hc).bind fun b c₁ h₁ => ends_newlineBefore (ends_atWord ?_)
  refine ends_ite (fun hb => ends_of_eq rfl (hlist (h₁.beyond hb))) fun hb => ?_
  obtain rfl := h₁.still hb
  refine ends_ite (fun hword => ?_) fun _ => ends_pure (readsAll_absent hc rfl)
  simp only [Bool.and_eq_true] at hword
  exact (next_ends hc (Lexeme.ne_finish_of_isTheWord hword.2)).bind
    fun _ c₂ h₂ => ends_of_eq rfl (hlist h₂)

/-- A name taken by name: the name it has elsewhere is set aside. -/
theorem wellPlaced_importNamed {imported name : Node} {lo hi start stop : Nat}
    (h : Node.Laid lo hi [name]) (hrank : name.form.rank ≤ 2) (hw : imported.WellPlaced)
    (hbare : imported.isBare = true) (hlo : start ≤ lo) (hhi : hi ≤ stop) :
    Node.WellPlaced (.node .importNamed ⟨start, stop⟩ [imported, name]) := by
  refine Node.Laid.wellPlaced_aside h (fun hf => by cases hf) (suits rfl) ?_ hlo hhi ?_ ?_
  · exact fun k hk => List.mem_singleton.mp hk ▸ free_of_rank (by decide) hrank
  · exact fun k hk _ _ => List.mem_singleton.mp hk ▸ Nat.lt_succ_of_le hrank
  · exact fun k hk => List.mem_singleton.mp hk ▸ ⟨hbare, hw⟩

/-- A name that is imported is introduced under its own name or another one. -/
theorem importSpecifier_reads (hc : c.Sound) :
    Ends (importSpecifier s) c (Reads (IsPart 3) c) := by
  unfold importSpecifier
  refine ends_position (ends_atName ((exportedName_reads hc).bind fun imported c₁ h₁ => ?_))
  have hw := h₁.stands.laid.wellPlaced imported List.mem_cons_self
  refine ends_ifEaten (eatWord_ends _ h₁.beyond.sound) (fun c₂ h₂ => ?_) ?_
  · refine (bindingName_reads h₂.sound).bind fun name c₃ h₃ => ?_
    have hon := (h₁.beyond.onward hc).trans (h₂.onward h₁.beyond.sound)
    refine node_reads (hon.beyond h₃.beyond) ?_ (isPart_node rfl)
    exact wellPlaced_importNamed h₃.stands.laid h₃.stands.kind.rank hw h₁.stands.kind.bare hon.here
      (Nat.le_refl _)
  · split
    case h_1 name span ks =>
      refine ends_unless fun _ => node_reads h₁.beyond ?_ (isPart_node rfl)
      refine wellPlaced_importNamed (h₁.stands.laid.replace rfl rfl ?_) (Nat.le_succ 1) hw
        h₁.stands.kind.bare (Nat.le_refl _) (Nat.le_refl _)
      exact Node.wellPlaced_leaf rfl
    case h_2 => exact ends_failure

/-- What is imported is a name, all names at once, or some of them. -/
theorem importSpecifiers_reads (hc : c.Sound) :
    Ends (importSpecifiers r s) c (ReadsAll Any c) := by
  unfold importSpecifiers
  refine ends_atName ?_
  extract_lets more
  have hmore : ∀ {first c₁}, ReadsAll Any c first c₁ →
      Ends (more first) c₁ (ReadsAll Any c) := by
    intro first c₁ h₁
    have hc₁ := h₁.onward.sound
    dsimp -zeta only [more]
    extract_lets others
    have hothers : ∀ {c₂}, c₁.Onward c₂ → Ends (others ()) c₂ (ReadsAll Any c) := by
      intro c₂ hon
      refine ends_position (ends_ifEaten (eatMark_ends _ hon.sound) (fun c₃ h₃ => ?_) ?_)
      · refine (word_ends _ h₃.sound).bind fun _ c₄ h₄ => ?_
        refine (bindingName_reads h₄.sound).bind fun name c₅ h₅ => ?_
        refine (node_part (h₃.then (h₄.onward h₃.sound)) (h₅.any h₄.sound)
          h₅.beyond.sound.onward rfl rfl (rfl : isUpTo 4 _ = true)).bind
          fun whole c₆ h₆ => ends_pure ?_
        exact h₁.append hon (h₆.any hon.sound)
      · refine (mark_ends _ hon.sound).bind fun _ c₃ h₃ => ?_
        refine (listed_readsAll (fun hc => (importSpecifier_reads hc).mono
          fun _ _ h => h.any hc) r.fuel h₃.sound).bind fun p c₄ h₄ => ?_
        obtain ⟨names, comma⟩ := p
        refine (mark_ends _ h₄.onward.sound).bind fun _ c₅ h₅ => ends_pure ?_
        exact (h₁.append (hon.trans (h₃.onward hon.sound)) h₄).later (h₅.onward h₄.onward.sound)
    refine ends_ite (fun _ => ?_) fun _ => hothers hc₁.onward
    refine (eatMark_ends _ hc₁).bind fun b c₂ h₂ => ?_
    exact ends_ite (fun _ => ends_pure (h₁.later h₂.onward)) fun _ => hothers h₂.onward
  refine ends_ite (fun _ => ends_position ?_) fun _ => ends_of_eq rfl (hmore (readsAll_nil hc))
  refine (bindingName_reads hc).bind fun name c₁ h₁ => ?_
  have hc₁ := h₁.beyond.sound
  have hwhole : Ends (node c.here.offset .importDefault [name]) c₁ (Reads (IsPart 3) c) :=
    node_headed h₁ (Nat.lt_succ_of_le h₁.stands.kind.rank) hc₁.onward
      (readsAll_nil (K := Any) hc₁) hc₁.onward rfl (suits rfl) fun _ => isPart_node rfl
  exact hwhole.bind fun first c₂ h₂ => ends_of_eq rfl (hmore (h₂.any hc))

/-- What a module takes from another one, or gives on from it: what is said about how to read it
is set aside. -/
theorem moduleList_reads {form : Form} {c₁ c₂ c₃ c₄ c₅ : Cursor} {attributes : Node}
    {specifiers : List Node} (hb : c.Beyond c₁) (hspecifiers : ReadsAll Any c₁ specifiers c₂)
    (h₃ : c₂.Onward c₃) (hattributes : ReadsAll IsBare c₃ [attributes] c₄) (h₅ : c₄.Onward c₅)
    (hplaced : form.placed (attributes :: specifiers) = specifiers)
    (haside : form.aside (attributes :: specifiers) = [attributes]) (hplain : form.isPlain = true)
    (hform : isUpTo 1 form = true) :
    Ends (node c.here.offset form (attributes :: specifiers)) c₅ (Reads (IsPart 4) c) := by
  have hon := h₃.trans (hattributes.onward.trans h₅)
  have hpast := hb.past
  have hgap := hb.sound.gap
  have hlate := (hspecifiers.later hon).laid
  refine node_reads (hb.then (hspecifiers.onward.trans hon)) ?_ (isPart_node ?_)
  · have hstart : c.here.offset < c₁.here.offset := by omega
    refine Node.Laid.wellPlaced_aside (hplaced.symm ▸ hlate) ?_ (suits hplain)
      (hplaced.symm ▸ hspecifiers.free) (Nat.le_of_lt hstart) (Nat.le_refl _) ?_ ?_
    · rintro rfl
      cases hform
    · rw [hplaced]
      exact fun k hk hp heq => absurd heq (hlate.span_ne (.inl hstart) k hk hp)
    · rw [haside]
      intro k hk
      exact List.mem_singleton.mp hk ▸ ⟨hattributes.kinds _ List.mem_cons_self,
        hattributes.laid.wellPlaced _ List.mem_cons_self⟩
  · simp only [isUpTo, Bool.and_eq_true, decide_eq_true_eq] at hform ⊢
    omega

/-- An import is read as a statement that declares. -/
theorem importDeclaration_reads (hc : c.Sound) :
    Ends (importDeclaration r s) c (Reads (IsPart 4) c) := by
  unfold importDeclaration
  refine ends_position ((keyword_ends _ hc).bind fun _ c₁ h₁ => ends_peek ?_)
  split
  case h_1 =>
    refine (stringValue_ends h₁.sound).bind fun source c₂ h₂ => ?_
    refine (attributes_readsAll h₂.sound).bind fun attributes c₃ h₃ => ?_
    refine (endStatement_ends h₃.onward.sound).bind fun _ c₄ h₄ => ?_
    exact moduleList_reads h₁ (readsAll_nil h₁.sound) (h₂.onward h₁.sound) h₃ h₄ rfl rfl rfl rfl
  case h_2 =>
    refine (importSpecifiers_reads h₁.sound).bind fun specifiers c₂ h₂ => ?_
    refine (word_ends _ h₂.onward.sound).bind fun _ c₃ h₃ => ?_
    refine (stringValue_ends h₃.sound).bind fun source c₄ h₄ => ?_
    refine (attributes_readsAll h₄.sound).bind fun attributes c₅ h₅ => ?_
    refine (endStatement_ends h₅.onward.sound).bind fun _ c₆ h₆ => ?_
    exact moduleList_reads h₁ h₂ ((h₃.onward h₂.onward.sound).trans (h₄.onward h₃.sound)) h₅ h₆
      rfl rfl rfl rfl

/-- A name that is exported is a word on each side. -/
theorem exportSpecifier_reads (hc : c.Sound) : Ends exportSpecifier c (Reads (IsPart 3) c) := by
  unfold exportSpecifier
  refine ends_position ((exportedName_reads hc).bind fun own c₁ h₁ => ?_)
  have hc₁ := h₁.beyond.sound
  extract_lets shown
  have hshown : ∀ {exported c₂}, c₁.Onward c₂ → exported.isBare = true → exported.WellPlaced →
      Ends (shown exported) c₂ (Reads (IsPart 3) c) := by
    intro exported c₂ hon hbare hw
    refine node_reads (h₁.beyond.then hon) ?_ (isPart_node rfl)
    refine Node.Laid.wellPlaced_aside h₁.stands.laid (fun hf => by cases hf) (suits rfl) ?_
      (Nat.le_refl _) hon.past ?_ ?_
    · exact fun k hk => List.mem_singleton.mp hk ▸ Free.free own h₁.stands.kind
    · exact fun k hk _ _ => List.mem_singleton.mp hk ▸ Nat.lt_succ_of_le h₁.stands.kind.rank
    · exact fun k hk => List.mem_singleton.mp hk ▸ ⟨hbare, hw⟩
  refine ends_ifEaten (eatWord_ends _ hc₁) (fun c₂ h₂ => ?_) (ends_of_eq rfl ?_)
  · refine (exportedName_reads h₂.sound).bind fun exported c₃ h₃ => ?_
    exact hshown ((h₂.onward hc₁).trans (h₃.beyond.onward h₂.sound)) h₃.stands.kind.bare
      (h₃.stands.laid.wellPlaced exported List.mem_cons_self)
  · exact hshown hc₁.onward h₁.stands.kind.bare (h₁.stands.laid.wellPlaced own List.mem_cons_self)

/-- A name that turns out to be a use stands where the name stands. -/
theorem asReference_placed {n m : Node} (h : asReference n = some m) (hw : n.WellPlaced) :
    m.place = n.place ∧ m.WellPlaced ∧ Any m := by
  unfold asReference at h
  split at h
  case h_1 span name inner ks exported =>
    split at h
    · cases h
    case isFalse hname =>
      obtain rfl := Option.some.inj h
      refine ⟨rfl, ?_, Nat.lt_of_sub_eq_succ rfl⟩
      have hword : Keyword.ofText? name.toList = none := by
        simp only [Bool.or_eq_true, not_or] at hname
        simpa using hname.1
      cases hw with
      | node fits parts =>
        refine .node ⟨suits rfl, fits.row.congr rfl, ?_, fits.aside, fun hf => (by cases hf),
          fun _ k hk => ?_⟩ ?_
        · exact fun k hk _ _ => List.mem_singleton.mp hk ▸ Nat.lt_of_sub_eq_succ rfl
        · rcases List.mem_cons.mp hk with rfl | hk
          · exact Nat.lt_of_sub_eq_succ rfl
          · exact fits.free rfl k (List.mem_cons_of_mem _ hk)
        · intro k hk
          rcases List.mem_cons.mp hk with rfl | hk
          · exact Node.wellPlaced_identifier hword
          · exact parts k (List.mem_cons_of_mem _ hk)
  case h_2 => cases h

/-- Names that are exported from the program itself are uses, in the place of the words that they
were. -/
theorem asReferences_placed {ns ms : List Node} (h : ns.mapM asReference = some ms)
    (hw : ∀ n ∈ ns, n.WellPlaced) :
    ms.map Node.place = ns.map Node.place ∧ ∀ m ∈ ms, m.WellPlaced ∧ Any m := by
  induction ns generalizing ms with
  | nil =>
      obtain rfl : ms = [] := by simpa using h.symm
      exact ⟨rfl, fun _ hm => absurd hm List.not_mem_nil⟩
  | cons n ns ih =>
      rw [List.mapM_cons] at h
      obtain ⟨m, hm, h⟩ := Option.bind_eq_some_iff.mp h
      obtain ⟨ms', hms, h⟩ := Option.bind_eq_some_iff.mp h
      obtain rfl : m :: ms' = ms := Option.some.inj h
      obtain ⟨hplace, hwm⟩ := asReference_placed hm (hw n List.mem_cons_self)
      obtain ⟨hplaces, hwms⟩ := ih hms fun n hn => hw n (List.mem_cons_of_mem _ hn)
      refine ⟨by rw [List.map_cons, List.map_cons, hplace, hplaces], fun m' hm' => ?_⟩
      rcases List.mem_cons.mp hm' with rfl | hm'
      · exact hwm
      · exact hwms m' hm'

/-- All that another module shows: nothing of it stands in a row. -/
theorem exportAll_reads {source : List StringUnit} {attributes name : Node} {c₁ : Cursor}
    (hb : c.Beyond c₁) (hattributes : attributes.isBare = true ∧ attributes.WellPlaced)
    (hname : name.isBare = true ∧ name.WellPlaced) :
    Ends (node c.here.offset (.exportAll source) [attributes, name]) c₁ (Reads (IsPart 4) c) := by
  refine node_reads hb ?_ (isPart_node rfl)
  refine Node.Laid.wellPlaced_aside (Node.laid_nil c.here.offset c₁.previousStop)
    (fun hf => by cases hf) (suits rfl) (fun k hk => absurd hk List.not_mem_nil) (Nat.le_refl _)
    (Nat.le_refl _) (fun k hk => absurd hk List.not_mem_nil) fun k hk => ?_
  rcases List.mem_cons.mp hk with rfl | hk
  · exact hattributes
  · exact List.mem_singleton.mp hk ▸ hname

/-- What is exported by default is one child of the statement. -/
theorem exportDefault_reads {K : Node → Prop} [Free K] {n : Node} {c₁ c₂ c₃ : Cursor} (h₁ : c.Beyond c₁)
    (h₂ : Reads K c₁ n c₂) (h₃ : c₂.Onward c₃) :
    Ends (node c.here.offset .exportDefault [n]) c₃ (Reads (IsPart 4) c) :=
  node_part h₁ (h₂.all h₁.sound) h₃ rfl rfl rfl

/-- A class as a declaration. -/
theorem classDeclaration_reads {parts : List Node} {c' : Cursor} (h : ReadsClass c parts c') :
    Ends (node c.here.offset .classDeclaration parts) c' (Reads (IsPart 4) c) :=
  node_reads h.beyond (h.wellPlaced _ rfl (suits rfl)) (isPart_node rfl)

/-- An export is read as a statement, in each of its kinds. -/
theorem exportDeclaration_reads (hr : r.Sound) (hc : c.Sound) :
    Ends (exportDeclaration r s) c (Reads (IsPart 4) c) := by
  unfold exportDeclaration
  refine ends_position ((keyword_ends _ hc).bind fun _ c₁ h₁ => ?_)
  have hc₁ := h₁.sound
  -- all names of another module, perhaps under one name
  refine ends_ifEaten (eatMark_ends _ hc₁) (fun c₂ h₂ => ?_) ?_
  · have hb : c.Beyond c₂ := h₁.then (h₂.onward hc₁)
    refine (eatWord_ends _ h₂.sound).bind fun b c₃ h₃ => ?_
    extract_lets source
    have hsource : ∀ {name c₄}, ReadsAll IsBare c₃ [name] c₄ →
        Ends (source name) c₄ (Reads (IsPart 4) c) := by
      intro name c₄ h₄
      refine (word_ends _ h₄.onward.sound).bind fun _ c₅ h₅ => ?_
      refine (stringValue_ends h₅.sound).bind fun _ c₆ h₆ => ?_
      refine (attributes_readsAll h₆.sound).bind fun attributes c₇ h₇ => ?_
      refine (endStatement_ends h₇.onward.sound).bind fun _ c₈ h₈ => ?_
      have hon := h₃.onward.trans (h₄.onward.trans ((h₅.onward h₄.onward.sound).trans
        ((h₆.onward h₅.sound).trans (h₇.onward.trans h₈))))
      exact exportAll_reads (hb.then hon)
        ⟨h₇.kinds _ List.mem_cons_self, h₇.laid.wellPlaced _ List.mem_cons_self⟩
        ⟨h₄.kinds _ List.mem_cons_self, h₄.laid.wellPlaced _ List.mem_cons_self⟩
    refine ends_ite (fun _ => ?_) fun _ => ends_of_eq rfl ?_
    · exact (exportedName_reads h₃.onward.sound).bind fun name c₄ h₄ =>
        hsource ((h₄.imp fun h => h.bare).all h₃.onward.sound)
    · exact hsource (readsAll_absent h₃.onward.sound rfl)
  -- names of the program, or of another module that is named behind them
  refine ends_ifEaten (eatMark_ends _ hc₁) (fun c₂ h₂ => ?_) ?_
  · have hb : c.Beyond c₂ := h₁.then (h₂.onward hc₁)
    refine (listed_readsAll (fun hc => (exportSpecifier_reads hc).mono fun _ _ h => h.any hc)
      r.fuel h₂.sound).bind fun p c₃ h₃ => ?_
    obtain ⟨specifiers, comma⟩ := p
    refine (mark_ends _ h₃.onward.sound).bind fun _ c₄ h₄ => ?_
    refine ends_ifEaten (eatWord_ends _ h₄.sound) (fun c₅ h₅ => ?_) ?_
    · refine (stringValue_ends h₅.sound).bind fun _ c₆ h₆ => ?_
      refine (attributes_readsAll h₆.sound).bind fun attributes c₇ h₇ => ?_
      refine (endStatement_ends h₇.onward.sound).bind fun _ c₈ h₈ => ?_
      exact moduleList_reads hb h₃ ((h₄.onward h₃.onward.sound).trans
        ((h₅.onward h₄.sound).trans (h₆.onward h₅.sound))) h₇ h₈ rfl rfl rfl rfl
    · -- without another module the names are uses, and have to be names
      refine (endStatement_ends h₄.sound).bind fun _ c₅ h₅ => ?_
      split
      case h_1 references href =>
        obtain ⟨hplaces, hw⟩ := asReferences_placed href h₃.laid.wellPlaced
        have hall : ReadsAll Any c₂ references c₃ :=
          ⟨h₃.onward, ⟨h₃.laid.row.congr hplaces, fun n hn => (hw n hn).1⟩,
            fun n hn => (hw n hn).2⟩
        exact moduleList_reads hb hall ((h₄.onward h₃.onward.sound).trans h₅)
          (readsAll_absent h₅.sound rfl) h₅.sound.onward rfl rfl rfl rfl
      case h_2 => exact ends_failure
  -- one value by default: a function, a class, or any value
  refine ends_ifEaten (eatKeyword_ends _ hc₁) (fun c₂ h₂ => ?_) ?_
  · have hb : c.Beyond c₂ := h₁.then (h₂.onward hc₁)
    refine (looks_ahead _).bind fun isAsync => ends_atKeyword ?_
    refine ends_ite (fun _ => ends_get ?_) fun _ => ends_atKeyword (ends_ite (fun _ => ?_) fun _ => ?_)
    · refine (functionDeclaration_reads hr false h₂.sound).bind fun declaration c₃ h₃ => ?_
      refine exportDefault_reads (K := IsPart 4) hb ?_ h₃.beyond.sound.onward
      split
      · exact h₃.remadePart (Node.remade_asInertStatement declaration)
      · exact h₃
    · refine ends_position ((classParts_reads hr h₂.sound).bind fun parts c₃ h₃ => ?_)
      exact (classDeclaration_reads h₃).bind
        fun declaration c₄ h₄ => exportDefault_reads hb h₄ h₄.beyond.sound.onward
    · refine (hr.assignment s h₂.sound).bind fun value c₃ h₃ => ?_
      exact (endStatement_ends h₃.beyond.sound).bind fun _ c₄ h₄ => exportDefault_reads hb h₃ h₄
  · -- a declaration whose names are exported
    refine ends_peek ?_
    dsimp only
    refine ends_unless fun _ => (hr.statement _ _ hc₁).bind fun declaration c₂ h₂ => ?_
    have hexport : Ends (node c.here.offset .exportDeclaration [declaration]) c₂
        (Reads (IsPart 4) c) :=
      node_part h₁ (h₂.all hc₁) h₂.beyond.sound.onward rfl rfl rfl
    split
    · exact hexport
    · exact hexport
    · exact hexport
    · exact ends_failure

-- ============================================================ any statement

/-- A statement that starts with no mark and no keyword of its own is told by its first word. -/
theorem unmarkedStatement_reads (hr : r.Sound) {place : StatementPlace} (hc : c.Sound) :
    Ends (unmarkedStatement r s place) c (Reads (IsPart 4) c) := by
  unfold unmarkedStatement
  refine ends_position (ends_peek ?_)
  -- by the first lexeme: a brace, a semicolon, a reserved word, `let`, `async`, anything else
  split
  case h_1 => exact blockStatement_reads hr hc
  case h_2 hl => exact leaf_reads hc (by simp [hl]) rfl rfl
  -- a reserved word names the statement; the cases follow the order of the match
  case h_3 w text hl =>
    have hshown : c.lexeme ≠ .finish := by simp [hl]
    split
    case h_1 => exact ifStatement_reads hr hc
    case h_2 => exact forStatement_reads hr hc
    case h_3 => exact whileStatement_reads hr hc
    case h_4 => exact doWhileStatement_reads hr hc
    case h_5 => exact jump_reads hc hshown fun _ => ⟨rfl, rfl, rfl⟩
    case h_6 => exact jump_reads hc hshown fun _ => ⟨rfl, rfl, rfl⟩
    case h_7 => exact returnStatement_reads hr hc hshown
    case h_8 => exact throwStatement_reads hr hc hshown
    case h_9 => exact tryStatement_reads hr hc hshown
    case h_10 => exact switchStatement_reads hr hc hshown
    case h_11 => exact withStatement_reads hr hc hshown
    case h_12 =>
      refine (next_ends hc hshown).bind fun _ c₁ h₁ => ?_
      exact (endStatement_ends h₁.sound).bind fun _ c₂ h₂ =>
        node_part (K := Any) h₁ (readsAll_nil h₁.sound) h₂ rfl rfl rfl
    case h_13 => exact variableDeclaration_reads hr hc hshown
    case h_14 =>
      exact ends_if (fun _ => ends_failure) fun _ => variableDeclaration_reads hr hc hshown
    case h_15 => exact functionStatement_reads hr hc
    case h_16 =>
      refine ends_unless fun _ => (classParts_reads hr hc).bind fun parts c₁ h₁ => ?_
      exact classDeclaration_reads h₁
    case h_17 =>
      -- `import` may also open a value, and a look ahead tells
      refine (looks_ahead _).bind fun isValue => ?_
      exact ends_ite (fun _ => expressionStatement_reads hr hc) fun _ => importDeclaration_reads hc
    case h_18 => exact exportDeclaration_reads hr hc
    case h_19 => exact expressionStatement_reads hr hc
  case h_4 hl => exact letStatement_reads hr hc hl
  case h_5 =>
    refine (looks_ahead _).bind fun isFunction => ?_
    exact ends_ite (fun _ => functionStatement_reads hr hc)
      fun _ => expressionStatement_reads hr hc
  case h_6 => exact expressionStatement_reads hr hc

/-- A statement is read as one, whatever it starts with. -/
theorem statement_reads (hr : r.Sound) {place : StatementPlace} (hc : c.Sound) :
    Ends (statement r s place) c (Reads (IsPart 4) c) := by
  unfold statement
  refine ends_get ((unmarkedStatement_reads hr hc).bind fun whole c₁ h₁ => ends_pure ?_)
  split
  · exact h₁.remadePart (Node.remade_asInertStatement whole)
  · exact h₁

end Parse

end Graft
