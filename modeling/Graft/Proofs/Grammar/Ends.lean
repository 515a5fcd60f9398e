import Graft.Grammar.Basic
import Graft.Proofs.Token.Progress
import Graft.Proofs.Tree.Placement
/-!
What a reader leaves behind.

# Conditions on readers

`Parse.Ends` says of a reader that whatever it gives satisfies a condition on the result and on the
cursor it stops at; a reader that fails satisfies every condition. It goes along with the ways in
which readers are put together: what is shown of the parts in order is shown of the whole
(`Parse.Ends.bind`), and looking at a cursor reads nothing.

# Nodes in place

The conditions that matter here are about places. A node that was read stands between the cursor
before and the cursor after (`Parse.Reads`), and so do the nodes of a list, one after the other
(`Parse.ReadsAll`). Cursors only go on (`Cursor.Onward`), and a node that is there has taken up at
least one token (`Cursor.Beyond`), so what was read earlier ends before what is read later begins.

# Putting nodes together

A node covers the text from a first token to the cursor. There are few ways in which its children
can stand in it: all behind the first token (`Parse.node_after`), or the first child from the same
start as the node, which then has to be of lower rank (`Parse.node_cons`, `Parse.node_headed`). Each
reader of the grammar is one of these, or a repetition of some (`Parse.many_readsAll`,
`Parse.listed_readsAll`).
-/
namespace Graft

namespace Parse

variable {α β : Type} {c c₀ : Cursor}

/-- Whatever a reader gives from a cursor satisfies a condition. -/
def Ends (p : Parse α) (c : Cursor) (Q : α → Cursor → Prop) : Prop :=
  ∀ a c', p c = some (a, c') → Q a c'

-- ============================================================ composition

section

variable {p q : Parse α} {f g : α → Parse β} {P : α → Cursor → Prop} {Q : β → Cursor → Prop}

theorem Ends.mono {R : α → Cursor → Prop} (h : Ends p c P) (hPR : ∀ a c', P a c' → R a c') :
    Ends p c R :=
  fun a c' hp => hPR a c' (h a c' hp)

theorem Ends.and {R : α → Cursor → Prop} (hp : Ends p c P) (hr : Ends p c R) :
    Ends p c fun a c' => P a c' ∧ R a c' :=
  fun a c' h => ⟨hp a c' h, hr a c' h⟩

/-- What two readers in a row end in is what the second one ends in from where the first one
ended. -/
theorem Ends.bind (hp : Ends p c P) (hf : ∀ a c', P a c' → Ends (f a) c' Q) :
    Ends (p >>= f) c Q := by
  intro b c' h
  obtain ⟨⟨a, c₁⟩, ha, hb⟩ := Option.bind_eq_some_iff.mp h
  exact hf a c₁ (hp a c₁ ha) b c' hb

theorem ends_pure {a : α} (h : P a c) : Ends (pure a) c P := by
  intro a' c' hp
  obtain ⟨rfl, rfl⟩ : a = a' ∧ c = c' := Prod.mk.inj (Option.some.inj hp)
  exact h

theorem ends_failure : Ends (failure : Parse α) c P :=
  fun _ _ h => by cases h

/-- A reader that chooses ends in what either choice ends in. -/
theorem ends_ite {b : Bool} (hp : b = true → Ends p c P) (hq : b = false → Ends q c P) :
    Ends (if b = true then p else q) c P := by
  cases b with
  | true => exact hp rfl
  | false => exact hq rfl

theorem ends_if {b : Prop} [Decidable b] (hp : b → Ends p c P) (hq : ¬b → Ends q c P) :
    Ends (if b then p else q) c P := by
  split
  · exact hp ‹_›
  · exact hq ‹_›

/-- A reader that goes on only if a check is passed. -/
theorem ends_unless {b : Bool} {q : Parse β} (h : b = false → Ends q c Q) :
    Ends (if b = true then (failure : Parse α) >>= f else q) c Q :=
  ends_ite (fun _ => ends_failure.bind fun _ _ h => h.elim) h
where
  ends_failure : Ends (failure : Parse α) c fun _ _ => False := fun _ _ h => by cases h

/-- One of two readers, and then what is the same for both. -/
theorem ends_choose {b : Bool} (hp : b = true → Ends p c P) (hq : b = false → Ends q c P)
    (hf : ∀ a c', P a c' → Ends (f a) c' Q) :
    Ends (if b = true then p >>= f else q >>= f) c Q :=
  ends_ite (fun h => (hp h).bind hf) (fun h => (hq h).bind hf)

-- ==================================================== looking at a cursor

theorem ends_get {f : Cursor → Parse β} (h : Ends (f c) c Q) : Ends (get >>= f) c Q := h

theorem ends_peek {f : Lexeme → Parse β} (h : Ends (f c.lexeme) c Q) : Ends (peek >>= f) c Q := h

theorem ends_position {f : Nat → Parse β} (h : Ends (f c.here.offset) c Q) :
    Ends (position >>= f) c Q := h

theorem ends_previousStop {f : Nat → Parse β} (h : Ends (f c.previousStop) c Q) :
    Ends (previousStop >>= f) c Q := h

theorem ends_newlineBefore {f : Bool → Parse β} (h : Ends (f c.newline) c Q) :
    Ends (newlineBefore >>= f) c Q := h

theorem ends_atMark {m : Mark} {f : Bool → Parse β} (h : Ends (f (c.lexeme == .mark m)) c Q) :
    Ends (atMark m >>= f) c Q := h

/-- A reader that looks and does not go on. -/
def Looks (p : Parse α) : Prop := ∀ c a c', p c = some (a, c') → c' = c

/-- A look ahead changes nothing for what follows. -/
theorem Looks.bind (hp : Looks p) (h : ∀ a, Ends (f a) c Q) : Ends (p >>= f) c Q := by
  intro b c' hb
  obtain ⟨⟨a, c₁⟩, ha, hrest⟩ := Option.bind_eq_some_iff.mp hb
  obtain rfl := hp c a c₁ ha
  exact h a b c' hrest

/-- To look twice is to look. -/
theorem Looks.then (hp : Looks p) (hf : ∀ a, Looks (f a)) : Looks (p >>= f) := by
  intro c b c' h
  obtain ⟨⟨a, c₁⟩, ha, hrest⟩ := Option.bind_eq_some_iff.mp h
  obtain rfl := hp c a c₁ ha
  exact hf a c₁ b c' hrest

end

theorem looks_pure (a : α) : Looks (pure a) := by
  intro c a' c' h
  exact (Prod.mk.inj (Option.some.inj h)).2.symm

theorem looks_atMark (m : Mark) : Looks (atMark m) := by
  intro c b c' h
  have heq : atMark m c = some (c.lexeme == .mark m, c) := rfl
  rw [heq] at h
  exact (Prod.mk.inj (Option.some.inj h)).2.symm

/-- A reader that goes back to where it started only looks. -/
theorem looks_ahead (p : Parse Bool) : Looks (ahead p) := by
  intro c b c' h
  unfold ahead at h
  split at h
  · obtain ⟨-, rfl⟩ := by simpa using h
    rfl
  · obtain ⟨-, rfl⟩ := by simpa using h
    rfl

end Parse

namespace Lexeme

/-- Whether a token is a keyword that is not spelled with an escape. -/
def isKeyword (k : Keyword) : Lexeme → Bool
  | .keyword w _ escaped => w == k && !escaped
  | _ => false

/-- Whether a token is a word that is not spelled with an escape. -/
def isTheWord (word : String) : Lexeme → Bool
  | .name text escaped => text == word && !escaped
  | _ => false

/-- Whether a token is a name that may be used for a variable. -/
def isUsable (s : Setting) : Lexeme → Bool
  | .name text _ => Parse.usable s text
  | _ => false

/-- What may be used for a variable is a name. -/
theorem exists_name_of_isUsable {s : Setting} {l : Lexeme} (h : l.isUsable s = true) :
    ∃ text escaped, l = .name text escaped := by
  cases l with
  | name text escaped => exact ⟨text, escaped, rfl⟩
  | _ => cases h

theorem ne_finish_of_isKeyword {k : Keyword} {l : Lexeme} (h : l.isKeyword k = true) :
    l ≠ .finish := by
  rintro rfl
  cases h

theorem ne_finish_of_isTheWord {w : String} {l : Lexeme} (h : l.isTheWord w = true) :
    l ≠ .finish := by
  rintro rfl
  cases h

theorem ne_finish_of_mark {m : Mark} {l : Lexeme} (h : (l == .mark m) = true) :
    l ≠ .finish := by
  rintro rfl
  cases h

end Lexeme

namespace Parse

variable {α β : Type} {c : Cursor}

section

variable {f : Bool → Parse β} {Q : β → Cursor → Prop}

/-- A reader of which it is known what it gives without going on. -/
theorem ends_of_eq {p : Parse α} {f : α → Parse β} {a : α} (hp : p c = some (a, c))
    (h : Ends (f a) c Q) : Ends (p >>= f) c Q := by
  intro b c' hb
  obtain ⟨⟨a', c₁⟩, ha, hrest⟩ := Option.bind_eq_some_iff.mp hb
  rw [hp] at ha
  obtain ⟨rfl, rfl⟩ : a = a' ∧ c = c₁ := by simpa using ha
  exact h b c' hrest

/-- A rule that goes on with the token at hand is what it does about that token. -/
theorem peek_bind (f : Lexeme → Parse α) (c : Cursor) : (peek >>= f) c = f c.lexeme c := rfl

/-- Whether a keyword stands at a cursor is told by its token. -/
theorem atKeyword_eq (k : Keyword) (c : Cursor) :
    atKeyword k c = some (c.lexeme.isKeyword k, c) := by
  rw [atKeyword, peek_bind]
  cases c.lexeme <;> rfl

theorem atWord_eq (w : String) (c : Cursor) : atWord w c = some (c.lexeme.isTheWord w, c) := by
  rw [atWord, peek_bind]
  cases c.lexeme <;> rfl

theorem atName_eq (s : Setting) (c : Cursor) : atName s c = some (c.lexeme.isUsable s, c) := by
  rw [atName, peek_bind]
  cases c.lexeme <;> rfl

theorem looks_atKeyword (k : Keyword) : Looks (atKeyword k) := by
  intro c b c' h
  rw [atKeyword_eq] at h
  exact (Prod.mk.inj (Option.some.inj h)).2.symm

theorem ends_atKeyword {k : Keyword} (h : Ends (f (c.lexeme.isKeyword k)) c Q) :
    Ends (atKeyword k >>= f) c Q :=
  ends_of_eq (atKeyword_eq k c) h

theorem ends_atWord {w : String} (h : Ends (f (c.lexeme.isTheWord w)) c Q) :
    Ends (atWord w >>= f) c Q :=
  ends_of_eq (atWord_eq w c) h

theorem ends_atName {s : Setting} (h : Ends (f (c.lexeme.isUsable s)) c Q) :
    Ends (atName s >>= f) c Q :=
  ends_of_eq (atName_eq s c) h

end

-- ============================================================ going on

/-- A token has been read. -/
def Goes (c : Cursor) (_ : Unit) (c' : Cursor) : Prop := c.Beyond c'

/-- A token is passed over, and then the cursor is further on. -/
theorem next_ends (hc : c.Sound) (hl : c.lexeme ≠ .finish) : Ends next c (Goes c) := by
  intro u c' h
  obtain ⟨c₁, hc₁, heq⟩ := Option.map_eq_some_iff.mp h
  obtain ⟨-, rfl⟩ : () = u ∧ c₁ = c' := by simpa using heq
  exact Cursor.advance?_beyond hc hl hc₁

theorem mark_ends (m : Mark) (hc : c.Sound) : Ends (mark m) c (Goes c) :=
  ends_atMark (ends_ite (fun h => next_ends hc (Lexeme.ne_finish_of_mark h))
    fun _ => ends_failure)

theorem keyword_ends (k : Keyword) (hc : c.Sound) : Ends (keyword k) c (Goes c) :=
  ends_atKeyword (ends_ite (fun h => next_ends hc (Lexeme.ne_finish_of_isKeyword h))
    fun _ => ends_failure)

theorem word_ends (w : String) (hc : c.Sound) : Ends (word w) c (Goes c) :=
  ends_atWord (ends_ite (fun h => next_ends hc (Lexeme.ne_finish_of_isTheWord h))
    fun _ => ends_failure)

/-- A token may have been read. -/
structure Eats (c : Cursor) (b : Bool) (c' : Cursor) : Prop where
  onward : c.Onward c'
  beyond : b = true → c.Beyond c'
  still : b = false → c' = c

theorem eats_true {c' : Cursor} (hc : c.Sound) (h : c.Beyond c') : Eats c true c' :=
  ⟨h.onward hc, fun _ => h, fun h => by cases h⟩

theorem eats_false (hc : c.Sound) : Eats c false c :=
  ⟨hc.onward, fun h => (by cases h), fun _ => rfl⟩

/-- A mark is eaten, or the cursor stays. -/
theorem eatMark_ends (m : Mark) (hc : c.Sound) : Ends (eatMark m) c (Eats c) :=
  ends_atMark (ends_ite
    (fun h => (next_ends hc (Lexeme.ne_finish_of_mark h)).bind
      fun _ _ h => ends_pure (eats_true hc h))
    fun _ => ends_pure (eats_false hc))

/-- A keyword is eaten, or the cursor stays. -/
theorem eatKeyword_ends (k : Keyword) (hc : c.Sound) : Ends (eatKeyword k) c (Eats c) :=
  ends_atKeyword (ends_ite
    (fun h => (next_ends hc (Lexeme.ne_finish_of_isKeyword h)).bind
      fun _ _ h => ends_pure (eats_true hc h))
    fun _ => ends_pure (eats_false hc))

/-- A word is eaten, or the cursor stays. -/
theorem eatWord_ends (w : String) (hc : c.Sound) : Ends (eatWord w) c (Eats c) :=
  ends_atWord (ends_ite
    (fun h => (next_ends hc (Lexeme.ne_finish_of_isTheWord h)).bind
      fun _ _ h => ends_pure (eats_true hc h))
    fun _ => ends_pure (eats_false hc))

/-- One way to go on if a token was read, and another one if not. -/
theorem ends_ifEaten {p : Parse Bool} {q r : Parse β} {Q : β → Cursor → Prop}
    (hp : Ends p c (Eats c)) (hq : ∀ c', c.Beyond c' → Ends q c' Q) (hr : Ends r c Q) :
    Ends (p >>= fun b => if b = true then q else r) c Q :=
  hp.bind fun _ c' h => ends_ite (fun hb => hq c' (h.beyond hb))
    fun hb => (h.still hb).symm ▸ hr

/-- The end of a statement does not go back. -/
theorem endStatement_ends (hc : c.Sound) :
    Ends endStatement c fun _ c' => c.Onward c' := by
  unfold endStatement
  refine ends_ifEaten (eatMark_ends _ hc) (fun c' h => ends_pure (h.onward hc)) ?_
  refine ends_newlineBefore (ends_atMark (ends_peek ?_))
  exact ends_ite (fun _ => ends_pure hc.onward) fun _ => ends_failure

-- ========================================================== nodes in place

/-- A node that is present, and outside of which nodes of higher rank can stand. -/
structure IsPart (top : Nat) (n : Node) : Prop where
  present : n.isAbsent = false
  rank : n.form.rank ≤ top

/-- A part that can stand for a value. -/
structure IsValue (n : Node) : Prop extends IsPart 2 n where
  closed : n.isClosed = true

/-- A pattern, or something else that a value is assigned to. -/
structure IsPattern (n : Node) : Prop extends IsPart 2 n where
  takes : n.form.takesValue = true

/-- A value that has become something to assign to. -/
structure IsPlace (n : Node) : Prop extends IsValue n where
  takes : n.form.takesValue = true

/-- An element of a pattern, or nothing. -/
structure IsElement (n : Node) : Prop where
  rank : n.form.rank ≤ 3
  takes : n.form.takesValue = true

/-- An entry of a list, or nothing; it introduces nothing. -/
structure IsEntry (n : Node) : Prop where
  closed : n.isClosed = true
  rank : n.form.rank ≤ 3

/-- Any node but a declarator. -/
def Any (n : Node) : Prop := n.form.rank < Form.rank .declarator

/-- A kind of node that no declarator is of. -/
class Free (K : Node → Prop) : Prop where
  free : ∀ n, K n → n.form.rank < Form.rank .declarator

section

variable {n : Node}

theorem free_of_rank {top : Nat} (htop : top < Form.rank .declarator) (h : n.form.rank ≤ top) :
    n.form.rank < Form.rank .declarator :=
  Nat.lt_of_le_of_lt h htop

instance : Free Any := ⟨fun _ h => h⟩

instance : Free (IsPart 2) := ⟨fun _ h => free_of_rank (by decide) h.rank⟩

instance : Free (IsPart 3) := ⟨fun _ h => free_of_rank (by decide) h.rank⟩

instance : Free (IsPart 4) := ⟨fun _ h => free_of_rank (by decide) h.rank⟩

instance : Free (IsPart 5) := ⟨fun _ h => free_of_rank (by decide) h.rank⟩

instance : Free IsValue := ⟨fun _ h => free_of_rank (by decide) h.rank⟩

instance : Free IsPattern := ⟨fun _ h => free_of_rank (by decide) h.rank⟩

instance : Free IsPlace := ⟨fun _ h => free_of_rank (by decide) h.rank⟩

instance : Free IsElement := ⟨fun _ h => free_of_rank (by decide) h.rank⟩

instance : Free IsEntry := ⟨fun _ h => free_of_rank (by decide) h.rank⟩

end

/-- A well placed node of a kind between an offset and the last token read. -/
structure Stands (K : Node → Prop) (lo : Nat) (n : Node) (c : Cursor) : Prop where
  laid : Node.Laid lo c.previousStop [n]
  kind : K n

/-- What a reader of one node of a kind gives. -/
structure Reads (K : Node → Prop) (c : Cursor) (n : Node) (c' : Cursor) : Prop where
  beyond : c.Beyond c'
  stands : Stands K c.here.offset n c'

/-- What a reader of several nodes of a kind gives. -/
structure ReadsAll (K : Node → Prop) (c : Cursor) (ns : List Node) (c' : Cursor) : Prop where
  onward : c.Onward c'
  laid : Node.Laid c.here.offset c'.previousStop ns
  kinds : ∀ n ∈ ns, K n

/-- Whether a form is present and of at most some rank. -/
def isUpTo (top : Nat) (form : Form) : Bool := 0 < form.rank && form.rank ≤ top

section

variable {K : Node → Prop} {top lo start : Nat} {form : Form} {ns : List Node} {n : Node}
  {c c' c₀ : Cursor}

/-- A node of a form that is present is a part. -/
theorem isPart_node {span : Span} (h : isUpTo top form = true) :
    IsPart top (.node form span ns) := by
  simp only [isUpTo, Bool.and_eq_true, decide_eq_true_eq] at h
  exact ⟨Node.isAbsent_eq_false h.1, h.2⟩

/-- A node that is no single word is a value if its children introduce nothing. -/
theorem isValue_node {span : Span} (h : isUpTo 2 form = true) (hword : form.isWord = false)
    (hclosed : ∀ k ∈ ns, k.isClosed = true) : IsValue (.node form span ns) :=
  ⟨isPart_node h, Node.isClosed_of_all (fun _ hf => by subst hf; cases hword) hclosed⟩

theorem isEntry_absent : IsEntry Node.absent := ⟨rfl, Nat.zero_le 3⟩

theorem IsValue.isEntry (h : IsValue n) : IsEntry n :=
  ⟨h.closed, Nat.le_trans h.rank (Nat.le_succ 2)⟩

theorem Stands.imp {K' : Node → Prop} (h : Stands K lo n c) (hK : K n → K' n) :
    Stands K' lo n c :=
  ⟨h.laid, hK h.kind⟩

theorem Stands.mono {lo' : Nat} (h : Stands K lo n c) (hlo : lo' ≤ lo)
    (hc : c.previousStop ≤ c'.previousStop) : Stands K lo' n c' :=
  ⟨h.laid.mono hlo hc, h.kind⟩

theorem Reads.imp {K' : Node → Prop} (h : Reads K c n c') (hK : K n → K' n) : Reads K' c n c' :=
  ⟨h.beyond, h.stands.imp hK⟩

/-- To read one node is to read a row of one. -/
theorem Reads.all (h : Reads K c n c') (hc : c.Sound) : ReadsAll K c [n] c' :=
  ⟨h.beyond.onward hc, h.stands.laid, fun _ hn => List.mem_singleton.mp hn ▸ h.stands.kind⟩

theorem Reads.any [Free K] (h : Reads K c n c') (hc : c.Sound) : ReadsAll Any c [n] c' :=
  (h.imp (Free.free n)).all hc

theorem ReadsAll.imp {K' : Node → Prop} (h : ReadsAll K c ns c') (hK : ∀ n, K n → K' n) :
    ReadsAll K' c ns c' :=
  ⟨h.onward, h.laid, fun n hn => hK n (h.kinds n hn)⟩

theorem readsAll_nil (hc : c.Sound) : ReadsAll K c [] c :=
  ⟨hc.onward, Node.laid_nil .., fun _ h => absurd h List.not_mem_nil⟩

theorem readsAll_absent (hc : c.Sound) (h : K Node.absent) : ReadsAll K c [Node.absent] c :=
  ⟨hc.onward, Node.laid_absent .., fun _ hn => List.mem_singleton.mp hn ▸ h⟩

theorem any_absent : Any Node.absent := by
  show (0 : Nat) < 7
  decide

theorem ReadsAll.free [Free K] (h : ReadsAll K c ns c') :
    ∀ n ∈ ns, n.form.rank < Form.rank .declarator :=
  fun n hn => Free.free n (h.kinds n hn)

theorem ReadsAll.later (h : ReadsAll K c ns c') {c'' : Cursor} (h' : c'.Onward c'') :
    ReadsAll K c ns c'' :=
  ⟨h.onward.trans h', h.laid.mono (Nat.le_refl _) h'.past, h.kinds⟩

/-- Nodes read one after the other, with tokens between them. -/
theorem ReadsAll.append {c₁ c₂ c₃ : Cursor} {ms : List Node} (hm : ReadsAll K c ms c₁)
    (h₁₂ : c₁.Onward c₂) (hn : ReadsAll K c₂ ns c₃) :
    ReadsAll K c (ms ++ ns) c₃ := by
  have hon := hm.onward.trans (h₁₂.trans hn.onward)
  have h₁ := hm.onward.here
  have h₂ := h₁₂.here
  have h₃ := hn.onward.past
  have h₄ := h₁₂.past
  have h₅ := hm.onward.sound.gap
  refine ⟨hon, hm.laid.append hn.laid (by omega) (by omega) (by omega), ?_⟩
  intro n hn'
  rcases List.mem_append.mp hn' with h | h
  · exact hm.kinds n h
  · exact hn.kinds n h

/-- A node that was put together from nodes in place. -/
theorem stands_node (hw : Node.WellPlaced (.node form ⟨start, c.previousStop⟩ ns))
    (hlo : lo ≤ start) (hlt : start < c.previousStop)
    (hk : K (.node form ⟨start, c.previousStop⟩ ns)) :
    Stands K lo (.node form ⟨start, c.previousStop⟩ ns) c :=
  ⟨Node.laid_singleton ⟨hlo, hlt, Nat.le_refl _⟩ hw, hk⟩

theorem node_ends {Q : Node → Cursor → Prop}
    (h : Q (.node form ⟨start, c.previousStop⟩ ns) c) : Ends (node start form ns) c Q :=
  ends_previousStop (ends_pure h)

/-- A node over everything that was read from `c₀` on. -/
theorem node_reads (hb : c₀.Beyond c)
    (hw : Node.WellPlaced (.node form ⟨c₀.here.offset, c.previousStop⟩ ns))
    (hk : K (.node form ⟨c₀.here.offset, c.previousStop⟩ ns)) :
    Ends (node c₀.here.offset form ns) c (Reads K c₀) :=
  node_ends ⟨hb, stands_node hw (Nat.le_refl _) hb.past hk⟩

theorem suits (h : form.isPlain = true) : Node.Suits form ns := Node.suits_of_isPlain h ns

/-- A leaf is put together from the token that it is. -/
theorem leaf_ends {Q : Node → Cursor → Prop} (hc : c.Sound) (hl : c.lexeme ≠ .finish)
    (h : ∀ c', c.Beyond c' →
      Q (.node form ⟨c.here.offset, c'.previousStop⟩ []) c') : Ends (leaf form) c Q :=
  ends_position ((next_ends hc hl).bind fun _ c' hb => node_ends (h c' hb))

/-- A node over a first token, its children and perhaps more tokens. -/
theorem node_after {L : Node → Prop} [Free L] {c₁ c₂ c₃ : Cursor} (h₁ : c₀.Beyond c₁)
    (hns : ReadsAll L c₁ ns c₂) (h₃ : c₂.Onward c₃) (hwhole : form.isWhole = true)
    (hsuits : Node.Suits form ns) (hk : ∀ span, K (.node form span ns)) :
    Ends (node c₀.here.offset form ns) c₃ (Reads K c₀) := by
  have hpast := h₁.past
  have hgap := h₁.sound.gap
  have hstop := h₃.past
  refine node_reads (h₁.then (hns.onward.trans h₃)) ?_ (hk _)
  exact hns.laid.wellPlaced_node hwhole hsuits (fun _ => hns.free) (by omega) hstop
    (.inl (by omega))

/-- A node over a first child and more tokens, among them the other children. -/
theorem node_cons {K₁ K₂ : Node → Prop} [Free K₁] [Free K₂] {m : Node} {c₁ c₂ c₃ c₄ : Cursor}
    (hm : Stands K₁ start m c₁) (hp : m.isAbsent = false) (hc₁ : c₁.Sound) (h₂ : c₁.Onward c₂)
    (hns : ReadsAll K₂ c₂ ns c₃) (h₄ : c₃.Onward c₄) (hend : c₁.Beyond c₄)
    (hwhole : form.isWhole = true) (hsuits : Node.Suits form (m :: ns))
    (hk : ∀ span, K (.node form span (m :: ns))) :
    Ends (node start form (m :: ns)) c₄ fun n c' => c₁.Beyond c' ∧ Stands K start n c' := by
  obtain ⟨hlo, hlt, hhi⟩ := hm.laid.row.sits m List.mem_cons_self hp
  have hgap := hc₁.gap
  have hhere := h₂.here
  have hstop := h₄.past
  have hpast := hend.past
  refine node_ends ⟨hend, stands_node ?_ (Nat.le_refl _) (by omega) (hk _)⟩
  refine hm.laid.wellPlaced_cons hns.laid hwhole hsuits (fun n hn => ?_) (Nat.le_refl _) (by omega)
    (by omega) (by omega) hstop
  rcases List.mem_cons.mp hn with rfl | hn
  · exact Free.free n hm.kind
  · exact hns.free n hn

/-- A node over a first child, a token, the other children and perhaps more tokens. -/
theorem node_first {K₁ K₂ : Node → Prop} [Free K₁] [Free K₂] {m : Node} {c₁ c₂ c₃ c₄ : Cursor}
    (hm : Reads K₁ c₀ m c₁) (hp : m.isAbsent = false) (h₂ : c₁.Beyond c₂)
    (hns : ReadsAll K₂ c₂ ns c₃) (h₄ : c₃.Onward c₄) (hwhole : form.isWhole = true)
    (hsuits : Node.Suits form (m :: ns)) (hk : ∀ span, K (.node form span (m :: ns))) :
    Ends (node c₀.here.offset form (m :: ns)) c₄ (Reads K c₀) :=
  have hc₁ := hm.beyond.sound
  (node_cons hm.stands hp hc₁ (h₂.onward hc₁) hns h₄ (h₂.then (hns.onward.trans h₄)) hwhole
    hsuits hk).mono fun _ _ h => ⟨hm.beyond.then (h.1.onward hc₁), h.2⟩

/-- A node over a first child and perhaps more, of higher rank than the child. -/
theorem node_headed {K₁ K₂ : Node → Prop} [Free K₁] [Free K₂] {m : Node} {c₁ c₂ c₃ c₄ : Cursor}
    (hm : Reads K₁ c₀ m c₁) (hrank : m.form.rank < form.rank) (h₂ : c₁.Onward c₂)
    (hns : ReadsAll K₂ c₂ ns c₃) (h₄ : c₃.Onward c₄) (hwhole : form.isWhole = true)
    (hsuits : Node.Suits form (m :: ns)) (hk : ∀ span, K (.node form span (m :: ns))) :
    Ends (node c₀.here.offset form (m :: ns)) c₄ (Reads K c₀) := by
  have hon := h₂.trans (hns.onward.trans h₄)
  have hpast := hm.beyond.past
  have hgap := hm.beyond.sound.gap
  have hhere := h₂.here
  refine node_reads (hm.beyond.then hon) ?_ (hk _)
  refine hm.stands.laid.wellPlaced_headed hns.laid hwhole hsuits (fun n hn => ?_) hrank
    (Nat.le_refl _) (by omega) (by omega) hon.past h₄.past
  rcases List.mem_cons.mp hn with rfl | hn
  · exact Free.free n hm.stands.kind
  · exact hns.free n hn

/-- A single token as a part. -/
theorem leaf_reads (hc : c.Sound) (hl : c.lexeme ≠ .finish) (hleaf : form.isLeaf = true)
    (hform : isUpTo top form = true) : Ends (leaf form) c (Reads (IsPart top) c) :=
  leaf_ends hc hl fun _ hb =>
    ⟨hb, stands_node (Node.wellPlaced_leaf hleaf) (Nat.le_refl _) hb.past (isPart_node hform)⟩

/-- A single token as a value. -/
theorem leaf_readsValue (hc : c.Sound) (hl : c.lexeme ≠ .finish) (hleaf : form.isLeaf = true)
    (hclosed : form.encloses [] = true) (hform : isUpTo 2 form = true) :
    Ends (leaf form) c (Reads IsValue c) :=
  leaf_ends hc hl fun _ hb =>
    ⟨hb, stands_node (Node.wellPlaced_leaf hleaf) (Nat.le_refl _) hb.past
      ⟨isPart_node hform, (Node.isClosed_node ..).trans hclosed⟩⟩

-- ============================================================ repetition

/-- Items up to a stop. -/
theorem many_readsAll {stop : Parse Bool} {item : Parse Node} (hstop : Looks stop)
    (hitem : ∀ {c}, c.Sound → stop c = some (false, c) →
      Ends item c fun n c' => ReadsAll K c [n] c') (fuel : Nat) (hc : c.Sound) :
    Ends (many stop item fuel) c (ReadsAll K c) := by
  induction fuel generalizing c with
  | zero => exact ends_failure
  | succ fuel ih =>
      intro ns c' h
      obtain ⟨⟨b, c₁⟩, hb, hrest⟩ := Option.bind_eq_some_iff.mp h
      obtain rfl := hstop c b c₁ hb
      refine (ends_ite (fun _ => ends_pure (readsAll_nil hc)) fun hfalse => ?_) ns c' hrest
      subst hfalse
      refine (hitem hc hb).bind fun n c₂ hn => ?_
      refine (ih hn.onward.sound).bind fun more c₃ hmore => ends_pure ?_
      exact hn.append hn.onward.sound.onward hmore

/-- The first item is read if it is not time to stop. -/
theorem many_ne_nil {stop : Parse Bool} {item : Parse α} {fuel : Nat}
    (h : stop c = some (false, c)) : Ends (many stop item fuel) c fun ns _ => ns ≠ [] := by
  cases fuel with
  | zero => exact ends_failure
  | succ fuel =>
      refine ends_of_eq h (ends_ite (fun hb => by cases hb) fun _ => ?_)
      intro ns c' hns
      obtain ⟨⟨a, c₁⟩, -, hrest⟩ := Option.bind_eq_some_iff.mp hns
      obtain ⟨⟨more, c₂⟩, -, hrest⟩ := Option.bind_eq_some_iff.mp hrest
      obtain ⟨rfl, -⟩ : a :: more = ns ∧ c₂ = c' := Prod.mk.inj (Option.some.inj hrest)
      exact List.cons_ne_nil a more

/-- Items between commas. -/
theorem listed_readsAll {close : Mark} {item : Parse Node}
    (hitem : ∀ {c}, c.Sound → Ends item c fun n c' => ReadsAll K c [n] c') (fuel : Nat)
    (hc : c.Sound) : Ends (listed close item fuel) c fun r c' => ReadsAll K c r.1 c' := by
  induction fuel generalizing c with
  | zero => exact ends_failure
  | succ fuel ih =>
      refine ends_atMark (ends_ite (fun _ => ends_pure (readsAll_nil hc)) fun _ => ?_)
      refine (hitem hc).bind fun n c₁ hn => ?_
      refine ends_atMark (ends_ite (fun _ => ends_pure hn) fun _ => ?_)
      refine (mark_ends .comma hn.onward.sound).bind fun _ c₂ hcomma => ?_
      have hon := hcomma.onward hn.onward.sound
      refine ends_atMark (ends_ite (fun _ => ends_pure ?_) fun _ => ?_)
      · exact ⟨hn.onward.trans hon, hn.laid.mono (Nat.le_refl _) hon.past, hn.kinds⟩
      · refine (ih hcomma.sound).bind fun r c₃ hmore => ends_pure ?_
        exact hn.append hon hmore

end

end Parse

end Graft
