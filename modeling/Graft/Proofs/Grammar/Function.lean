import Graft.Grammar.Function
import Graft.Proofs.Grammar.Pattern
/-!
Functions, methods and classes stand where they were read.

There is one theorem for each reader. What distinguishes these nodes from other values is what they
may hold: the parameters and the body of a function are no declarators
(`signatureAndBody_readsAll`), and a member of an object or of a class introduces nothing around it,
for its key introduces nothing and all else is inside of a scope of its own (`isMember_method`).

The word before a member may be its key, or say of which kind the member is. The readers decide by
what follows and never go back over what they have read (`modifier_ends`, `methodHead_ends`).
-/
namespace Graft

namespace Parse

variable {r : Rules} {s : Setting} {c : Cursor}

-- ============================================================== values

/-- Several values as one. -/
theorem sequence_reads {K : Node → Prop} {c₀ : Cursor} {ns : List Node} {c' : Cursor}
    (h : ReadsAll IsValue c₀ ns c') (hb : c₀.Beyond c') (hlen : 2 ≤ ns.length)
    (hk : ∀ span, K (.node .sequence span ns)) :
    Ends (node c₀.here.offset .sequence ns) c' (Reads K c₀) :=
  node_reads hb (h.laid.wellPlaced_many (fun n hn => (h.kinds n hn).present) hlen rfl (suits rfl)
    h.free (Nat.le_refl _) (Nat.le_refl _)) (hk _)

theorem notAtComma_eq (c : Cursor) : (do return !(← atMark .comma) : Parse Bool) c
    = some (!(c.lexeme == .mark .comma), c) := rfl

/-- Items with a comma before each of them. -/
theorem afterCommas_readsAll {K : Node → Prop} {item : Parse Node}
    (hitem : ∀ {c : Cursor}, c.Sound → Ends item c (Reads K c)) (fuel : Nat) (hc : c.Sound) :
    Ends (many (do return !(← atMark .comma)) (do next; item) fuel) c (ReadsAll K c) := by
  refine many_readsAll ?_ ?_ fuel hc
  · intro c b c' h
    rw [notAtComma_eq] at h
    exact (Prod.mk.inj (Option.some.inj h)).2.symm
  · intro c hc hgo
    have hl : c.lexeme ≠ .finish := by
      rw [notAtComma_eq] at hgo
      have h : (c.lexeme == .mark .comma) = true := by simpa using hgo
      exact Lexeme.ne_finish_of_mark h
    refine (next_ends hc hl).bind fun _ c₁ h₁ => (hitem h₁.sound).mono fun n c₂ h₂ => ?_
    have h := h₂.all h₁.sound
    exact ⟨(h₁.onward hc).trans h.onward, h.laid.mono (h₁.onward hc).here (Nat.le_refl _),
      h.kinds⟩

/-- Values between commas are read as one value. -/
theorem expression_reads (hr : r.Sound) (hc : c.Sound) :
    Ends (expression r s) c (Reads IsValue c) := by
  unfold expression
  refine ends_position ((hr.assignment s hc).bind fun first c₁ h₁ => ?_)
  refine ends_atMark (ends_ite (fun hcomma => ?_) fun _ => ends_pure h₁)
  refine ((afterCommas_readsAll (hr.assignment s) r.fuel h₁.beyond.sound).and
    (many_ne_nil ?_)).bind fun more c₂ h₂ => ?_
  · rw [notAtComma_eq, hcomma]
    rfl
  · obtain ⟨hmore, hne⟩ := h₂
    have hall := (h₁.all hc).append h₁.beyond.sound.onward hmore
    refine sequence_reads hall (h₁.beyond.then hmore.onward) ?_ fun _ => ?_
    · cases more with
      | nil => exact absurd rfl hne
      | cons m more => simp
    · exact isValue_node rfl rfl fun k hk => (hall.kinds k hk).closed

-- ============================================================== bodies

/-- A statement that turns out to be a directive is read as one. -/
theorem asDirective?_reads {raw : Option String} {start : Nat} {n d : Node} {c' : Cursor}
    (hn : Reads (IsPart 4) c n c') (h : n.asDirective? raw start = some d) :
    Reads (IsPart 4) c d c' := by
  unfold Node.asDirective? at h
  split at h
  case h_1 span units inner ks =>
    split at h
    · obtain ⟨text, -, rfl⟩ := Option.map_eq_some_iff.mp h
      exact ⟨hn.beyond, hn.stands.laid.replace hn.stands.kind.present rfl (Node.wellPlaced_leaf rfl),
        isPart_node rfl⟩
    · cases h
  case h_2 => cases h

/-- Directives and statements are read one after the other, up to where the reader is told to
stop. -/
theorem directivesAndStatements_readsAll (hr : r.Sound) {stop : Parse Bool}
    (hstop : Looks stop) (expecting : Bool) (fuel : Nat) (hc : c.Sound) :
    Ends (directivesAndStatements r s stop expecting fuel) c (ReadsAll (IsPart 4) c) := by
  induction fuel generalizing c expecting with
  | zero =>
      unfold directivesAndStatements
      exact ends_failure
  | succ fuel ih =>
      unfold directivesAndStatements
      refine hstop.bind fun b => ends_ite (fun _ => ends_pure (readsAll_nil hc)) fun _ => ?_
      refine ends_position (ends_peek ((hr.statement s _ hc).bind fun statement c₁ h₁ => ?_))
      split
      case h_1 directive heq =>
        have hd : Reads (IsPart 4) c directive c₁ := by
          cases expecting with
          | true => exact asDirective?_reads h₁ heq
          | false => cases heq
        refine (ih true h₁.beyond.sound).bind fun more c₂ h₂ => ends_pure ?_
        exact (hd.all hc).append h₁.beyond.sound.onward h₂
      case h_2 =>
        refine (ih false h₁.beyond.sound).bind fun more c₂ h₂ => ends_pure ?_
        exact (h₁.all hc).append h₁.beyond.sound.onward h₂

/-- A body is read between its braces. -/
theorem functionBody_reads (hr : r.Sound) (hc : c.Sound) :
    Ends (functionBody r s) c (Reads (IsPart 5) c) := by
  unfold functionBody
  refine ends_position ((mark_ends _ hc).bind fun _ c₁ h₁ => ?_)
  refine (directivesAndStatements_readsAll hr (looks_atMark _) _ _ h₁.sound).bind
    fun parts c₂ h₂ => ?_
  refine (mark_ends _ h₂.onward.sound).bind fun _ c₃ h₃ => ?_
  exact node_after h₁ h₂ (h₃.onward h₂.onward.sound) rfl (suits rfl) fun _ => isPart_node rfl

/-- Parameters and body are read one after the other, and neither is a declarator. -/
theorem signatureAndBody_readsAll (hr : r.Sound) (flags : FunctionFlags) (hc : c.Sound) :
    Ends (signatureAndBody r flags) c fun p c' =>
      c.Beyond c' ∧ ReadsAll Any c [p.1, p.2] c' := by
  unfold signatureAndBody
  refine (parameters_reads hr hc).bind fun params c₁ h₁ => ?_
  refine (functionBody_reads hr h₁.beyond.sound).bind fun body c₂ h₂ => ends_pure ?_
  exact ⟨h₁.beyond.then (h₂.beyond.onward h₁.beyond.sound),
    (h₁.any hc).append h₁.beyond.sound.onward (h₂.any h₁.beyond.sound)⟩

/-- A single word, or nothing. -/
def IsWord (n : Node) : Prop := n.form.isWord = true

instance : Free IsWord := by
  refine ⟨fun n h => ?_⟩
  unfold IsWord Form.isWord at h
  split at h
  case h_5 => cases h
  all_goals
    rename_i hform
    rw [hform]
    exact Nat.lt_of_sub_eq_succ rfl

theorem ReadsAll.any {K : Node → Prop} [Free K] {ns : List Node} {c' : Cursor}
    (h : ReadsAll K c ns c') : ReadsAll Any c ns c' :=
  h.imp Free.free

/-- A name, or nothing. -/
theorem optionalName_readsAll {b : Bool} (hc : c.Sound) {α : Type} {f : Node → Parse α}
    {Q : α → Cursor → Prop}
    (hf : ∀ name c', ReadsAll IsWord c [name] c' → Ends (f name) c' Q) :
    Ends (if b = true then bindingName s >>= f else pure Node.absent >>= f) c Q :=
  ends_choose (fun _ => (bindingName_reads hc).mono fun _ _ h => (h.imp fun hn => hn.word).all hc)
    (fun _ => ends_pure (readsAll_absent (K := IsWord) hc rfl)) hf

/-- A function as a value is read as one. -/
theorem functionValue_reads (hr : r.Sound) (hc : c.Sound) :
    Ends (functionValue r) c (Reads IsValue c) := by
  unfold functionValue
  refine ends_position ((eatWord_ends _ hc).bind fun isAsync c₁ h₁ => ?_)
  refine (keyword_ends _ h₁.onward.sound).bind fun _ c₂ h₂ => ?_
  refine (eatMark_ends _ h₂.sound).bind fun isGenerator c₃ h₃ => ?_
  have hb : c.Beyond c₃ := (h₁.onward.beyond h₂).then h₃.onward
  dsimp only
  refine ends_atName (optionalName_readsAll h₃.onward.sound fun name c₄ h₄ => ?_)
  refine (signatureAndBody_readsAll hr _ h₄.onward.sound).bind fun p c₅ h₅ => ?_
  obtain ⟨params, body⟩ := p
  exact node_after hb (h₄.any.append h₄.onward.sound.onward h₅.2) h₅.1.sound.onward rfl (suits rfl)
    fun _ => ⟨isPart_node rfl, rfl⟩

/-- A function as a declaration is read as a statement, without a name where none is needed. -/
theorem functionDeclaration_reads (hr : r.Sound) (needsName : Bool) (hc : c.Sound) :
    Ends (functionDeclaration r s needsName) c (Reads (IsPart 4) c) := by
  unfold functionDeclaration
  refine ends_position ((eatWord_ends _ hc).bind fun isAsync c₁ h₁ => ?_)
  refine (keyword_ends _ h₁.onward.sound).bind fun _ c₂ h₂ => ?_
  refine (eatMark_ends _ h₂.sound).bind fun isGenerator c₃ h₃ => ?_
  have hb : c.Beyond c₃ := (h₁.onward.beyond h₂).then h₃.onward
  dsimp only
  refine ends_atName (optionalName_readsAll h₃.onward.sound fun name c₄ h₄ => ?_)
  refine (signatureAndBody_readsAll hr _ h₄.onward.sound).bind fun p c₅ h₅ => ?_
  obtain ⟨params, body⟩ := p
  exact node_after hb (h₄.any.append h₄.onward.sound.onward h₅.2) h₅.1.sound.onward rfl (suits rfl)
    fun _ => isPart_node rfl

-- ============================================================= methods

/-- A word before a member is read as such only if what follows allows for it. -/
theorem modifier_ends (w : String) (follow : Parse Bool) (hc : c.Sound) :
    Ends (modifier w follow) c (Eats c) := by
  unfold modifier
  refine ends_atWord (ends_ite (fun _ => ends_pure (eats_false hc)) fun hword => ?_)
  have hl : c.lexeme.isTheWord w = true := by simpa using hword
  refine (looks_ahead _).bind fun b => ends_ite (fun _ => ?_) fun _ => ends_pure (eats_false hc)
  exact (next_ends hc (Lexeme.ne_finish_of_isTheWord hl)).bind
    fun _ _ h => ends_pure (eats_true hc h)

/-- What stands before a method of an object does not go back. -/
theorem methodHead_ends (hc : c.Sound) : Ends methodHead c fun _ c' => c.Onward c' := by
  unfold methodHead
  refine (modifier_ends _ _ hc).bind fun isAsync c₁ h₁ => ?_
  refine (eatMark_ends _ h₁.onward.sound).bind fun isGenerator c₂ h₂ => ?_
  have h₁₂ := h₁.onward.trans h₂.onward
  refine ends_ite (fun _ => ends_pure h₁₂) fun _ => ?_
  refine (modifier_ends _ _ h₂.onward.sound).bind fun isGetter c₃ h₃ => ?_
  refine ends_ite (fun _ => ends_pure (h₁₂.trans h₃.onward)) fun _ => ?_
  refine (modifier_ends _ _ h₃.onward.sound).bind fun isSetter c₄ h₄ => ?_
  have h₁₄ := h₁₂.trans (h₃.onward.trans h₄.onward)
  exact ends_ite (fun _ => ends_pure h₁₄) fun _ => ends_pure h₁₄

/-- A member of an object. -/
structure IsMember (n : Node) : Prop extends IsEntry n where
  kind : n.form.isObjectEntry = true

instance : Free IsMember := ⟨fun _ h => free_of_rank (by decide) h.rank⟩

/-- A method introduces nothing around it if its key does not. -/
theorem isMember_method {kind : MethodKind} {flags : FunctionFlags} {isComputed isStatic : Bool}
    {span : Span} {key : Node} {ns : List Node} (h : key.isClosed = true) :
    IsMember (.node (.method kind flags isComputed isStatic) span (key :: ns)) := by
  refine ⟨⟨?_, Nat.le_add_left 1 2⟩, rfl⟩
  rw [Node.isClosed_node]
  exact h

/-- A method after its key. -/
theorem methodAfterKey_stands (hr : r.Sound) {head : MethodHead} {isComputed isStatic : Bool}
    {key : Node} {start : Nat} (hkey : Stands IsValue start key c) (hc : c.Sound) :
    Ends (methodAfterKey r start head isComputed isStatic key) c fun n c' =>
      c.Beyond c' ∧ Stands IsMember start n c' := by
  unfold methodAfterKey
  refine (signatureAndBody_readsAll hr _ hc).bind fun p c₁ h₁ => ?_
  obtain ⟨params, body⟩ := p
  refine ends_unless fun _ => ?_
  exact node_cons hkey hkey.kind.present hc hc.onward h₁.2 h₁.1.sound.onward h₁.1 rfl (suits rfl)
    fun _ => isMember_method hkey.kind.closed

/-- A member over nodes that introduce nothing. -/
theorem isMember_node {form : Form} {span : Span} {ns : List Node} (hrank : form.rank ≤ 3)
    (hform : form.isObjectEntry = true) (h : ∀ n ∈ ns, n.isClosed = true) :
    IsMember (.node form span ns) :=
  ⟨⟨Node.isClosed_of_all (fun _ hf => by subst hf; cases hform) h, hrank⟩, hform⟩

/-- A property that is only a name, which is read, and perhaps a default. -/
theorem shorthandMember_reads (hr : r.Sound) {name : String} {span : Span} {c₀ : Cursor}
    (hname : Stands IsValue c₀.here.offset (.node (.identifier name) span []) c)
    (hb : c₀.Beyond c) :
    Ends (do
      if ← eatMark (.assign .plain) then
        let default ← r.assignment s.enclosed
        node c₀.here.offset .defaultedProperty [.node (.identifier name) span [], default]
      else
        node c₀.here.offset (.property false true)
          [.node (.key name) span [], .node (.identifier name) span []] : Parse Node) c
      (Reads IsMember c₀) := by
  have hc := hb.sound
  refine ends_ifEaten (eatMark_ends _ hc) (fun c₁ h₁ => ?_) ?_
  · refine (hr.assignment _ h₁.sound).bind fun default c₂ h₂ => ?_
    have hend := h₁.then (h₂.beyond.onward h₁.sound)
    have hgap := hc.gap
    have hpast := hb.past
    have hhere := (h₁.onward hc).here
    have hlast := hend.past
    refine node_reads (hb.then (hend.onward hc)) ?_ (isMember_node (Nat.le_refl 3) rfl
      fun k hk => ?_)
    · exact hname.laid.wellPlaced_defaultedProperty h₂.stands.laid rfl
        (Free.free default h₂.stands.kind) (Nat.le_refl _) (by omega) (by omega) (by omega)
        (Nat.le_refl _)
    · rcases List.mem_cons.mp hk with rfl | hk
      · rfl
      · exact List.mem_singleton.mp hk ▸ h₂.stands.kind.closed
  · refine node_reads hb ?_ ⟨⟨rfl, Nat.le_refl 3⟩, rfl⟩
    exact hname.laid.wellPlaced_shorthandProperty (Nat.le_succ 1) (Node.wellPlaced_leaf rfl) rfl
      (Nat.le_refl _) (Nat.le_refl _)

/-- A member of an object is read as an entry of it. -/
theorem objectMember_reads (hr : r.Sound) (hc : c.Sound) :
    Ends (objectMember r s) c (Reads IsMember c) := by
  unfold objectMember
  refine ends_position (ends_ifEaten (eatMark_ends _ hc) (fun c₁ h₁ => ?_) ?_)
  · -- `...value`
    refine (hr.assignment _ h₁.sound).bind fun value c₂ h₂ => ?_
    exact node_after h₁ (h₂.all h₁.sound) h₂.beyond.sound.onward rfl (suits rfl) fun _ =>
      isMember_node (by decide) rfl fun k hk =>
        List.mem_singleton.mp hk ▸ h₂.stands.kind.closed
  · -- the words before a name say whether a method follows; then comes the key
    refine (methodHead_ends hc).bind fun head c₁ h₁ => ends_atName ?_
    refine (propertyKey_reads hr h₁.sound).bind fun key c₂ h₂ => ?_
    obtain ⟨key, isComputed⟩ := key
    obtain ⟨hreads, hbare, hword⟩ := h₂
    have hkey : Reads IsValue c key c₂ :=
      ⟨h₁.beyond hreads.beyond, hreads.stands.mono h₁.here (Nat.le_refl _)⟩
    have hc₂ := hkey.beyond.sound
    dsimp only
    refine ends_atMark (ends_ite (fun _ => ?_) fun _ => ?_)
    · -- a method, a value after a colon, or a shorthand
      exact (methodAfterKey_stands hr hkey.stands hc₂).mono
        fun _ _ h => ⟨hkey.beyond.then (h.1.onward hc₂), h.2⟩
    · refine ends_ifEaten (eatMark_ends _ hc₂) (fun c₃ h₃ => ?_) ?_
      · refine (hr.assignment _ h₃.sound).bind fun value c₄ h₄ => ?_
        refine node_first hkey hkey.stands.kind.present h₃ (h₄.all h₃.sound)
          h₄.beyond.sound.onward rfl (Node.suits_property hbare) fun _ =>
            isMember_node (Nat.le_refl 3) rfl fun k hk => ?_
        rcases List.mem_cons.mp hk with rfl | hk
        · exact hkey.stands.kind.closed
        · exact List.mem_singleton.mp hk ▸ h₄.stands.kind.closed
      · split
        -- only a name that can be a variable stands for its own value
        case h_1 name span ks =>
          refine ends_unless fun hnamed => ?_
          have hshown : c₁.lexeme.isUsable s = true := by simpa using hnamed
          obtain ⟨text, escaped, hl⟩ := Lexeme.exists_name_of_isUsable hshown
          obtain ⟨_, heq⟩ := hword text escaped hl
          cases heq
          have hname : Stands IsValue c.here.offset (.node (.identifier name) span []) c₂ :=
            ⟨hkey.stands.laid.replace rfl rfl
              (Node.wellPlaced_identifier (h₁.sound.proper name escaped hl)),
              ⟨isPart_node rfl, rfl⟩⟩
          exact shorthandMember_reads hr hname hkey.beyond (s := s)
        case h_2 => exact ends_failure

-- ============================================================= classes

/-- A value after a mark, or nothing. -/
theorem optionalValue_readsAll {b : Bool} {p : Parse Node} {c₀ : Cursor} {α : Type}
    {f : Node → Parse α} {Q : α → Cursor → Prop} (hb : Eats c₀ b c)
    (hp : c.Sound → Ends p c (Reads IsValue c))
    (hf : ∀ value c', ReadsAll IsEntry c [value] c' → Ends (f value) c' Q) :
    Ends (if b = true then p >>= f else pure Node.absent >>= f) c Q :=
  ends_choose
    (fun _ => (hp hb.onward.sound).mono
      fun _ _ h => (h.imp fun hv => hv.isEntry).all hb.onward.sound)
    (fun _ => ends_pure (readsAll_absent hb.onward.sound isEntry_absent)) hf

/-- A field has a key, and a value or nothing behind it. -/
theorem fieldAfterKey_reads (hr : r.Sound) {isComputed isStatic : Bool} {key : Node}
    {c₀ : Cursor} (hkey : Reads IsValue c₀ key c) :
    Ends (fieldAfterKey r c₀.here.offset isComputed isStatic key) c (Reads IsEntry c₀) := by
  unfold fieldAfterKey
  have hc := hkey.beyond.sound
  refine ends_unless fun _ => (eatMark_ends _ hc).bind fun b c₁ h₁ => ?_
  refine optionalValue_readsAll h₁ (expression_reads hr) fun value c₂ h₂ => ?_
  refine (endStatement_ends h₂.onward.sound).bind fun _ c₃ h₃ => ?_
  refine node_headed hkey (Nat.lt_succ_of_le hkey.stands.kind.rank) h₁.onward h₂ h₃ rfl
    (suits rfl) fun _ => ⟨Node.isClosed_of_all (fun _ h => by cases h) fun k hk => ?_, Nat.le_refl 3⟩
  rcases List.mem_cons.mp hk with rfl | hk
  · exact hkey.stands.kind.closed
  · exact (h₂.kinds k hk).closed

/-- The key of a member of a class is a value. -/
theorem classKey_reads (hr : r.Sound) (hc : c.Sound) :
    Ends (classKey r s) c fun key c' => Reads IsValue c key.1 c' := by
  unfold classKey
  refine ends_peek ?_
  split
  case h_1 name hl =>
    refine ends_unless fun _ => ?_
    exact (leaf_readsValue hc (by simp [hl]) rfl rfl rfl).bind fun _ _ h => ends_pure h
  case h_2 => exact (propertyKey_reads hr hc).mono fun _ _ h => h.reads

/-- A member of a class is read as an entry of it. -/
theorem classMember_reads (hr : r.Sound) (hc : c.Sound) :
    Ends (classMember r s) c (Reads IsEntry c) := by
  unfold classMember
  refine ends_position ((modifier_ends _ _ hc).bind fun isStatic c₁ h₁ => ?_)
  have hc₁ := h₁.onward.sound
  refine ends_atMark (ends_ite (fun hbrace => ?_) fun _ => ?_)
  · have hl : c₁.lexeme ≠ .finish := by
      simp only [Bool.and_eq_true] at hbrace
      exact Lexeme.ne_finish_of_mark hbrace.2
    refine (next_ends hc₁ hl).bind fun _ c₂ h₂ => ?_
    dsimp only
    refine (many_readsAll (looks_atMark _) (fun hc _ => (hr.statement _ _ hc).mono
      fun _ _ h => h.all hc) r.fuel h₂.sound).bind fun parts c₃ h₃ => ?_
    refine (mark_ends _ h₃.onward.sound).bind fun _ c₄ h₄ => ?_
    exact node_after (h₁.onward.beyond h₂) h₃ (h₄.onward h₃.onward.sound) rfl (suits rfl)
      fun _ => ⟨rfl, Nat.le_add_left 1 2⟩
  · refine (methodHead_ends hc₁).bind fun head c₂ h₂ => ?_
    refine (classKey_reads hr h₂.sound).bind fun key c₃ h₃ => ?_
    obtain ⟨key, isComputed⟩ := key
    have h₁₂ := h₁.onward.trans h₂
    have hkey : Reads IsValue c key c₃ :=
      ⟨h₁₂.beyond h₃.beyond, h₃.stands.mono h₁₂.here (Nat.le_refl _)⟩
    have hc₃ := hkey.beyond.sound
    have hmethod : ∀ head isStatic, Ends
        (methodAfterKey r c.here.offset head isComputed isStatic key) c₃ (Reads IsEntry c) :=
      fun head isStatic => (methodAfterKey_stands hr hkey.stands hc₃).mono
        fun _ _ h => ⟨hkey.beyond.then (h.1.onward hc₃), h.2.imp fun hn => hn.toIsEntry⟩
    dsimp only
    refine ends_atMark (ends_ite (fun _ => ?_) fun _ => fieldAfterKey_reads hr hkey)
    refine ends_ite (fun _ => ends_unless fun _ => hmethod _ _) fun _ => ?_
    exact ends_ite (fun _ => ends_unless fun _ => hmethod _ _) fun _ => hmethod _ _

/-- The members of a class are read one by one, up to the closing brace. -/
theorem classMembers_readsAll (hr : r.Sound) (fuel : Nat) (hc : c.Sound) :
    Ends (classMembers r s fuel) c (ReadsAll IsEntry c) := by
  induction fuel generalizing c with
  | zero =>
      unfold classMembers
      exact ends_failure
  | succ fuel ih =>
      unfold classMembers
      refine ends_atMark (ends_ite (fun _ => ends_pure (readsAll_nil hc)) fun _ => ?_)
      refine ends_ifEaten (eatMark_ends _ hc) (fun c₁ h₁ => ?_) ?_
      · refine (ih h₁.sound).mono fun ns c₂ h₂ => ?_
        have hon := h₁.onward hc
        exact ⟨hon.trans h₂.onward, h₂.laid.mono hon.here (Nat.le_refl _), h₂.kinds⟩
      · refine (classMember_reads hr hc).bind fun m c₁ h₁ => ?_
        refine (ih h₁.beyond.sound).bind fun more c₂ h₂ => ends_pure ?_
        exact (h₁.all hc).append h₁.beyond.sound.onward h₂

/-- What the reader of a class gives: its children after the word `class`. The first one is its name
or nothing, and the others introduce nothing. -/
structure ReadsClass (c : Cursor) (ns : List Node) (c' : Cursor) : Prop where
  beyond : c.Beyond c'
  wellPlaced : ∀ form, form.isWhole = true → Node.Suits form ns →
    Node.WellPlaced (.node form ⟨c.here.offset, c'.previousStop⟩ ns)
  tail : ∃ name others, ns = name :: others ∧ name.form.isWord = true
    ∧ ∀ n ∈ others, n.isClosed = true

/-- A class has a name or none, a parent or none, and members. -/
theorem classParts_reads (hr : r.Sound) (hc : c.Sound) :
    Ends (classParts r s) c (ReadsClass c) := by
  unfold classParts
  refine (keyword_ends _ hc).bind fun _ c₁ h₁ => ends_atName (ends_atWord ?_)
  dsimp only
  refine optionalName_readsAll h₁.sound fun name c₂ h₂ => ?_
  refine (eatKeyword_ends _ h₂.onward.sound).bind fun b c₃ h₃ => ?_
  refine optionalValue_readsAll h₃ (hr.postfixed s) fun base c₄ h₄ => ?_
  refine (mark_ends _ h₄.onward.sound).bind fun _ c₅ h₅ => ?_
  refine (classMembers_readsAll hr _ h₅.sound).bind fun members c₆ h₆ => ?_
  refine (mark_ends _ h₆.onward.sound).bind fun _ c₇ h₇ => ends_pure ?_
  have hothers := h₄.append (h₅.onward h₄.onward.sound) h₆
  have hall := h₂.any.append h₃.onward hothers.any
  have hend := h₇.onward h₆.onward.sound
  refine ⟨h₁.then (hall.onward.trans hend), fun form hwhole hsuits => ?_,
    name, base :: members, rfl, h₂.kinds name List.mem_cons_self,
    fun n hn => (hothers.kinds n hn).closed⟩
  have hpast := h₁.past
  have hgap := h₁.sound.gap
  exact hall.laid.wellPlaced_node hwhole hsuits (fun _ => hall.free) (by omega) hend.past
    (.inl (by omega))

end Parse

end Graft
