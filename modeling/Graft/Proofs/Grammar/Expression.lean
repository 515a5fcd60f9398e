import Graft.Grammar.Expression
import Graft.Proofs.Grammar.Function
/-!
Values stand where they were read.

There is one theorem for each reader, in the order of the readers, and each one takes for granted
that the rules that the reader calls are sound (`Rules.Sound`).

- A reader that starts a value of its own gives a node over all the tokens that it has read
  (`primary_reads`, `unary_reads`).
- A reader that goes on after a value takes that value as standing between some start and the cursor
  (`Accessed`), and gives a longer one from the same start (`accesses_accessed`,
  `operators_stands`). The longer value covers the first one, so it has to be of higher rank than
  what starts with it, or to cover more text, which it does as it reads at least one token more.
- What an arrow function takes is read as a value first, if it is read as one at all, and a value in
  parentheses leaves no node behind. Neither changes a place (`Node.Remade`).
-/
namespace Graft

namespace Node

/-- What the marks of an arrow function say about it changes nothing about its body. -/
theorem remade_arrow {isAsync isExpression inert inert' parenthesized parenthesized' : Bool}
    {span : Span} {children : List Node} :
    (node (.arrow isAsync isExpression inert parenthesized) span children).Remade
      (node (.arrow isAsync isExpression inert' parenthesized') span children) := by
  refine remade_form rfl rfl (fun h => suits_arrow ?_) rfl rfl Nat.one_pos fun _ => rfl
  cases isExpression with
  | true => exact h.shape
  | false => trivial

/-- Marking a function as having no effect leaves its tree in place. -/
theorem remade_asInert (n : Node) : n.Remade n.asInert := by
  unfold asInert
  split
  · exact remade_form rfl rfl (fun _ => suits_of_isPlain rfl _) rfl rfl Nat.one_pos fun _ => rfl
  · exact remade_arrow
  · exact .refl _

/-- So does noting that it stood in parentheses. -/
theorem remade_asParenthesized (n : Node) : n.Remade n.asParenthesized := by
  unfold asParenthesized
  split
  · exact remade_form rfl rfl (fun _ => suits_of_isPlain rfl _) rfl rfl Nat.one_pos fun _ => rfl
  · exact remade_arrow
  · exact .refl _

/-- Marking the first call in a value leaves the tree of the value in place. -/
theorem remade_asPure (n : Node) : n.Remade n.asPure := by
  fun_induction asPure n with
  | case1 => exact remade_form rfl rfl (fun _ => suits_of_isPlain rfl _) rfl rfl Nat.one_pos fun _ => rfl
  | case2 => exact remade_form rfl rfl (fun _ => suits_of_isPlain rfl _) rfl rfl Nat.one_pos fun _ => rfl
  | case3 op s k ks ih => exact remade_child [] ih rfl (.inl rfl)
  | case4 op s k ks ih => exact remade_child [] ih rfl (.inl rfl)
  | case5 s k ks ih => exact remade_child [] ih rfl (.inl rfl)
  | case6 =>
      refine remade_child [] ?_ rfl (.inl rfl)
      exact remade_form rfl rfl (fun _ => suits_of_isPlain rfl _) rfl rfl Nat.one_pos fun _ => rfl
  | case7 => exact .refl _

end Node

namespace Parse

variable {r : Rules} {s : Setting} {c : Cursor}

theorem IsValue.remade {n m : Node} (h : IsValue n) (hm : n.Remade m) : IsValue m :=
  ⟨⟨(Prod.mk.inj hm.place).2.trans h.present, Nat.le_trans (Nat.le_of_eq hm.rank) h.rank⟩,
    hm.closed.trans h.closed⟩

/-- What is read and then remade in place was read in place. -/
theorem Reads.remade {n m : Node} {c' : Cursor} (h : Reads IsValue c n c') (hm : n.Remade m) :
    Reads IsValue c m c' :=
  ⟨h.beyond, h.stands.laid.replace h.stands.kind.present (Prod.mk.inj hm.place).1
    (hm.wellPlaced (h.stands.laid.wellPlaced n List.mem_cons_self)), h.stands.kind.remade hm⟩

-- ============================================================ lists

/-- What the reader of a template gives: values behind a first token. -/
structure ReadsParts (c : Cursor) (ns : List Node) (c' : Cursor) : Prop where
  values : ∃ c₁, c.Beyond c₁ ∧ ReadsAll IsValue c₁ ns c'

theorem asTemplate_ends (hc : c.Sound) :
    Ends (fun c => c.asTemplate?.map fun c => ((), c) : Parse Unit) c
      fun _ c' => c.Onward c' := by
  intro _ c' h
  obtain ⟨c₁, hc₁, heq⟩ := Option.map_eq_some_iff.mp h
  obtain rfl : c₁ = c' := (Prod.mk.inj heq).2
  exact Cursor.asTemplate?_onward hc hc₁

/-- The parts of a template are its texts and its values in turn. -/
theorem templateParts_reads (hr : r.Sound) (tagged : Bool) (fuel : Nat) (hc : c.Sound) :
    Ends (templateParts r s tagged fuel) c fun p c' => ReadsParts c p.2 c' := by
  induction fuel generalizing c with
  | zero =>
      unfold templateParts
      exact ends_failure
  | succ fuel ih =>
      unfold templateParts
      refine ends_peek ?_
      split
      case h_1 raw isLast hl =>
        refine ends_unless fun _ => ?_
        refine (next_ends hc (by simp [hl])).bind fun _ c₁ h₁ => ?_
        refine ends_ite (fun _ => ends_pure ⟨c₁, h₁, readsAll_nil h₁.sound⟩) fun _ => ?_
        refine (expression_reads hr h₁.sound).bind fun value c₂ h₂ => ?_
        refine ends_atMark (ends_unless fun _ => ?_)
        refine (asTemplate_ends h₂.beyond.sound).bind fun _ c₃ h₃ => ?_
        refine (ih h₃.sound).bind fun p c₄ h₄ => ?_
        obtain ⟨pieces, values⟩ := p
        obtain ⟨c₅, h₅, hvalues⟩ := h₄.values
        refine ends_pure ⟨c₁, h₁, ?_⟩
        exact (h₂.all h₁.sound).append (h₃.trans (h₅.onward h₃.sound)) hvalues
      case h_2 => exact ends_failure

/-- An argument or an element is a value, or a value that is spread. -/
theorem spreadable_reads (hr : r.Sound) (hc : c.Sound) :
    Ends (spreadable r s) c (Reads IsValue c) := by
  unfold spreadable
  refine ends_position (ends_ifEaten (eatMark_ends _ hc) (fun c₁ h₁ => ?_) (hr.assignment _ hc))
  refine (hr.assignment _ h₁.sound).bind fun value c₂ h₂ => ?_
  exact node_after h₁ (h₂.all h₁.sound) h₂.beyond.sound.onward rfl (suits rfl)
    fun _ => isValue_node rfl rfl fun k hk => List.mem_singleton.mp hk ▸ h₂.stands.kind.closed

/-- Arguments are values between parentheses, one after the other. -/
theorem arguments_reads (hr : r.Sound) (hc : c.Sound) :
    Ends (arguments r s) c fun ns c' => c.Beyond c' ∧ ReadsAll IsValue c ns c' := by
  unfold arguments
  refine (mark_ends _ hc).bind fun _ c₁ h₁ => ?_
  refine (listed_readsAll (fun hc => (spreadable_reads hr hc).mono fun _ _ h => h.all hc) r.fuel
    h₁.sound).bind fun p c₂ h₂ => ?_
  obtain ⟨values, comma⟩ := p
  refine (mark_ends _ h₂.onward.sound).bind fun _ c₃ h₃ => ends_pure ?_
  have hon := h₁.onward hc
  have hend := h₃.onward h₂.onward.sound
  exact ⟨h₁.then (h₂.onward.trans hend), hon.trans (h₂.onward.trans hend),
    h₂.laid.mono hon.here hend.past, h₂.kinds⟩

/-- To note a spread that is not at the end reads nothing but marks. -/
theorem noteLooseSpread_ends {start : Nat} {parts : List Node} {comma : Bool} (hc : c.Sound) :
    Ends (noteLooseSpread start parts comma) c fun _ c' => c.Onward c' := by
  unfold noteLooseSpread
  refine ends_ite (fun _ => ?_) fun _ => ends_pure hc.onward
  intro _ c' h
  obtain rfl := (Prod.mk.inj (Option.some.inj h)).2
  exact ⟨⟨hc.gap, hc.token, hc.progress, hc.proper⟩, Nat.le_refl _, Nat.le_refl _⟩

/-- A list of entries is a value. -/
theorem isValue_entries {form : Form} {span : Span} {ns : List Node} (h : isUpTo 2 form = true)
    (hentries : form.holdsEntries = true) (hns : ∀ n ∈ ns, IsEntry n) :
    IsValue (.node form span ns) :=
  ⟨isPart_node h, Node.isClosed_of_all (fun _ hf => by subst hf; cases hentries)
    fun n hn => (hns n hn).closed⟩

/-- An array is read as a value, with something absent for each element left out. -/
theorem arrayValue_reads (hr : r.Sound) (hc : c.Sound) :
    Ends (arrayValue r s) c (Reads IsValue c) := by
  unfold arrayValue
  refine ends_position ((mark_ends _ hc).bind fun _ c₁ h₁ => ?_)
  refine (listed_readsAll (K := IsEntry) (fun hc => ?_) r.fuel h₁.sound).bind fun p c₂ h₂ => ?_
  · refine ends_atMark (ends_ite (fun _ => ends_pure (readsAll_absent hc isEntry_absent))
      fun _ => ?_)
    exact (spreadable_reads hr hc).mono fun _ _ h => (h.imp fun hv => hv.isEntry).all hc
  · obtain ⟨elements, comma⟩ := p
    refine (mark_ends _ h₂.onward.sound).bind fun _ c₃ h₃ => ?_
    refine (noteLooseSpread_ends h₃.sound).bind fun _ c₄ h₄ => ?_
    exact node_after h₁ h₂ ((h₃.onward h₂.onward.sound).trans h₄) rfl
      (Node.suits_of_entries rfl (fun n hn => (h₂.kinds n hn).rank) nofun trivial)
      fun _ => isValue_entries rfl rfl h₂.kinds

/-- An object is read as a value. -/
theorem objectValue_reads (hr : r.Sound) (hc : c.Sound) :
    Ends (objectValue r s) c (Reads IsValue c) := by
  unfold objectValue
  refine ends_position ((mark_ends _ hc).bind fun _ c₁ h₁ => ?_)
  refine (listed_readsAll (fun hc => (objectMember_reads hr hc).mono fun _ _ h => h.all hc)
    r.fuel h₁.sound).bind fun p c₂ h₂ => ?_
  obtain ⟨members, comma⟩ := p
  refine (mark_ends _ h₂.onward.sound).bind fun _ c₃ h₃ => ?_
  refine (noteLooseSpread_ends h₃.sound).bind fun _ c₄ h₄ => ?_
  exact node_after h₁ h₂ ((h₃.onward h₂.onward.sound).trans h₄) rfl
    (Node.suits_of_entries rfl (fun n hn => (h₂.kinds n hn).rank) nofun
      fun n hn => (h₂.kinds n hn).kind)
    fun _ => isValue_entries rfl rfl fun n hn => (h₂.kinds n hn).toIsEntry

/-- Whoever reads a node goes on. -/
theorem ReadsAll.beyond {K : Node → Prop} {ns : List Node} {n : Node} {c' : Cursor}
    (h : ReadsAll K c ns c') (hn : n ∈ ns) (hp : n.isAbsent = false) : c.Beyond c' := by
  obtain ⟨h₁, h₂, h₃⟩ := h.laid.row.sits n hn hp
  exact ⟨h.onward.sound, by omega⟩

/-- What stands in parentheses is read in place, and the parentheses leave no node. -/
theorem parenthesized_reads (hr : r.Sound) (hc : c.Sound) :
    Ends (parenthesized r s) c (Reads IsValue c) := by
  unfold parenthesized
  refine (mark_ends _ hc).bind fun _ c₁ h₁ => ends_position ?_
  refine (listed_readsAll (fun hc => (hr.assignment _ hc).mono fun _ _ h => h.all hc)
    r.fuel h₁.sound).bind fun p c₂ h₂ => ?_
  obtain ⟨values, comma⟩ := p
  have hclose : ∀ {n c₃ c₄}, Reads IsValue c₁ n c₃ → c₃.Beyond c₄ → Reads IsValue c n c₄ := by
    intro n c₃ c₄ h h'
    have hon := h₁.onward hc
    have hend := h'.onward h.beyond.sound
    exact ⟨hon.beyond (h.beyond.then hend), h.stands.mono hon.here hend.past⟩
  refine ends_unless fun _ => ?_
  split
  case h_1 => exact ends_failure
  case h_2 value =>
    refine (mark_ends _ h₂.onward.sound).bind fun _ c₃ h₃ => ends_pure ?_
    have hvalue := h₂.kinds value List.mem_cons_self
    have hb := h₂.beyond List.mem_cons_self hvalue.present
    exact (hclose ⟨hb, h₂.laid, hvalue⟩ h₃).remade (Node.remade_asParenthesized value)
  case h_3 hnil hone =>
    have hlen : 2 ≤ values.length := by
      match values, hnil, hone with
      | [], hnil, _ => exact absurd rfl hnil
      | [value], _, hone => exact absurd rfl (hone value)
      | _ :: _ :: _, _, _ => simp
    obtain ⟨value, hvalue⟩ := List.exists_mem_of_length_pos (Nat.lt_of_lt_of_le Nat.two_pos hlen)
    have hb := h₂.beyond hvalue (h₂.kinds value hvalue).present
    refine (sequence_reads h₂ hb hlen fun _ => isValue_node rfl rfl fun k hk =>
      (h₂.kinds k hk).closed).bind fun whole c₃ h₃ => ?_
    exact (mark_ends _ h₃.beyond.sound).bind fun _ c₄ h₄ => ends_pure (hclose h₃ h₄)

-- ============================================================ accesses

/-- What a reader that goes on after a value gives: a value from the same start on, and whether it
is part of an optional chain. Such a part is a call or an access. -/
structure Accessed (start : Nat) (c : Cursor) (p : Node × Bool) (c' : Cursor) : Prop where
  onward : c.Onward c'
  stands : Stands IsValue start p.1 c'
  rank : p.2 = true → p.1.form.rank = 1

/-- A value around a first one, and the tokens that make it. -/
theorem node_around {form : Form} {start : Nat} {m : Node} {ns : List Node} {c₁ c₂ c₃ c₄ : Cursor}
    (hm : Stands IsValue start m c₁) (hc₁ : c₁.Sound) (h₂ : c₁.Onward c₂)
    (hns : ReadsAll IsValue c₂ ns c₃) (h₄ : c₃.Onward c₄) (hend : c₁.Beyond c₄)
    (hwhole : form.isWhole = true) (hword : form.isWord = false)
    (hsuits : Node.Suits form (m :: ns)) (hrank : form.rank = 1) :
    Ends (node start form (m :: ns)) c₄ fun n c' =>
      c₁.Beyond c' ∧ Stands IsValue start n c' ∧ n.form.rank = 1 := by
  refine (node_cons (K := fun n => IsValue n ∧ n.form.rank = 1) hm hm.kind.present hc₁ h₂ hns h₄
    hend hwhole hsuits fun span => ⟨isValue_node ?_ hword ?_, hrank⟩).mono
    fun n c' h => ⟨h.1, ⟨h.2.laid, h.2.kind.1⟩, h.2.kind.2⟩
  · simp [isUpTo, hrank]
  · intro k hk
    rcases List.mem_cons.mp hk with rfl | hk
    · exact hm.kind.closed
    · exact (hns.kinds k hk).closed

/-- A reader that may fail ends in what is done with what it gave, or in what is done without. -/
theorem ends_attempt {α β : Type} {p : Parse α} {f : Option α → Parse β}
    {P : α → Cursor → Prop} {Q : β → Cursor → Prop} (hp : Ends p c P)
    (hsome : ∀ a c', P a c' → Ends (f (some a)) c' Q) (hnone : Ends (f none) c Q) :
    Ends (attempt p >>= f) c Q := by
  intro b c' h
  obtain ⟨⟨result, c₁⟩, hattempt, hrest⟩ := Option.bind_eq_some_iff.mp h
  unfold attempt at hattempt
  split at hattempt
  case h_1 a c₂ heq =>
    obtain ⟨rfl, rfl⟩ := Prod.mk.inj (Option.some.inj hattempt)
    exact hsome a c₂ (hp a c₂ heq) b c' hrest
  case h_2 =>
    obtain ⟨rfl, rfl⟩ := Prod.mk.inj (Option.some.inj hattempt)
    exact hnone b c' hrest

/-- A row of accesses is put together from its start, each access around what stood before it. -/
theorem accesses_accessed (hr : r.Sound) (allowsChain : Bool) {start : Nat} (fuel : Nat)
    {value : Node} {chained : Bool} (hc : c.Sound) (hv : Stands IsValue start value c)
    (hrank : chained = true → value.form.rank = 1) :
    Ends (accesses r s allowsChain start fuel value chained) c (Accessed start c) := by
  induction fuel generalizing c value chained with
  | zero =>
      unfold accesses
      exact ends_failure
  | succ fuel ih =>
      unfold accesses
      extract_lets named keyed
      -- an access by name reads one word more, an access by key all up to the bracket; either
      -- covers the value and more text, so it may start with the value
      have hnamed : ∀ isOptional {c₁}, c.Onward c₁ → Ends (named isOptional) c₁ fun n c' =>
          c.Beyond c' ∧ Stands IsValue start n c' ∧ n.form.rank = 1 := by
        intro isOptional c₁ h₁
        have haround : ∀ {form : Form}, form.isWhole = true → form.isWord = false →
            form.isPlain = true → form.rank = 1 → c₁.lexeme ≠ .finish →
              Ends (next >>= fun _ => node start form [value])
              c₁ fun n c' => c.Beyond c' ∧ Stands IsValue start n c' ∧ n.form.rank = 1 := by
          intro form hwhole hword hplain hrank hl
          refine (next_ends h₁.sound hl).bind fun _ c₂ h₂ => ?_
          exact node_around hv hc (h₁.trans (h₂.onward h₁.sound)) (readsAll_nil h₂.sound)
            h₂.sound.onward (h₁.beyond h₂) hwhole hword (suits hplain) hrank
        refine ends_peek ?_
        split
        case h_1 name hl => exact haround rfl rfl rfl rfl (by simp [hl])
        case h_2 =>
          split
          case h_1 name hname =>
            refine haround rfl rfl rfl rfl fun hl => ?_
            rw [hl] at hname
            cases hname
          case h_2 => exact ends_failure
      have hkeyed : ∀ isOptional {c₁}, c.Onward c₁ → Ends (keyed isOptional) c₁ fun n c' =>
          c.Beyond c' ∧ Stands IsValue start n c' ∧ n.form.rank = 1 := by
        intro isOptional c₁ h₁
        refine (mark_ends _ h₁.sound).bind fun _ c₂ h₂ => ?_
        refine (expression_reads hr h₂.sound).bind fun key c₃ h₃ => ?_
        refine (mark_ends _ h₃.beyond.sound).bind fun _ c₄ h₄ => ?_
        have hend := h₄.onward h₃.beyond.sound
        exact node_around hv hc (h₁.trans (h₂.onward h₁.sound)) (h₃.all h₂.sound) hend
          (h₁.beyond (h₂.then ((h₃.beyond.onward h₂.sound).trans hend))) rfl rfl (suits rfl) rfl
      -- after any access the hypothesis takes over, from the longer value
      have hmore : ∀ {n c' chained'}, c.Beyond c' ∧ Stands IsValue start n c' ∧ n.form.rank = 1 →
          Ends (accesses r s allowsChain start fuel n chained') c' (Accessed start c) := by
        intro n c' chained' h
        refine (ih h.1.sound h.2.1 fun _ => h.2.2).mono fun p c₂ h₂ => ?_
        exact ⟨(h.1.onward hc).trans h₂.onward, h₂.stands, h₂.rank⟩
      have hdone : Accessed start c (value, chained) c := ⟨hc.onward, hv, hrank⟩
      refine ends_peek ?_
      split
      case h_1 hl =>
        refine (next_ends hc (by simp [hl])).bind fun _ c₁ h₁ => ?_
        exact (hnamed false (h₁.onward hc)).bind fun n c₂ h₂ => hmore h₂
      case h_2 hl => exact (hkeyed false hc.onward).bind fun n c₁ h₁ => hmore h₁
      -- a question mark and a point may belong to what follows the value
      case h_3 hl =>
        refine ends_ite (fun _ => ends_pure hdone) fun _ => ?_
        refine ends_attempt ?_ (fun n c₁ h₁ => hmore h₁) (ends_pure hdone)
        refine (next_ends hc (by simp [hl])).bind fun _ c₁ h₁ => ends_atMark ?_
        exact ends_ite (fun _ => hkeyed true (h₁.onward hc)) fun _ => hnamed true (h₁.onward hc)
      case h_4 hl =>
        refine ends_unless fun _ => ?_
        refine (templateParts_reads hr true r.fuel hc).bind fun p c₁ h₁ => ?_
        obtain ⟨pieces, values⟩ := p
        obtain ⟨c₂, h₂, hvalues⟩ := h₁.values
        exact (node_around hv hc (h₂.onward hc) hvalues hvalues.onward.sound.onward
          (h₂.then hvalues.onward) rfl rfl (suits rfl) rfl).bind fun n c₃ h₃ => hmore h₃
      case h_5 => exact ends_pure hdone

/-- And so is a row of accesses and calls. -/
theorem accessesAndCalls_accessed (hr : r.Sound) {start : Nat} (fuel : Nat) {value : Node}
    {chained : Bool} (hc : c.Sound) (hv : Stands IsValue start value c)
    (hrank : chained = true → value.form.rank = 1) :
    Ends (accessesAndCalls r s start fuel value chained) c (Accessed start c) := by
  induction fuel generalizing c value chained with
  | zero =>
      unfold accessesAndCalls
      exact ends_failure
  | succ fuel ih =>
      unfold accessesAndCalls
      refine (accesses_accessed hr true r.fuel hc hv hrank).bind fun p c₁ h₁ => ?_
      obtain ⟨value₁, chained₁⟩ := p
      have hc₁ := h₁.onward.sound
      refine (eatMark_ends _ hc₁).bind fun isOptional c₂ h₂ => ends_atMark ?_
      refine ends_ite (fun _ => ?_) fun _ => ends_ite (fun _ => ends_failure) fun hstill => ?_
      · refine (arguments_reads hr h₂.onward.sound).bind fun values c₃ h₃ => ?_
        refine (node_around h₁.stands hc₁ h₂.onward h₃.2 h₃.1.sound.onward
          (h₂.onward.beyond h₃.1) rfl rfl (suits rfl) rfl).bind fun n c₄ h₄ => ?_
        refine (ih h₄.1.sound h₄.2.1 fun _ => h₄.2.2).mono fun p c₅ h₅ => ?_
        exact ⟨h₁.onward.trans ((h₄.1.onward hc₁).trans h₅.onward), h₅.stands, h₅.rank⟩
      · obtain rfl := h₂.still hstill
        exact ends_pure h₁

/-- A value with its accesses is read as a value. -/
theorem postfixed_reads (hr : r.Sound) (hc : c.Sound) :
    Ends (postfixed r s) c (Reads IsValue c) := by
  unfold postfixed
  refine ends_position ((hr.primary s hc).bind fun value c₁ h₁ => ?_)
  refine (accessesAndCalls_accessed hr r.fuel h₁.beyond.sound h₁.stands
    fun h => by cases h).bind fun p c₂ h₂ => ?_
  obtain ⟨value₁, chained⟩ := p
  have hvalue : Reads IsValue c value₁ c₂ := ⟨h₁.beyond.then h₂.onward, h₂.stands⟩
  have hc₂ := h₂.onward.sound
  refine ends_ite (fun hchained => ?_) fun _ => ends_pure hvalue
  have hrank : value₁.form.rank < 2 := Nat.lt_succ_of_le (Nat.le_of_eq (h₂.rank hchained))
  exact node_headed hvalue hrank hc₂.onward (readsAll_nil (K := IsValue) hc₂) hc₂.onward rfl
    (suits rfl) fun _ => isValue_node rfl rfl
      fun k hk => List.mem_singleton.mp hk ▸ hvalue.stands.kind.closed

-- ============================================================ primary values

/-- A construction is read as a value, whether or not it has arguments. -/
theorem construction_reads (hr : r.Sound) (hc : c.Sound) :
    Ends (construction r s) c (Reads IsValue c) := by
  unfold construction
  refine ends_position ((keyword_ends _ hc).bind fun _ c₁ h₁ => ?_)
  refine ends_ifEaten (eatMark_ends _ h₁.sound) (fun c₂ h₂ => ?_) ?_
  · refine (word_ends _ h₂.sound).bind fun _ c₃ h₃ => ?_
    have hb := h₁.then ((h₂.onward h₁.sound).trans (h₃.onward h₂.sound))
    exact node_after (L := IsValue) hb (readsAll_nil h₃.sound) h₃.sound.onward rfl (suits rfl)
      fun _ => isValue_node rfl rfl fun _ h => absurd h List.not_mem_nil
  · refine ends_position ((hr.primary s h₁.sound).bind fun callee c₂ h₂ => ?_)
    refine (accesses_accessed hr false r.fuel h₂.beyond.sound h₂.stands
      fun h => by cases h).bind fun p c₃ h₃ => ?_
    obtain ⟨callee₁, chained⟩ := p
    refine ends_atMark (ends_unless fun _ => ends_atMark ?_)
    have hcallee : ReadsAll IsValue c₁ [callee₁] c₃ :=
      ⟨(h₂.beyond.onward h₁.sound).trans h₃.onward, h₃.stands.laid,
        fun n hn => List.mem_singleton.mp hn ▸ h₃.stands.kind⟩
    refine ends_choose (P := ReadsAll IsValue c₃) ?_ ?_ fun values c₄ h₄ => ?_
    · exact fun _ => (arguments_reads hr h₃.onward.sound).mono fun _ _ h => h.2
    · exact fun _ => ends_pure (readsAll_nil h₃.onward.sound)
    · have hall := hcallee.append h₃.onward.sound.onward h₄
      exact node_after h₁ hall h₄.onward.sound.onward rfl (suits rfl)
        fun _ => isValue_node rfl rfl fun k hk => (hall.kinds k hk).closed

/-- An import as a value, or what it says about its module, is read as a value. -/
theorem importValue_reads (hr : r.Sound) (hc : c.Sound) :
    Ends (importValue r s) c (Reads IsValue c) := by
  unfold importValue
  refine ends_position ((keyword_ends _ hc).bind fun _ c₁ h₁ => ?_)
  refine ends_ifEaten (eatMark_ends _ h₁.sound) (fun c₂ h₂ => ?_) ?_
  · refine (word_ends _ h₂.sound).bind fun _ c₃ h₃ => ?_
    have hb := h₁.then ((h₂.onward h₁.sound).trans (h₃.onward h₂.sound))
    exact node_after (L := IsValue) hb (readsAll_nil h₃.sound) h₃.sound.onward rfl (suits rfl)
      fun _ => isValue_node rfl rfl fun _ h => absurd h List.not_mem_nil
  · refine (mark_ends _ h₁.sound).bind fun _ c₂ h₂ => ?_
    refine (hr.assignment _ h₂.sound).bind fun source c₃ h₃ => ?_
    refine (eatMark_ends _ h₃.beyond.sound).bind fun comma c₄ h₄ => ends_atMark ?_
    extract_lets close
    have hc₄ := h₄.onward.sound
    have hclose : ∀ {options c₅ c₆}, ReadsAll IsEntry c₄ [options] c₅ → c₅.Onward c₆ →
        Ends (close options) c₆ (Reads IsValue c) := by
      intro options c₅ c₆ h₅ h₆
      refine (mark_ends _ h₆.sound).bind fun _ c₇ h₇ => ?_
      have hall := ((h₃.imp fun hv => hv.isEntry).all h₂.sound).append h₄.onward h₅
      exact node_after (h₁.then (h₂.onward h₁.sound)) hall (h₆.trans (h₇.onward h₆.sound)) rfl
        (suits rfl) fun _ => isValue_node rfl rfl fun k hk => (hall.kinds k hk).closed
    refine ends_ite (fun _ => ?_) fun _ => ends_of_eq rfl ?_
    · refine (hr.assignment _ hc₄).bind fun options c₅ h₅ => ?_
      refine (eatMark_ends _ h₅.beyond.sound).bind fun _ c₆ h₆ => ends_of_eq rfl ?_
      exact hclose ((h₅.imp fun hv => hv.isEntry).all hc₄) h₆.onward
    · exact hclose (readsAll_absent hc₄ isEntry_absent) hc₄.onward

/-- What the reader of a class gives is a value. -/
theorem classValue_reads (hr : r.Sound) (hc : c.Sound) :
    Ends (classParts r s >>= fun parts => node c.here.offset .classValue parts) c
      (Reads IsValue c) := by
  refine (classParts_reads hr hc).bind fun parts c₁ h₁ => ?_
  obtain ⟨name, others, rfl, hname, hclosed⟩ := h₁.tail
  refine node_reads h₁.beyond (h₁.wellPlaced _ rfl (Node.suits_classValue hname))
    ⟨isPart_node rfl, ?_⟩
  rw [Node.isClosed_node]
  refine List.all_eq_true.mpr fun b hb => ?_
  obtain ⟨n, hn, rfl⟩ := List.mem_map.mp hb
  exact hclosed n hn

/-- A name is read as a value. -/
theorem identifier_reads {text : String} {escaped : Bool} (hc : c.Sound)
    (hl : c.lexeme = .name text escaped) :
    Ends (leaf (.identifier text)) c (Reads IsValue c) := by
  refine leaf_ends hc (by simp [hl]) fun c' hb => ⟨hb, stands_node ?_ (Nat.le_refl _) hb.past
    ⟨isPart_node rfl, rfl⟩⟩
  exact Node.wellPlaced_identifier (hc.proper text escaped hl)

/-- A slash that starts a regular expression. -/
theorem regexValue_reads (hc : c.Sound) :
    Ends (do
      (fun c => c.asRegex?.map fun c => ((), c) : Parse Unit)
      match ← peek with
      | .regex pattern flags => leaf (.regex pattern flags)
      | _ => failure) c (Reads IsValue c) := by
  refine Ends.bind (P := fun _ c' => c.Onward c' ∧ c'.lexeme ≠ .finish) ?_ fun _ c₁ h₁ => ?_
  · intro _ c' h
    obtain ⟨c₁, hc₁, heq⟩ := Option.map_eq_some_iff.mp h
    obtain rfl : c₁ = c' := (Prod.mk.inj heq).2
    have hregex := Cursor.asRegex?_onward hc hc₁
    exact ⟨hregex.1, hregex.2.2⟩
  · refine ends_peek ?_
    split
    case h_1 pattern flags _ =>
      refine (leaf_readsValue h₁.1.sound h₁.2 rfl rfl rfl).mono fun n c₂ h₂ => ?_
      exact ⟨h₁.1.beyond h₂.beyond, h₂.stands.mono h₁.1.here (Nat.le_refl _)⟩
    case h_2 => exact ends_failure

/-- A value without operators is read as one, whatever token it starts with. -/
theorem primary_reads (hr : r.Sound) (hc : c.Sound) :
    Ends (primary r s) c (Reads IsValue c) := by
  unfold primary
  refine ends_position (ends_peek ?_)
  -- by the first lexeme, which names the kind of value
  split
  case h_1 text escaped hl =>
    refine (looks_ahead _).bind fun isFunction => ?_
    refine ends_ite (fun _ => functionValue_reads hr hc) fun _ => ?_
    exact ends_ite (fun _ => identifier_reads hc hl) fun _ => ends_failure
  -- a reserved word: a leaf by itself, or the start of a larger value
  case h_2 w text hl =>
    have hleaf : ∀ {form : Form}, form.isLeaf = true → form.encloses [] = true →
        isUpTo 2 form = true → Ends (leaf form) c (Reads IsValue c) :=
      leaf_readsValue hc (by simp [hl])
    split
    case h_1 => exact hleaf rfl rfl rfl
    case h_2 => exact hleaf rfl rfl rfl
    case h_3 => exact hleaf rfl rfl rfl
    case h_4 => exact hleaf rfl rfl rfl
    case h_5 => exact functionValue_reads hr hc
    case h_6 => exact classValue_reads hr hc
    case h_7 => exact construction_reads hr hc
    case h_8 => exact importValue_reads hr hc
    -- `super` is a value only where an access or a call follows it
    case h_9 =>
      refine (hleaf rfl rfl rfl).bind fun value c₁ h₁ => ?_
      refine ends_atMark (ends_atMark (ends_atMark ?_))
      exact ends_ite (fun _ => ends_pure h₁) fun _ => ends_failure
    case h_10 => exact ends_failure
  case h_3 value hl => exact leaf_readsValue hc (by simp [hl]) rfl rfl rfl
  case h_4 value hl => exact leaf_readsValue hc (by simp [hl]) rfl rfl rfl
  case h_5 value raw hl => exact leaf_readsValue hc (by simp [hl]) rfl rfl rfl
  -- a template's values alone are parts; the pieces of text between them are in its form
  case h_6 hl =>
    refine (templateParts_reads hr false r.fuel hc).bind fun p c₁ h₁ => ?_
    obtain ⟨pieces, values⟩ := p
    obtain ⟨c₂, h₂, hvalues⟩ := h₁.values
    exact node_after h₂ hvalues hvalues.onward.sound.onward rfl (suits rfl)
      fun _ => isValue_node rfl rfl fun k hk => (hvalues.kinds k hk).closed
  case h_7 => exact parenthesized_reads hr hc
  case h_8 => exact arrayValue_reads hr hc
  case h_9 => exact objectValue_reads hr hc
  case h_10 => exact regexValue_reads hc
  case h_11 => exact regexValue_reads hc
  case h_12 => exact ends_failure

-- ============================================================ operators

/-- What is assigned to is a value that has become a place. -/
theorem asPlace_bind {β : Type} {f : Node → Parse β} {Q : β → Cursor → Prop} {lo : Nat}
    {n : Node} (hn : Stands IsValue lo n c)
    (hf : ∀ t, Stands IsPlace lo t c → Ends (f t) c Q) : Ends (asPlace n >>= f) c Q := by
  unfold asPlace
  split
  case h_1 t ht => exact ends_of_eq rfl (hf t (asPlace?_stands hn ht))
  case h_2 => exact fun _ _ h => by cases h

theorem ne_finish_of_updateOp? {l : Lexeme} {op : UpdateOp} (h : updateOp? l = some op) :
    l ≠ .finish := by
  rintro rfl
  cases h

theorem ne_finish_of_unaryOp? {l : Lexeme} {op : UnaryOp} (h : unaryOp? l = some op) :
    l ≠ .finish := by
  rintro rfl
  cases h

theorem ne_finish_of_infixOp? {l : Lexeme} {op : BinaryOp ⊕ LogicalOp}
    (h : infixOp? s l = some op) : l ≠ .finish := by
  rintro rfl
  cases h

/-- An operator before a value. -/
theorem behind_reads {form : Form} {value : Node} {c₁ c₂ : Cursor} (h₁ : c.Beyond c₁)
    (h₂ : Reads IsValue c₁ value c₂) (hwhole : form.isWhole = true) (hword : form.isWord = false)
    (hsuits : Node.Suits form [value]) (hform : isUpTo 2 form = true) :
    Ends (node c.here.offset form [value]) c₂ (Reads IsValue c) :=
  node_after h₁ (h₂.all h₁.sound) h₂.beyond.sound.onward hwhole hsuits
    fun _ => isValue_node hform hword
      fun _ hk => List.mem_singleton.mp hk ▸ h₂.stands.kind.closed

/-- A value with at most one operand is read as one. -/
theorem unary_reads (hr : r.Sound) (hc : c.Sound) : Ends (unary r s) c (Reads IsValue c) := by
  unfold unary
  refine ends_position (ends_peek ?_)
  split
  -- an increment or decrement in front, whose operand must be a place
  case h_1 op hop =>
    refine (next_ends hc (ne_finish_of_updateOp? hop)).bind fun _ c₁ h₁ => ?_
    refine (hr.unary s h₁.sound).bind fun value c₂ h₂ => ?_
    refine asPlace_bind h₂.stands fun target ht => ?_
    exact behind_reads h₁ ⟨h₂.beyond, ht.imp fun h => h.toIsValue⟩ rfl rfl
      (suits_assigning rfl rfl ht.kind.takes) rfl
  case h_2 =>
    split
    -- an operator in front; under a pure mark the operand is read as having no effect
    case h_1 op hop =>
      refine (next_ends hc (ne_finish_of_unaryOp? hop)).bind fun _ c₁ h₁ => ends_get ?_
      refine (hr.unary s h₁.sound).bind fun value c₂ h₂ => ?_
      refine behind_reads h₁ ?_ rfl rfl (suits rfl) rfl
      split
      · exact h₂.remade (Node.remade_asPure value)
      · exact h₂
    case h_2 =>
      refine ends_atWord (ends_ite (fun hawait => ?_) fun _ => ?_)
      · have hl : c.lexeme ≠ .finish := by
          simp only [Bool.and_eq_true] at hawait
          exact Lexeme.ne_finish_of_isTheWord hawait.1
        refine (next_ends hc hl).bind fun _ c₁ h₁ => ?_
        exact (hr.unary s h₁.sound).bind fun value c₂ h₂ => behind_reads h₁ h₂ rfl rfl (suits rfl) rfl
      · -- anything else is a postfixed value, which an update may follow on the same line
        refine ends_atWord ((looks_ahead _).bind fun b => ends_ite (fun _ => ends_failure) ?_)
        intro _
        refine (hr.postfixed s hc).bind fun value c₁ h₁ => ends_peek ?_
        split
        case h_1 op hop =>
          refine ends_newlineBefore (ends_ite (fun _ => ends_pure h₁) fun _ => ?_)
          refine asPlace_bind h₁.stands fun target ht => ?_
          refine (next_ends h₁.beyond.sound (ne_finish_of_updateOp? hop)).bind fun _ c₂ h₂ => ?_
          refine (node_around (ht.imp fun h => h.toIsValue) h₁.beyond.sound
            (h₂.onward h₁.beyond.sound) (readsAll_nil h₂.sound) h₂.sound.onward h₂ rfl rfl
            (suits_assigning rfl rfl ht.kind.takes) rfl).mono fun n c₃ h₃ => ?_
          exact ⟨h₁.beyond.then (h₃.1.onward h₁.beyond.sound), h₃.2.1⟩
        case h_2 => exact ends_pure h₁

/-- Operators that bind at least so strongly go on from the value on their left. -/
theorem operators_stands (hr : r.Sound) {start : Nat} {inParens : Bool} {least : Precedence}
    (fuel : Nat) {left : Node} (hc : c.Sound) (hleft : Stands IsValue start left c) :
    Ends (operators r s start inParens least fuel left) c fun n c' =>
      c.Onward c' ∧ Stands IsValue start n c' := by
  induction fuel generalizing c left with
  | zero =>
      unfold operators
      exact ends_failure
  | succ fuel ih =>
      unfold operators
      refine ends_peek ?_
      split
      case h_1 => exact ends_pure ⟨hc.onward, hleft⟩
      case h_2 op hop =>
        dsimp only
        refine ends_if (fun _ => ends_pure ⟨hc.onward, hleft⟩) fun _ => ?_
        refine (next_ends hc (ne_finish_of_infixOp? hop)).bind fun _ c₁ h₁ => ends_atMark ?_
        refine (hr.binary s _ h₁.sound).bind fun right c₂ h₂ => ?_
        have hmore : ∀ {form : Form}, form.isWhole = true → form.isWord = false →
            form.isPlain = true → form.rank = 1 →
            Ends (node start form [left, right] >>= operators r s start inParens least fuel) c₂
              fun n c' => c.Onward c' ∧ Stands IsValue start n c' := by
          intro form hwhole hword hplain hrank
          refine (node_around hleft hc (h₁.onward hc) (h₂.all h₁.sound) h₂.beyond.sound.onward
            (h₁.then (h₂.beyond.onward h₁.sound)) hwhole hword (suits hplain) hrank).bind
              fun whole c₃ h₃ => ?_
          refine (ih h₃.1.sound h₃.2.1).mono fun n c₄ h₄ => ?_
          exact ⟨(h₃.1.onward hc).trans h₄.1, h₄.2⟩
        split
        case h_1 => exact ends_unless fun _ => hmore rfl rfl rfl rfl
        case h_2 => exact ends_unless fun _ => hmore rfl rfl rfl rfl

/-- A value with operators is read as one, its first operand before all others. -/
theorem binary_reads (hr : r.Sound) (least : Precedence) (hc : c.Sound) :
    Ends (binary r s least) c (Reads IsValue c) := by
  unfold binary
  refine ends_position (ends_atMark (ends_get (ends_peek ?_)))
  have hmore : ∀ {value c₁ inParens}, Reads IsValue c value c₁ →
      Ends (operators r s c.here.offset inParens least r.fuel value) c₁ (Reads IsValue c) := by
    intro value c₁ inParens h₁
    refine (operators_stands hr r.fuel h₁.beyond.sound h₁.stands).mono fun n c₂ h₂ => ?_
    exact ⟨h₁.beyond.then h₂.1, h₂.2⟩
  split
  case h_1 name hl =>
    refine ends_unless fun _ => ?_
    refine (next_ends hc (by simp [hl])).bind fun _ c₁ h₁ => ?_
    refine (keyword_ends _ h₁.sound).bind fun _ c₂ h₂ => ?_
    refine (hr.binary s _ h₂.sound).bind fun object c₃ h₃ => ?_
    exact (behind_reads (h₁.then (h₂.onward h₁.sound)) h₃ rfl rfl (suits rfl) rfl).bind
      fun whole c₄ h₄ => hmore h₄
  case h_2 =>
    refine (hr.unary s hc).bind fun value c₁ h₁ => hmore ?_
    split
    · exact h₁.remade (Node.remade_asPure value)
    · exact h₁

/-- A value that is given out of a generator is read as a value. -/
theorem yieldValue_reads (hr : r.Sound) (hc : c.Sound) (hl : c.lexeme ≠ .finish) :
    Ends (yieldValue r s) c (Reads IsValue c) := by
  unfold yieldValue
  refine ends_position ((next_ends hc hl).bind fun _ c₁ h₁ => ends_newlineBefore ?_)
  have hvalue : ∀ {isDelegate value c₂ c₃}, c₁.Onward c₂ → ReadsAll IsEntry c₂ [value] c₃ →
      Ends (node c.here.offset (.yield isDelegate) [value]) c₃ (Reads IsValue c) := by
    intro isDelegate value c₂ c₃ h₂ h₃
    exact node_after (h₁.then h₂) h₃ h₃.onward.sound.onward rfl (suits rfl)
      fun _ => isValue_node rfl rfl fun k hk => (h₃.kinds k hk).closed
  refine ends_ite (fun _ => ?_) fun _ => ?_
  · exact hvalue h₁.sound.onward (readsAll_absent h₁.sound isEntry_absent)
  · refine (eatMark_ends _ h₁.sound).bind fun isDelegate c₂ h₂ => ends_peek ?_
    have hc₂ := h₂.onward.sound
    dsimp only
    refine ends_choose (P := fun value c' => ReadsAll IsEntry c₂ [value] c') ?_ ?_
      fun value c₃ h₃ => hvalue h₂.onward h₃
    · exact fun _ => ends_pure (readsAll_absent hc₂ isEntry_absent)
    · exact fun _ => (hr.assignment _ hc₂).mono
        fun _ _ h => (h.imp fun hv => hv.isEntry).all hc₂

-- ============================================================ arrow functions

/-- A node that covers no more than its only child. -/
theorem Stands.around {K : Node → Prop} [Free K] {lo top : Nat} {n : Node} {form : Form}
    (h : Stands K lo n c) (hp : n.isAbsent = false) (hrank : n.form.rank < form.rank)
    (hwhole : form.isWhole = true) (hsuits : Node.Suits form [n]) (hform : isUpTo top form = true) :
    Stands (IsPart top) lo (.node form n.span [n]) c := by
  obtain ⟨h₁, h₂, h₃⟩ := h.laid.row.sits n List.mem_cons_self hp
  have hrow : Node.Laid n.span.start n.span.stop [n] :=
    Node.laid_singleton ⟨Nat.le_refl _, h₂, Nat.le_refl _⟩ (h.laid.wellPlaced n List.mem_cons_self)
  refine ⟨Node.laid_singleton ⟨h₁, h₂, h₃⟩ ?_, isPart_node hform⟩
  refine .node (Node.fits_of_isWhole hwhole hsuits (fun _ k hk => ?_) hrow.row
    fun k hk _ _ => ?_) hrow.wellPlaced
  · exact List.mem_singleton.mp hk ▸ Free.free n h.kind
  · exact List.mem_singleton.mp hk ▸ hrank

/-- A value that introduces no name outside of itself suits a statement. -/
theorem suits_expressionStatement {n : Node} (h : n.isClosed = true) :
    Node.Suits .expressionStatement [n] where
  word h := by cases h
  name _ h := by cases h
  statement _ k hk := List.mem_singleton.mp hk ▸ h
  key h := by cases h
  entries h := by cases h
  declarators h := by cases h
  targets := nofun
  shape := trivial

/-- The body of an arrow function stands behind its parameters, and the function is a value. -/
theorem arrowBody_stands (hr : r.Sound) {start : Nat} {isAsync isInert : Bool} {params : Node}
    (hparams : Stands (IsPart 3) start params c) (hc : c.Sound) :
    Ends (arrowBody r s start isAsync isInert params) c fun n c' =>
      c.Beyond c' ∧ Stands IsValue start n c' := by
  unfold arrowBody
  refine (mark_ends _ hc).bind fun _ c₁ h₁ => ?_
  have hbody : ∀ {isExpression body c₂}, Reads (IsPart 5) c₁ body c₂ →
      Node.HasShape (.arrow isAsync isExpression isInert false) [params, body] →
      Ends (node start (.arrow isAsync isExpression isInert false) [params, body]) c₂
        fun n c' => c.Beyond c' ∧ Stands IsValue start n c' := by
    intro isExpression body c₂ h₂ hshape
    exact node_cons hparams hparams.kind.present hc (h₁.onward hc) (h₂.all h₁.sound)
      h₂.beyond.sound.onward (h₁.then (h₂.beyond.onward h₁.sound)) rfl (Node.suits_arrow hshape)
      fun _ => ⟨isPart_node rfl, rfl⟩
  refine ends_atMark (ends_ite (fun _ => ?_) fun _ => ?_)
  · exact (functionBody_reads hr h₁.sound).bind fun body c₂ h₂ => hbody h₂ trivial
  · refine (hr.assignment _ h₁.sound).bind fun value c₂ h₂ =>
      hbody ⟨h₂.beyond, ?_⟩ ⟨_, _, _, _, rfl⟩
    have hvalue := h₂.stands.kind
    have hstatement : Stands (IsPart 4) c₁.here.offset
        (.node .expressionStatement value.span [value]) c₂ :=
      h₂.stands.around hvalue.present (Nat.lt_of_le_of_lt hvalue.rank (by decide)) rfl
        (suits_expressionStatement hvalue.closed) rfl
    exact hstatement.around rfl (Nat.lt_succ_self 4) rfl (suits rfl) rfl

theorem loneParameter_stands {lo : Nat} {name : Node} (h : Stands (IsPart 2) lo name c) :
    Stands (IsPart 3) lo (loneParameter name) c :=
  h.around h.kind.present (Nat.lt_succ_of_le h.kind.rank) rfl (suits rfl) rfl

/-- What is made of what a reader ends in. -/
theorem ends_map {α β : Type} {p : Parse α} {g : α → β} {Q : β → Cursor → Prop}
    (h : Ends p c fun a c' => Q (g a) c') : Ends (g <$> p) c Q := by
  rw [← bind_pure_comp]
  exact h.bind fun a c' ha => ends_pure ha

/-- The head of an arrow function is its parameters, or there is none and nothing was read. -/
theorem arrowHead_ends {β : Type} {f : Option (Bool × Node) → Parse β} {Q : β → Cursor → Prop}
    (hr : r.Sound) (hc : c.Sound)
    (hsome : ∀ isAsync params c', Reads (IsPart 3) c params c' →
      Ends (f (some (isAsync, params))) c' Q)
    (hnone : Ends (f none) c Q) : Ends (arrowHead r s >>= f) c Q := by
  unfold arrowHead
  refine ends_attempt (P := fun p c' => Reads (IsPart 3) c p.2 c') ?_
    (fun p c' h => hsome p.1 p.2 c' h) hnone
  refine ends_atMark ?_
  extract_lets around head async
  have hhead : ∀ {isAsync c₁}, c.Onward c₁ →
      Ends (head isAsync) c₁ fun p c' => Reads (IsPart 3) c p.2 c' := by
    intro isAsync c₁ h₁
    refine ends_atMark (ends_choose (P := Reads (IsPart 3) c₁) ?_ ?_ fun params c₂ h₂ => ?_)
    · exact fun _ => parameters_reads hr h₁.sound
    · exact fun _ => ends_map ((bindingName_reads h₁.sound).mono
        fun n c₂ h₂ => ⟨h₂.beyond, loneParameter_stands (h₂.stands.imp fun hn => hn.toIsPart)⟩)
    · refine ends_atMark (ends_newlineBefore (ends_unless fun _ => ends_pure ?_))
      exact ⟨h₁.beyond h₂.beyond, h₂.stands.mono h₁.here (Nat.le_refl _)⟩
  refine ends_ite (fun _ => ends_of_eq rfl (hhead hc.onward)) fun _ => ?_
  refine (word_ends _ hc).bind fun _ c₁ h₁ => ends_newlineBefore (ends_unless fun _ => ?_)
  exact ends_of_eq rfl (hhead (h₁.onward hc))

/-- A value with everything that may be assigned is read as a value, and what is assigned to is a
place. -/
theorem assignment_reads (hr : r.Sound) (hc : c.Sound) :
    Ends (assignment r s) c (Reads IsValue c) := by
  unfold assignment
  refine ends_position (ends_atMark (ends_get (ends_get (ends_atWord ?_))))
  refine ends_ite (fun hyield => ?_) fun _ => ends_atWord ?_
  · simp only [Bool.and_eq_true] at hyield
    exact yieldValue_reads hr hc (Lexeme.ne_finish_of_isTheWord hyield.1)
  refine (looks_ahead _).bind fun b => ends_ite (fun _ => ends_failure) fun _ => ?_
  -- an arrow function starts where its parameters do
  have harrow : ∀ {isAsync isInert params c₁}, Reads (IsPart 3) c params c₁ →
      Ends (arrowBody r s c.here.offset isAsync isInert params) c₁ (Reads IsValue c) := by
    intro isAsync isInert params c₁ h₁
    have hc₁ := h₁.beyond.sound
    exact (arrowBody_stands hr h₁.stands hc₁).mono
      fun n c₂ h₂ => ⟨h₁.beyond.then (h₂.1.onward hc₁), h₂.2⟩
  refine arrowHead_ends hr hc (fun isAsync params c₁ h₁ => harrow h₁) ?_
  refine (hr.binary s _ hc).bind fun value c₁ h₁ => ends_peek ?_
  have hc₁ := h₁.beyond.sound
  split
  case h_1 name span ks hl =>
    refine ends_newlineBefore (ends_unless fun _ => harrow ⟨h₁.beyond, ?_⟩)
    refine loneParameter_stands ⟨h₁.stands.laid.replace rfl rfl ?_, isPart_node rfl⟩
    exact Node.wellPlaced_leaf rfl
  case h_2 op hl =>
    refine ends_unless fun _ => ends_get ?_
    split
    case h_1 => exact ends_failure
    case h_2 target ht =>
      refine (next_ends hc₁ (by simp [hl])).bind fun _ c₂ h₂ => ?_
      refine (hr.assignment s h₂.sound).bind fun right c₃ h₃ => ?_
      have hplace := asTarget?_stands h₁.stands ht
      refine (node_around (hplace.imp fun h => h.toIsValue) hc₁ (h₂.onward hc₁) (h₃.all h₂.sound)
        h₃.beyond.sound.onward (h₂.then (h₃.beyond.onward h₂.sound)) rfl rfl
        (suits_assigning rfl rfl hplace.kind.takes) rfl).mono
        fun n c₄ h₄ => ⟨h₁.beyond.then (h₄.1.onward hc₁), h₄.2.1⟩
  case h_3 value _ _ _ _ =>
    extract_lets mark
    have hmark : ∀ {whole c₂}, Reads IsValue c whole c₂ →
        Ends (mark whole) c₂ (Reads IsValue c) := by
      intro whole c₂ h₂
      refine ends_pure ?_
      have hpure : Reads IsValue c (if c.isPure = true then whole.asPure else whole) c₂ := by
        split
        · exact h₂.remade (Node.remade_asPure whole)
        · exact h₂
      split
      · exact hpure.remade (Node.remade_asInert _)
      · exact hpure
    refine ends_ite (fun hquestion => ?_) fun _ => ends_of_eq rfl (hmark h₁)
    refine (next_ends hc₁ (Lexeme.ne_finish_of_mark hquestion)).bind fun _ c₂ h₂ => ?_
    refine (hr.assignment _ h₂.sound).bind fun yes c₃ h₃ => ?_
    refine (mark_ends _ h₃.beyond.sound).bind fun _ c₄ h₄ => ?_
    refine (hr.assignment _ h₄.sound).bind fun no c₅ h₅ => ?_
    have hall := (h₃.all h₂.sound).append (h₄.onward h₃.beyond.sound) (h₅.all h₄.sound)
    refine (node_around h₁.stands hc₁ (h₂.onward hc₁) hall h₅.beyond.sound.onward
      (h₂.then hall.onward) rfl rfl (suits rfl) rfl).bind fun whole c₆ h₆ => hmark ?_
    exact ⟨h₁.beyond.then (h₆.1.onward hc₁), h₆.2.1⟩

end Parse

end Graft
