import Graft.Proofs.Scope.Numbers
import Graft.Proofs.Tree.Identity
/-!
The words of a program and the events that they stand for.

- Every identifier of a well-placed tree is used once and every binding is introduced once, in the
  order of the text (`ScopeEvent.useStarts_fold`, `ScopeEvent.nameStarts_fold`). Both are read off
  one fact about the words of a tree (`ScopeEvent.words_fold`), by induction along the rules for
  events.
- Words start at different offsets, so an offset says which use or which declaration is meant: no
  use is recorded twice (`Bindings.nodup_uses`).
- Every symbol of a program has a declaration in its text (`Bindings.exists_binding`), for an event
  adds a symbol only together with a declaration (`ScopeWalk.Named`).
-/
namespace Graft

namespace Node

/-- Whether a node is a name that is read or assigned to. -/
def isIdentifier (n : Node) : Bool :=
  match n.form with
  | .identifier _ => true
  | _ => false

/-- Whether a node is a name that is introduced. -/
def isBinding (n : Node) : Bool :=
  match n.form with
  | .binding _ => true
  | _ => false

/-- The names that a tree uses, in order. -/
def identifiers (t : Node) : List Node := t.parts.filter isIdentifier

/-- The names that a tree introduces, in order. -/
def bindings (t : Node) : List Node := t.parts.filter isBinding

/-- A name that is used has the form of one. -/
theorem exists_name_of_isIdentifier {n : Node} (h : n.isIdentifier = true) :
    ∃ name, n.form = .identifier name := by
  unfold isIdentifier at h
  split at h
  case h_1 name heq => exact ⟨name, heq⟩
  case h_2 => cases h

/-- A name that is introduced has the form of one. -/
theorem exists_name_of_isBinding {n : Node} (h : n.isBinding = true) :
    ∃ name, n.form = .binding name := by
  unfold isBinding at h
  split at h
  case h_1 name heq => exact ⟨name, heq⟩
  case h_2 => cases h

theorem isWord_of_isIdentifier {n : Node} (h : n.isIdentifier = true) :
    n.form.isWord = true := by
  obtain ⟨name, heq⟩ := exists_name_of_isIdentifier h
  rw [heq]
  rfl

theorem isWord_of_isBinding {n : Node} (h : n.isBinding = true) : n.form.isWord = true := by
  obtain ⟨name, heq⟩ := exists_name_of_isBinding h
  rw [heq]
  rfl

theorem isBare_eq_false_of_isIdentifier {n : Node} (h : n.isIdentifier = true) :
    n.isBare = false := by
  obtain ⟨name, heq⟩ := exists_name_of_isIdentifier h
  cases n with
  | node form span children =>
      rw [isBare_node, show form = .identifier name from heq]
      rfl

theorem isBare_eq_false_of_isBinding {n : Node} (h : n.isBinding = true) :
    n.isBare = false := by
  obtain ⟨name, heq⟩ := exists_name_of_isBinding h
  cases n with
  | node form span children =>
      rw [isBare_node, show form = .binding name from heq]
      rfl

/-- A word has no parts but itself. -/
theorem WellPlaced.parts_of_isWord {n : Node} (hn : n.WellPlaced) (h : n.form.isWord = true) :
    n.parts = [n] := by
  cases hn with
  | node fits parts =>
    obtain rfl := fits.word h
    rw [parts_node]
    rfl

/-- What introduces a name stands in a child, unless the node is the name. -/
theorem mem_bindings_node {form : Form} {span : Span} {children : List Node} {b : Node}
    (hform : ∀ name, form ≠ .binding name) (hb : b ∈ (node form span children).bindings) :
    ∃ k ∈ children, b ∈ k.bindings := by
  obtain ⟨hb, hname⟩ := List.mem_filter.mp hb
  rcases mem_parts_node.mp hb with rfl | ⟨k, hk, hbk⟩
  · obtain ⟨name, heq⟩ := exists_name_of_isBinding hname
    exact absurd heq (hform name)
  · exact ⟨k, hk, List.mem_filter.mpr ⟨hbk, hname⟩⟩

/-- What holds no names introduces none. -/
theorem bindings_of_isBare {n : Node} (h : n.isBare = true) : n.bindings = [] := by
  refine List.filter_eq_nil_iff.mpr fun b hb hname => ?_
  have hbare := isBare_of_mem_parts h hb
  rw [isBare_eq_false_of_isBinding hname] at hbare
  cases hbare

/-- What a child introduces the node introduces. -/
theorem mem_bindings_of_child {n k b : Node} (hk : k ∈ n.children) (hb : b ∈ k.bindings) :
    b ∈ n.bindings := by
  obtain ⟨hb, hname⟩ := List.mem_filter.mp hb
  exact List.mem_filter.mpr ⟨mem_parts_of_child hk hb, hname⟩

/-- Names that a tree uses are told apart by where they start. -/
theorem WellPlaced.identifier_eq {t m n : Node} (ht : t.WellPlaced) (hm : m ∈ t.identifiers)
    (hn : n ∈ t.identifiers) (hstart : m.span.start = n.span.start) : m = n := by
  refine Classical.byContradiction fun hne => ?_
  have hpairwise : t.identifiers.Pairwise fun m n => m.span.start ≠ n.span.start :=
    ht.pairwise_start_ne (fun _ => isBare_eq_false_of_isIdentifier)
      fun _ => isWord_of_isIdentifier
  rcases pairwise_of_ne hpairwise hm hn hne with h | h
  · exact h hstart
  · exact h hstart.symm

/-- The starts of the names that a tree uses. -/
def useStarts (t : Node) : List Nat := t.identifiers.map (·.span.start)

/-- The starts of the names that a tree introduces. -/
def nameStarts (t : Node) : List Nat := t.bindings.map (·.span.start)

/-- No two uses of a program stand at one offset. -/
theorem WellPlaced.nodup_useStarts {t : Node} (ht : t.WellPlaced) : t.useStarts.Nodup :=
  List.pairwise_map.mpr (ht.pairwise_start_ne (fun _ => isBare_eq_false_of_isIdentifier)
    fun _ => isWord_of_isIdentifier)

/-- No two introduced names of a program stand at one offset. -/
theorem WellPlaced.nodup_nameStarts {t : Node} (ht : t.WellPlaced) : t.nameStarts.Nodup :=
  List.pairwise_map.mpr (ht.pairwise_start_ne (fun _ => isBare_eq_false_of_isBinding)
    fun _ => isWord_of_isBinding)

theorem mem_useStarts {t : Node} {start : Nat} :
    start ∈ t.useStarts ↔ ∃ n ∈ t.identifiers, n.span.start = start :=
  List.mem_map

theorem mem_nameStarts {t : Node} {start : Nat} :
    start ∈ t.nameStarts ↔ ∃ n ∈ t.bindings, n.span.start = start :=
  List.mem_map

/-- What a node is to the scopes if it is a name: whether it is used, and where it starts. -/
def word? (n : Node) : Option (Bool × Nat) :=
  match n.form with
  | .identifier _ => some (true, n.span.start)
  | .binding _ => some (false, n.span.start)
  | _ => none

/-- The uses of a tree, read off its words. -/
theorem useStarts_eq (t : Node) :
    t.useStarts = (t.parts.filterMap word?).filterMap fun w => if w.1 then some w.2 else none := by
  rw [useStarts, identifiers, List.filterMap_filterMap]
  induction t.parts with
  | nil => rfl
  | cons n ns ih =>
      rw [List.filter_cons, List.filterMap_cons, ← ih, isIdentifier, word?]
      cases n.form <;> rfl

/-- The introduced names of a tree, read off its words. -/
theorem nameStarts_eq (t : Node) :
    t.nameStarts = (t.parts.filterMap word?).filterMap fun w => if w.1 then none else some w.2 := by
  rw [nameStarts, bindings, List.filterMap_filterMap]
  induction t.parts with
  | nil => rfl
  | cons n ns ih =>
      rw [List.filter_cons, List.filterMap_cons, ← ih, isBinding, word?]
      cases n.form <;> rfl

end Node

namespace ScopeEvent

/-- What an event has to do with a name. -/
def word? : ScopeEvent → Option (Bool × Nat)
  | .use _ start _ => some (true, start)
  | .introduce _ span _ => some (false, span.start)
  | .enter _ | .leave => none

/-- A scope around events adds no words. -/
theorem words_inScope (isWide : Bool) (inside : List ScopeEvent) :
    (inScope isWide inside).filterMap word? = inside.filterMap word? := by
  rw [inScope, List.cons_append, List.filterMap_cons_none rfl, List.filterMap_append]
  exact List.append_nil _

/-- The words of some children are those of their events. -/
theorem words_told {form : Form} {span : Span} {children : List Node} {how : Introduction}
    (hform : (Node.node form span children).word? = none)
    (hlayered : Layered form how (children.map fun k => (k, k.fold algebra))
      (algebra form span (children.map fun k => (k, k.fold algebra)) how))
    (ih : ∀ k ∈ children, ∀ how, (k.fold algebra how).filterMap word?
      = k.parts.filterMap Node.word?) :
    (algebra form span (children.map fun k => (k, k.fold algebra)) how).filterMap word?
      = (Node.node form span children).parts.filterMap Node.word? := by
  obtain ⟨before, inside, hall, -, hrow⟩ := hlayered
  -- a scope around the last children adds no word
  have hevents : (algebra form span (children.map fun k => (k, k.fold algebra)) how).filterMap
      word? = (told (before ++ inside)).filterMap word? := by
    rcases hrow with ⟨rfl, heq⟩ | ⟨isWide, heq⟩
    · rw [heq, List.append_nil]
    · rw [heq, List.filterMap_append, words_inScope, ← List.filterMap_append, told, told, told,
        List.flatMap_append]
  have hchildren : ∀ p ∈ before ++ inside, (p.1.2 p.2).filterMap word?
      = p.1.1.parts.filterMap Node.word? := by
    intro p hp
    have hmem : p.1 ∈ children.map fun k => (k, k.fold algebra) := hall ▸ List.mem_map_of_mem hp
    obtain ⟨k, hk, heq⟩ := List.mem_map.mp hmem
    rw [← heq]
    exact ih k hk p.2
  have hnodes : children = (before ++ inside).map (·.1.1) := by
    have := congrArg (List.map Prod.fst) hall
    simpa [Function.comp_def] using this
  rw [hevents, Node.parts_node, List.filterMap_cons, hform, hnodes, told, List.filterMap_flatMap,
    List.flatMap_map, List.filterMap_flatMap]
  rw [List.flatMap_def, List.flatMap_def, List.map_congr_left hchildren]

/-- The events of a tree speak of its words, in order. -/
theorem words_fold {t : Node} (ht : t.WellPlaced) (how : Introduction) :
    (t.fold algebra how).filterMap word? = t.parts.filterMap Node.word? := by
  induction t generalizing how with
  | node form own children ih =>
      cases ht with
      | node fits parts =>
      rw [Node.fold_node]
      -- where the events come in layers, the words are those of the children
      have hlayered : (Node.node form own children).word? = none →
          Layered form how (children.map fun k => (k, k.fold algebra))
            (algebra form own (children.map fun k => (k, k.fold algebra)) how) →
          (algebra form own (children.map fun k => (k, k.fold algebra)) how).filterMap word?
            = (Node.node form own children).parts.filterMap Node.word? := fun hform hlayered =>
        words_told hform hlayered fun k hk => ih k hk (parts k hk)
      cases hword : (Node.node form own children).word? with
      -- an identifier or a binding is one word by itself
      | some w =>
          cases form with
          | identifier name =>
              rw [fits.word rfl, Node.parts_node]
              rfl
          | binding name =>
              rw [fits.word rfl, Node.parts_node]
              rfl
          | _ => cases hword
      | none =>
          rcases algebra_layers form own (children.map fun k => (k, k.fold algebra)) how with
            ⟨name, rfl, -⟩ | ⟨name, target, rfl, hchildren, htarget, heq⟩ | ⟨name, rfl, -⟩ | h
          · cases hword
          · -- an identifier that is assigned to: its place tells the use for it
            obtain ⟨k, rfl, rfl⟩ := List.map_eq_singleton_iff.mp hchildren
            have hk := (parts k List.mem_cons_self).parts_of_isWord (by rw [htarget]; rfl)
            have hform : k.form = .identifier name := htarget
            rw [heq, Node.parts_node, List.filterMap_cons_none hword, List.flatMap_singleton, hk]
            simp [word?, Node.word?, hform]
          · cases hword
          · exact hlayered hword h

/-- The uses among some events, read off their words. -/
theorem useStarts_eq (events : List ScopeEvent) :
    events.filterMap useStart?
      = (events.filterMap word?).filterMap fun w => if w.1 then some w.2 else none := by
  rw [List.filterMap_filterMap]
  congr 1
  funext e
  cases e <;> rfl

/-- The introduced names among some events, read off their words. -/
theorem nameStarts_eq (events : List ScopeEvent) :
    events.filterMap nameStart?
      = (events.filterMap word?).filterMap fun w => if w.1 then none else some w.2 := by
  rw [List.filterMap_filterMap]
  congr 1
  funext e
  cases e <;> rfl

/-- The events of a tree use what the tree uses. -/
theorem useStarts_fold {t : Node} (ht : t.WellPlaced) (how : Introduction) :
    (t.fold algebra how).filterMap useStart? = t.useStarts := by
  rw [useStarts_eq, words_fold ht how, Node.useStarts_eq]

/-- They introduce what the tree introduces. -/
theorem nameStarts_fold {t : Node} (ht : t.WellPlaced) (how : Introduction) :
    (t.fold algebra how).filterMap nameStart? = t.nameStarts := by
  rw [nameStarts_eq, words_fold ht how, Node.nameStarts_eq]

end ScopeEvent

-- ============================================================ declarations

namespace ScopeWalk

/-- An event leaves symbols and declarations as they are, or is an introduction that declares an old
symbol again, or a new one. -/
theorem step_found_cases (w : ScopeWalk) (e : ScopeEvent) :
    ((step w e).found.symbols = w.found.symbols ∧ (step w e).found.declared = w.found.declared)
      ∨ ∃ name span how, e = .introduce name span how
        ∧ ((∃ n, (step w e).found = again w.found span n)
          ∨ (step w e).found = withSymbol w.found name span how) := by
  cases e with
  | enter isWide => exact .inl ⟨rfl, rfl⟩
  | use name start isWrite =>
      cases hw : w.opened with
      | nil => exact .inl ⟨by rw [step_use_nil hw], by rw [step_use_nil hw]⟩
      | cons s outer => exact .inl ⟨by rw [step_use_cons hw], by rw [step_use_cons hw]⟩
  | leave =>
      cases hw : w.opened with
      | nil => exact .inl ⟨by simp [step, hw], by simp [step, hw]⟩
      | cons s outer =>
          cases outer with
          | nil => exact .inl ⟨by rw [step_leave_last hw], by rw [step_leave_last hw]⟩
          | cons t outer => exact .inl ⟨by rw [step_leave_cons hw], by rw [step_leave_cons hw]⟩
  | introduce name span how =>
      cases hfits : fits how.reach (w.opened.map (·.isWide)) with
      | false =>
          rw [step_introduce_of_not_fits hfits]
          exact .inl ⟨rfl, rfl⟩
      | true =>
          have hw : w.opened = w.opened ++ [] := (List.append_nil _).symm
          obtain ⟨-, n, -, -, -, hfound⟩ := step_introduce_of_fits name span hw hfits
          refine .inr ⟨name, span, how, rfl, ?_⟩
          rcases hfound with ⟨-, heq⟩ | ⟨-, heq⟩
          · exact .inl ⟨n, heq⟩
          · exact .inr heq

/-- Every symbol is declared somewhere, at the offset of an introduction, and declarations are
listed in the order of the introductions, newest first. -/
structure Named (events : List ScopeEvent) (b : Bindings) : Prop where
  named : ∀ k < b.symbols.length, k ∈ b.declared.map Prod.snd
  starts : (b.declared.map Prod.fst).Sublist (events.filterMap ScopeEvent.nameStart?).reverse

/-- One event names the symbol that it adds. -/
theorem Named.step {events : List ScopeEvent} {w : ScopeWalk} {e : ScopeEvent}
    (h : Named events w.found) : Named (events ++ [e]) (step w e).found := by
  rcases step_found_cases w e with ⟨hsymbols, hdeclared⟩ | ⟨name, span, how, rfl, hfound⟩
  · refine ⟨hsymbols ▸ hdeclared ▸ h.named, hdeclared ▸ h.starts.trans ?_⟩
    rw [List.filterMap_append, List.reverse_append]
    exact List.sublist_append_right ..
  have hstarts : ((span.start :: w.found.declared.map Prod.fst)).Sublist
      ((events ++ [ScopeEvent.introduce name span how]).filterMap
        ScopeEvent.nameStart?).reverse := by
    rw [List.filterMap_append, List.reverse_append]
    exact h.starts.cons_cons span.start
  rcases hfound with ⟨n, heq⟩ | heq
  · rw [heq]
    refine ⟨fun k hk => List.mem_cons_of_mem _ (h.named k ?_), hstarts⟩
    simpa [again, redeclare] using hk
  · rw [heq]
    refine ⟨fun k hk => ?_, hstarts⟩
    have hk : k < w.found.symbols.length + 1 := by simpa [withSymbol] using hk
    by_cases hlast : k = w.found.symbols.length
    · exact hlast ▸ List.mem_cons_self
    · exact List.mem_cons_of_mem _ (h.named k (by omega))

/-- So does any row of events. -/
theorem Named.walk {events more : List ScopeEvent} {w : ScopeWalk} (h : Named events w.found) :
    Named (events ++ more) (more.foldl ScopeWalk.step w).found := by
  induction more generalizing events w with
  | nil => exact (List.append_nil events).symm ▸ h
  | cons e more ih =>
      rw [List.append_cons]
      exact ih h.step

-- ============================================================ uses

/-- The offsets of the uses that a walk has met, those that wait last. -/
def useStarts (w : ScopeWalk) : List Nat :=
  w.found.uses.map Use.start ++ w.opened.flatMap fun s => s.waiting.map WaitingUse.start

/-- To introduce a name is to use none. -/
theorem uses_introduce (w : ScopeWalk) (name : String) (span : Span) (how : Introduction) :
    (step w (.introduce name span how)).found.uses = w.found.uses := by
  cases hfits : fits how.reach (w.opened.map (·.isWide)) with
  | false => rw [step_introduce_of_not_fits hfits]
  | true =>
      obtain ⟨_, n, -, -, -, hfound⟩ :=
        step_introduce_of_fits name span (List.append_nil w.opened).symm hfits
      rcases hfound with ⟨-, heq⟩ | ⟨-, heq⟩
      · rw [heq]
        rfl
      · rw [heq]
        rfl

/-- An introduction touches neither the uses nor what waits in the scopes. -/
theorem useStarts_introduce (w : ScopeWalk) (name : String) (span : Span) (how : Introduction) :
    (step w (.introduce name span how)).useStarts = w.useStarts := by
  cases hfits : fits how.reach (w.opened.map (·.isWide)) with
  | false => rw [step_introduce_of_not_fits hfits]
  | true =>
      obtain ⟨near, n, hopened, hshape, -, -⟩ :=
        step_introduce_of_fits name span (List.append_nil w.opened).symm hfits
      -- the shape of a scope says what waits in it
      have hwaiting : ∀ scopes : List OpenScope,
          scopes.flatMap (fun s => s.waiting.map WaitingUse.start)
            = (scopes.map shape).flatMap fun s => s.2.map WaitingUse.start := by
        intro scopes
        rw [List.flatMap_map]
        rfl
      rw [useStarts, useStarts, uses_introduce, hopened, List.append_nil, hwaiting, hshape,
        ← hwaiting]

/-- Of the uses that wait in a scope, all are settled or move on. -/
theorem count_settle (s : OpenScope) (a : Nat) :
    ((settle s).1.map Use.start).count a + ((settle s).2.map WaitingUse.start).count a
      = (s.waiting.map WaitingUse.start).count a := by
  unfold settle
  induction s.waiting with
  | nil => rfl
  | cons u us ih =>
      cases hlookup : s.names.lookup u.name with
      | none =>
          simp only [List.filterMap_cons, List.filter_cons, hlookup, Option.map_none,
            Option.isNone_none, if_true, List.map_cons, List.count_cons] at ih ⊢
          omega
      | some n =>
          simp only [List.filterMap_cons, List.filter_cons, hlookup, Option.map_some,
            Option.isNone_some, Bool.false_eq_true, if_false, List.map_cons,
            List.count_cons] at ih ⊢
          omega

/-- An event adds no use but its own. -/
theorem count_useStarts_step (w : ScopeWalk) (e : ScopeEvent) (a : Nat) :
    (step w e).useStarts.count a
      ≤ w.useStarts.count a + ([e].filterMap ScopeEvent.useStart?).count a := by
  cases e with
  | enter isWide => exact Nat.le_of_eq rfl
  | use name start isWrite =>
      have hown : [ScopeEvent.use name start isWrite].filterMap ScopeEvent.useStart? = [start] := rfl
      cases hw : w.opened with
      | nil =>
          rw [step_use_nil hw]
          omega
      | cons s outer =>
          rw [step_use_cons hw, hown]
          simp only [useStarts, hw, List.flatMap_cons, List.map_cons, List.count_append,
            List.count_cons, List.count_nil]
          omega
  | leave =>
      cases hw : w.opened with
      | nil =>
          simp only [step, hw]
          omega
      | cons s outer =>
          -- a scope that closes settles a use or hands it on, and does not do both
          have hsettle := count_settle s a
          cases outer with
          | nil =>
              have hglobal : ((settle s).2.map fun u => (⟨u.start, u.isWrite, none⟩ : Use)).map
                  Use.start = (settle s).2.map WaitingUse.start := List.map_map ..
              rw [step_leave_last hw]
              simp only [useStarts, hw, List.flatMap_cons, List.flatMap_nil, List.map_append,
                hglobal, List.count_append, List.count_nil]
              omega
          | cons t outer =>
              rw [step_leave_cons hw]
              simp only [useStarts, hw, List.flatMap_cons, List.map_append, List.count_append]
              omega
  | introduce name span how =>
      rw [useStarts_introduce]
      omega

/-- A row of events records no use more often than it has it. -/
theorem count_useStarts_walk (events : List ScopeEvent) (w : ScopeWalk) (a : Nat) :
    (events.foldl step w).useStarts.count a
      ≤ w.useStarts.count a + (events.filterMap ScopeEvent.useStart?).count a := by
  induction events generalizing w with
  | nil => exact Nat.le_refl _
  | cons e events ih =>
      have hstep := count_useStarts_step w e a
      have hrest := ih (step w e)
      rw [List.foldl_cons, ← List.singleton_append, List.filterMap_append, List.count_append]
      omega

end ScopeWalk

namespace Bindings

/-- In a table without repeated keys a lookup finds every entry. -/
theorem lookup_eq_some_iff_mem {entries : List (Nat × Nat)} (h : (entries.map Prod.fst).Nodup)
    {start n : Nat} : entries.lookup start = some n ↔ (start, n) ∈ entries := by
  induction entries with
  | nil => simp
  | cons e entries ih =>
      obtain ⟨start', n'⟩ := e
      obtain ⟨hnot, hnodup⟩ := List.nodup_cons.mp h
      by_cases heq : start = start'
      · subst heq
        have hno : (start, n) ∉ entries := fun hmem => hnot (List.mem_map.mpr ⟨_, hmem, rfl⟩)
        simp [hno, eq_comm]
      · rw [List.lookup_cons, beq_eq_false_iff_ne.mpr heq, List.mem_cons, ← ih hnodup]
        simp [heq]

section

variable {tree : Node}

/-- Every symbol of a program is declared by one of its introductions. -/
theorem named_ofProgram (tree : Node) :
    ScopeWalk.Named (ScopeEvent.ofProgram tree) (ofProgram tree) := by
  have hstart : ScopeWalk.Named [] ScopeWalk.start.found := ⟨nofun, List.nil_sublist _⟩
  exact hstart.walk

/-- Every number in the bindings of a program is that of a symbol. -/
theorem valid_ofProgram (tree : Node) :
    ScopeWalk.Valid ((ScopeEvent.ofProgram tree).foldl ScopeWalk.step ScopeWalk.start) :=
  ScopeWalk.valid_start.walk (ScopeWalk.grows_walk _ _)

/-- A program declares no offset twice. -/
theorem nodup_declared (ht : tree.WellPlaced) :
    ((ofProgram tree).declared.map Prod.fst).Nodup := by
  refine (named_ofProgram tree).starts.nodup ?_
  rw [ScopeEvent.ofProgram, ScopeEvent.nameStarts_fold ht]
  exact List.pairwise_reverse.mpr (ht.nodup_nameStarts.imp Ne.symm)

/-- Every use of a program is recorded once. -/
theorem nodup_uses (ht : tree.WellPlaced) : ((ofProgram tree).uses.map Use.start).Nodup := by
  refine List.nodup_iff_count.mpr fun a => ?_
  have hwalk := ScopeWalk.count_useStarts_walk (ScopeEvent.ofProgram tree) .start a
  rw [ScopeWalk.useStarts, List.count_append, ScopeEvent.ofProgram,
    ScopeEvent.useStarts_fold ht] at hwalk
  have honce := List.nodup_iff_count.mp ht.nodup_useStarts a
  have hstart : ScopeWalk.start.useStarts.count a = 0 := rfl
  show ((ofProgram tree).uses.map Use.start).count a ≤ 1
  rw [ofProgram, ScopeEvent.ofProgram]
  omega

/-- What is declared at an offset is what the list of declarations says of it. -/
theorem symbolOfName?_eq_some (ht : tree.WellPlaced) {start n : Nat} :
    (ofProgram tree).symbolOfName? start = some n ↔ (start, n) ∈ (ofProgram tree).declared :=
  lookup_eq_some_iff_mem (nodup_declared ht)

/-- A symbol that something uses is one of the program's. -/
theorem lt_of_symbolOfUse? {start n : Nat} (h : (ofProgram tree).symbolOfUse? start = some n) :
    n < (ofProgram tree).symbols.length := by
  obtain ⟨u, hu, hsymbol⟩ := Option.bind_eq_some_iff.mp h
  exact (valid_ofProgram tree).uses u (List.mem_of_find?_eq_some hu) n hsymbol

/-- Every symbol of a program is declared by a name in its text. -/
theorem exists_binding (ht : tree.WellPlaced) {n : Nat} (hn : n < (ofProgram tree).symbols.length) :
    ∃ b ∈ tree.bindings, (ofProgram tree).symbolOfName? b.span.start = some n := by
  obtain ⟨d, hd, rfl⟩ := List.mem_map.mp ((named_ofProgram tree).named n hn)
  have hstart := (named_ofProgram tree).starts.subset (List.mem_map_of_mem hd)
  rw [List.mem_reverse, ScopeEvent.ofProgram, ScopeEvent.nameStarts_fold ht] at hstart
  obtain ⟨b, hb, heq⟩ := Node.mem_nameStarts.mp hstart
  exact ⟨b, hb, (symbolOfName?_eq_some ht).mpr (heq ▸ hd)⟩

end

end Bindings

end Graft
