import Graft.Proofs.Edit.Declared
import Graft.Proofs.Plan.Targets
/-!
What a program is after a plan is carried out, said node by node.

# Two descriptions of one edit

`EditPlan.performed` says of every node what stands in its place when the plan is carried out. It
asks nothing but what the plan says of that node and what the node stands under: a statement, a
pattern, a declaration, or anything else.

The rebuilding of a program goes another way (`EditPlan.remake`). It asks of the children of every
form of node what that form may lose, it carries counts along, and it divides a declarator after the
fact: the parts of the declarator are rebuilt first, and then the properties that are to move are
looked up among the rebuilt ones.

On a plan that was made for the program the two agree (`EditPlan.MadeFor.agrees`,
`EditPlan.MadeFor.performed_tree`), so whatever is said about the result of an edit can be said of
`performed`, one node at a time.

# Where they could differ

- A property that moves out is rebuilt before it is taken out. The two descriptions agree because
  nothing inside of such a property is planned, so its rebuilt form is what it was
  (`EditPlan.MadeFor.remake_moved`), and because it is found again by its span
  (`EditPlan.MadeFor.movedValue?_remake`).
- Nothing moves out of a pattern that stands anywhere but directly under its declarator
  (`EditPlan.MadeFor.not_moved_below`), so no other node has to look for it.
- A statement that goes away stands neither in a pattern nor in a declaration
  (`EditPlan.MadeFor.alone_of_isRemoved`), so what a form may lose is told by the form alone.

The induction is on the node. For a declarator the claim about its children is one about the entries
of its pattern, each of which stays, goes away or moves (`EditPlan.MadeFor.entries_divided`).
-/
namespace Graft

namespace Form

/-- What is asked of children that are told what they stand under. The test of a case stands alone,
as the value of the switch does. -/
def askAll {α : Type} (form : Form) (children : List (Form → List α)) : List α :=
  match form, children with
  | .case, test :: statements => test .switch ++ statements.flatMap (· .case)
  | _, _ => children.flatMap (· form)

theorem askAll_nil {α : Type} (form : Form) : form.askAll ([] : List (Form → List α)) = [] := by
  cases form <;> rfl

/-- Children stand as values but in a place and in a chain. -/
theorem holdsValues_of_ne {form : Form} (hplace : form ≠ .place) (hchain : form ≠ .chain) :
    form.holdsValues = true := by
  unfold holdsValues
  split
  case h_1 => exact absurd rfl hplace
  case h_2 => exact absurd rfl hchain
  case h_3 => rfl

/-- Whether a child of a node of a form may stand under another form. -/
def Under (form above : Form) : Prop := above = form ∨ form = .case ∧ above = .switch

/-- The answers of the children are asked for under the form of the node, or under that of the
statement around a case. -/
theorem askAll_congr {α : Type} {form : Form} {children : List Node} {f g : Node → Form → List α}
    (h : ∀ k ∈ children, ∀ above, form.Under above → f k above = g k above) :
    form.askAll (children.map f) = form.askAll (children.map g) := by
  have hall : ∀ {ks : List Node}, (∀ k ∈ ks, k ∈ children) →
      (ks.map f).flatMap (· form) = (ks.map g).flatMap (· form) := by
    intro ks hks
    rw [List.flatMap_map, List.flatMap_map]
    exact congrArg List.flatten (List.map_congr_left fun k hk => h k (hks k hk) form (.inl rfl))
  cases form with
  | case =>
      cases children with
      | nil => rfl
      | cons test statements =>
          simp only [askAll, List.map_cons]
          rw [h test List.mem_cons_self .switch (.inr ⟨rfl, rfl⟩),
            hall fun k hk => List.mem_cons_of_mem _ hk]
  | _ => exact hall fun k hk => hk

/-- Children that answer with themselves are the answer. -/
theorem askAll_singleton (form : Form) (children : List Node) :
    form.askAll (children.map fun k _ => [k]) = children := by
  have hall : ∀ ks : List Node, (ks.map fun k (_ : Form) => [k]).flatMap (· form) = ks := by
    intro ks
    rw [List.flatMap_map, List.flatMap_singleton']
  cases form with
  | case =>
      cases children with
      | nil => rfl
      | cons test statements => exact congrArg (test :: ·) (hall statements)
  | _ => exact hall children

end Form

namespace EditPlan

open Node Survey

-- ============================================================ what is performed

/-- A property that moves out of its pattern: the method that it stands for, and its name. -/
def movedOut? (p : EditPlan) (property : Node) : Option (String × Node) :=
  match property with
  | .node (.patternProperty ..) _ [_, value] => (p.split? property).map fun s => (s.method, value)
  | _ => none

/-- The entries of the pattern of a declarator, if it has a pattern of properties. -/
def patternEntries (n : Node) : List Node :=
  match n with
  | .node .declarator _ [.node (.objectPattern _) _ properties, _] => properties
  | _ => []

/-- The properties that move out of the pattern of a declarator. -/
def movedFrom (p : EditPlan) (n : Node) : List (String × Node) :=
  (patternEntries n).filterMap p.movedOut?

section

variable {p : EditPlan} {n k : Node}

/-- An entry that stays moves nowhere. -/
theorem movedOut?_of_stays (h : p.isMoved n = false) : p.movedOut? n = none := by
  have hs : p.split? n = none := by simpa [isMoved] using h
  unfold movedOut?
  split
  case h_1 => rw [hs]; rfl
  case h_2 => rfl

/-- What moves out of its pattern is planned to. -/
theorem split?_of_movedOut? {m : String × Node} (h : p.movedOut? n = some m) :
    ∃ s, p.split? n = some s := by
  unfold movedOut? at h
  split at h
  case h_1 =>
    obtain ⟨s, hs, -⟩ := Option.map_eq_some_iff.mp h
    exact ⟨s, hs⟩
  case h_2 => cases h

/-- The entries of a declarator are those of its object pattern. -/
theorem of_mem_patternEntries (h : k ∈ patternEntries n) :
    ∃ span role own ks value,
      n = .node .declarator span [.node (.objectPattern role) own ks, value] ∧ k ∈ ks := by
  unfold patternEntries at h
  split at h
  case h_1 => exact ⟨_, _, _, _, _, rfl, h⟩
  case h_2 => cases h

/-- Nothing moves out of a declarator whose pattern is none of properties. -/
theorem movedFrom_of_shape (h : ∀ role own ks value,
    n.children ≠ [.node (.objectPattern role) own ks, value]) : p.movedFrom n = [] := by
  unfold movedFrom patternEntries
  split
  case h_1 => exact absurd rfl (h _ _ _ _)
  case h_2 => rfl

end

/-- What stands in place of a declarator, given what stands in place of its children: the declarator
without the properties that go away or move out, unless it goes away with an empty pattern, and
directly after it a declarator for each property that moved out, with a copy of the value. -/
def dividedInto (p : EditPlan) (plugin : String) (n : Node) (parts : List Node) : List Node :=
  match parts with
  | [.node (.objectPattern _) _ properties, value] =>
      (if p.droppable.contains n.span && properties.isEmpty then []
        else [.node .declarator n.span parts])
      ++ (p.movedFrom n).map fun m => Node.made .declarator [m.2, (value.access m.1).boundTo plugin]
  | _ => [.node .declarator n.span parts]

/-- What stands in place of a node that neither goes away nor moves out, given what stands in place
of its children. -/
def restored (p : EditPlan) (plugin : String) (form : Form) (span : Span) (children : List Node)
    (above : Form) (parts : List Node) : List Node :=
  let self : Node := .node form span parts
  match form with
  | .call .. =>
      if above = .chain then [self]
      else [((p.substitutions.lookup span).bind Node.ofChain?).getD self]
  | .member .. => [if p.boundMembers.contains span then self.boundTo plugin else self]
  | .variableDeclaration _ => if isStatementList above && parts.isEmpty then [] else [self]
  | .declarator => p.dividedInto plugin (.node form span children) parts
  | _ => [self]

/-- What stands in place of a node under a node of some form when a plan is carried out. -/
def performed (p : EditPlan) (plugin : String) : Node → Form → List Node :=
  fold fun form span children above =>
    let n : Node := .node form span (children.map Prod.fst)
    if p.isRemoved n then if isStatementList above then [] else [Node.made .empty []]
    else if p.isPruned n || p.isMoved n then []
    else p.restored plugin form span (children.map Prod.fst) above
      (form.askAll (children.map Prod.snd))

variable {v : Survey} {l : Liveness} {tree : Node} {p : EditPlan} {plugin : String} {n : Node}

/-- What stands in place of a node, from what stands in place of its children. -/
theorem performed_node (form : Form) (span : Span) (children : List Node) (above : Form) :
    p.performed plugin (.node form span children) above
      = if p.isRemoved (.node form span children) then
          if isStatementList above then [] else [Node.made .empty []]
        else if p.isPruned (.node form span children) || p.isMoved (.node form span children) then []
        else p.restored plugin form span children above
          (form.askAll (children.map (p.performed plugin))) := by
  rw [performed, fold_node]
  simp [Function.comp_def]

/-- What stands in place of a node that is neither a statement nor an entry of a pattern. -/
theorem performed_of_plain {form above : Form} {span : Span} {children : List Node}
    (hstatement : form ≠ .expressionStatement) (hentry : form.isEntry = false) :
    p.performed plugin (.node form span children) above
      = p.restored plugin form span children above
          (form.askAll (children.map (p.performed plugin))) := by
  have hstays : p.isRemoved (.node form span children) = false := isRemoved_eq_false hstatement
  have hkept : p.isPruned (.node form span children) = false := by
    rw [isPruned, show (node form span children).form.isEntry = false from hentry, Bool.false_and]
  have hunmoved : p.isMoved (.node form span children) = false := by
    refine eq_false_of_ne_true fun hmoved => ?_
    have hform : form.isPatternProperty = true := isPatternProperty_of_isMoved hmoved
    rw [isEntry_of_isPatternProperty hform] at hentry
    cases hentry
  rw [performed_node, hstays, hkept, hunmoved]
  rfl

/-- What the plan says nothing about stays as it is. -/
theorem performed_of_unplanned (hplans : ∀ m ∈ n.parts, p.plans m = false)
    (hdeclares : ∀ m ∈ n.parts, declaresNothing m = false) (above : Form) :
    p.performed plugin n above = [n] := by
  induction n generalizing above with
  | node form span children ih =>
      -- the children stay as they are, so only the node's own edit is in question
      have hchildren : form.askAll (children.map (p.performed plugin)) = children := by
        rw [Form.askAll_congr (g := fun k _ => [k]) fun k hk a _ =>
          ih k hk (fun m hm => hplans m (mem_parts_of_child hk hm))
            (fun m hm => hdeclares m (mem_parts_of_child hk hm)) a]
        exact Form.askAll_singleton form children
      have hself := hplans _ (self_mem_parts (node form span children))
      simp only [plans, isRewritten, Bool.or_eq_false_iff] at hself
      obtain ⟨⟨⟨⟨hstays, hsubstituted, hbound⟩, hkept⟩, hmoved⟩, hdivided⟩ := hself
      rw [performed_node, hstays, hkept, hmoved, hchildren, if_neg Bool.false_ne_true,
        Bool.or_self, if_neg Bool.false_ne_true]
      cases form with
      | call isOptional isPure =>
          -- no substitution is listed for the span: the plan would have had the call among its own
          have hlookup : p.substitutions.lookup span = none := by
            refine List.lookup_eq_none_iff.mpr fun e he => bne_iff_ne.mpr fun hspan => ?_
            have hmem : (p.substitutions.map Prod.fst).contains span = true :=
              List.contains_iff_mem.mpr (hspan ▸ List.mem_map_of_mem he)
            rw [isSubstituted, show (node (.call isOptional isPure) span children).span = span from rfl,
              hmem] at hsubstituted
            cases hsubstituted
          simp [restored, hlookup]
      | member isOptional name =>
          have hspan : p.boundMembers.contains span = false := hbound
          simp only [restored, hspan, Bool.false_eq_true, if_false]
      | variableDeclaration kind =>
          -- an empty declaration would vanish, but none of the parts declares nothing
          have hsome : children.isEmpty = false := by
            cases children with
            | nil => cases hdeclares _ (self_mem_parts _)
            | cons k ks => rfl
          simp [restored, hsome]
      | declarator =>
          have hdroppable : p.droppable.contains span = false :=
            (Bool.or_eq_false_iff.mp hdivided).2
          -- nothing moves out of a declarator: an entry with a split would be a planned part
          have hnone : p.movedFrom (node .declarator span children) = [] := by
            refine List.filterMap_eq_nil_iff.mpr fun k hk => movedOut?_of_stays ?_
            obtain ⟨_, _, _, _, _, heq, hk⟩ := of_mem_patternEntries hk
            obtain ⟨-, -, rfl⟩ := Node.node.inj heq
            have hk := hplans k (mem_parts_of_child List.mem_cons_self (child_mem_parts hk))
            simp only [plans, Bool.or_eq_false_iff] at hk
            exact hk.1.2
          have hspan : (node .declarator span children).span = span := rfl
          simp only [restored, dividedInto, hnone, hspan, hdroppable]
          split <;> rfl
      | _ => rfl

/-- A statement that goes away, where it does not stand in a pattern or in a declaration. -/
theorem replacement_of_isRemoved {above : Form} (hpattern : isPattern above = false)
    (hdeclaration : above.isDeclaration = false) (hgoes : p.isRemoved n = true) :
    p.replacement plugin above n
      = ⟨if isStatementList above then [] else [Node.made .empty []],
          { statementsElided := 1 }⟩ := by
  unfold replacement
  split
  case h_1 => cases hpattern
  case h_2 => cases hpattern
  case h_3 => cases hdeclaration
  case h_4 => rw [if_pos hgoes]

/-- What is done for a child that stays, where it is not divided. -/
theorem replacement_stats_of_stays {above : Form} (hdeclaration : above.isDeclaration = false)
    (hstays : p.isRemoved n = false) (hloses : p.losesEntry above n = false) :
    (p.replacement plugin above n).stats = (p.remake plugin above.holdsValues n).stats := by
  unfold replacement
  split
  case h_1 => rw [hloses]; rfl
  case h_2 => rw [hloses]; rfl
  case h_3 => cases hdeclaration
  case h_4 =>
    rw [hstays]
    simp only [Bool.false_eq_true, if_false]
    split <;> rfl

/-- What becomes of children is what becomes of each, one after the other. -/
theorem gather_result (above : Form) (ks : List Node) :
    (p.gather plugin above ks).result = ks.flatMap fun k => (p.replacement plugin above k).result := by
  induction ks with
  | nil => rfl
  | cons k ks ih => rw [gather, List.flatMap_cons, ih]

/-- The children of a form answer under the forms that it asks them under. -/
theorem gatherAll_result (form : Form) (children : List Node) :
    (p.gatherAll plugin form children).result
      = form.askAll (children.map fun k above => (p.replacement plugin above k).result) := by
  have hall : (p.gather plugin form children).result
      = (children.map fun k above => (p.replacement plugin above k).result).flatMap (· form) := by
    rw [gather_result, List.flatMap_map]
  cases form with
  | case =>
      cases children with
      | nil => rfl
      | cons test statements =>
          simp only [gatherAll, Form.askAll, List.map_cons, gather_result, List.flatMap_map]
  | _ => exact hall

namespace MadeFor

-- ============================================================ what a node stands under

/-- A statement that goes away stands neither in a pattern nor in a declaration. -/
theorem alone_of_isRemoved (h : MadeFor v l tree p) {q : Node} {above : Form} (hq : q ∈ tree.parts)
    (hn : n ∈ q.children) (habove : q.form.Under above) (hgoes : p.isRemoved n = true) :
    isPattern above = false ∧ above.isDeclaration = false := by
  rcases habove with rfl | ⟨-, rfl⟩
  · have hw := h.wellPlaced.part hq
    cases hw with
    | @node form _ _ fits parts =>
      refine ⟨eq_false_of_ne_true fun hform => ?_, eq_false_of_ne_true fun hform => ?_⟩
      · have hentries : form.holdsEntries = true := by
          cases form <;> first | rfl | cases hform
        rw [isRemoved_of_entry fits (.inl hentries) hn] at hgoes
        cases hgoes
      · rw [isRemoved_of_entry fits (.inr hform) hn] at hgoes
        cases hgoes
  · exact ⟨rfl, rfl⟩

/-- A pattern loses the entries that the plan takes away. -/
theorem losesEntry_eq (h : MadeFor v l tree p) {q : Node} {above : Form} (hq : q ∈ tree.parts)
    (hn : n ∈ q.children) (habove : q.form.Under above) :
    p.losesEntry above n = p.isPruned n := by
  cases hgoes : p.isPruned n with
  | true =>
      obtain ⟨_, pattern, _, q', hdeclarator, hreaches, hspare⟩ :=
        h.pruned (mem_parts_trans (child_mem_parts hn) hq) hgoes
      have hpattern := mem_parts_trans (child_mem_parts List.mem_cons_self) (kept_subset hdeclarator)
      obtain rfl := h.wellPlaced.parent_eq (mem_parts_trans hreaches.mem_parts hpattern) hq
        hspare.mem hn hspare.isBare_eq_false
      -- the entry is one of a pattern that the planner has gone into, so its form is that of a
      -- pattern
      rw [isPruned, Bool.and_eq_true] at hgoes
      have hform := hspare.pattern
      rcases habove with rfl | ⟨hcase, -⟩
      · rcases hspare.kind with hrest | ⟨⟨role, hrole⟩, -⟩
        · unfold losesEntry
          split
          case h_1 => exact hgoes.2
          case h_2 => rw [hrest, hgoes.2]; rfl
          case h_3 hobject harray =>
            unfold isPattern at hform
            split at hform
            case h_1 heq => exact absurd heq (hobject _)
            case h_2 heq => exact absurd heq (harray _)
            case h_3 => cases hform
        · rw [hrole]
          exact hgoes.2
      · rw [hcase] at hform
        cases hform
  | false =>
      -- the other way round, a form loses an entry only if the entry has the form and the span of
      -- one that goes away
      refine eq_false_of_ne_true fun hloses => ?_
      rw [isPruned] at hgoes
      cases q with
      | node form span children =>
      have hw := h.wellPlaced.part hq
      unfold losesEntry at hloses
      split at hloses
      case h_1 role =>
        rcases habove with heq | ⟨-, heq⟩
        · obtain rfl : .objectPattern role = form := heq
          cases hw with
          | node fits =>
            have hform : n.form.isEntry = true := by
              have hkind : n.form.isPatternProperty = true ∨ n.form = .rest := by
                rcases mem_dropLast_or_getLast? hn with h | h
                · exact .inl (fits.shape.1 n h)
                · exact fits.shape.2 n h
              rcases hkind with hkind | hkind
              · exact isEntry_of_isPatternProperty hkind
              · rw [hkind]; rfl
            rw [hform, hloses] at hgoes
            cases hgoes
        · cases heq
      case h_2 =>
        rw [Bool.and_eq_true, beq_iff_eq] at hloses
        rw [hloses.1, hloses.2] at hgoes
        cases hgoes
      case h_3 => cases hloses

/-- What moves out stands under a pattern of properties. -/
theorem not_moved_of_parent (h : MadeFor v l tree p) {q : Node} (hq : q ∈ tree.parts)
    (hn : n ∈ q.children) (hform : ∀ role, q.form ≠ .objectPattern role) : p.isMoved n = false := by
  refine eq_false_of_ne_true fun hmoved => ?_
  obtain ⟨s, hs⟩ := Option.isSome_iff_exists.mp hmoved
  obtain ⟨_, _, _, hmoves⟩ := h.moves (mem_parts_trans (child_mem_parts hn) hq) hs
  have hpt := mem_parts_trans (child_mem_parts List.mem_cons_self) (kept_subset hmoves.declarator)
  obtain ⟨role, hrole⟩ := hmoves.entry.pattern
  rw [← h.wellPlaced.parent_eq hq hpt hn hmoves.entry.mem (isBare_eq_false_of_isMoved hmoved)]
    at hrole
  exact hform role hrole

/-- What moves out of a pattern stands under the pattern of a declarator. -/
theorem not_moved_below (h : MadeFor v l tree p) {m k : Node} (hm : m ∈ tree.parts)
    (hk : k ∈ m.children) (hn : n ∈ k.children)
    (hform : ∀ span pattern value, m = .node .declarator span [pattern, value] → k ≠ pattern
      ∨ ∀ role, k.form ≠ .objectPattern role) : p.isMoved n = false := by
  refine eq_false_of_ne_true fun hmoved => ?_
  obtain ⟨s, hs⟩ := Option.isSome_iff_exists.mp hmoved
  have hkt := mem_parts_trans (child_mem_parts hk) hm
  obtain ⟨span, pattern, value, hmoves⟩ := h.moves (mem_parts_trans (child_mem_parts hn) hkt) hs
  have hdt := kept_subset hmoves.declarator
  have hpt := mem_parts_trans (child_mem_parts List.mem_cons_self) hdt
  obtain rfl := h.wellPlaced.parent_eq hkt hpt hn hmoves.entry.mem (isBare_eq_false_of_isMoved hmoved)
  obtain ⟨role, hrole⟩ := hmoves.entry.pattern
  have hkb : k.isBare = false := isBare_eq_false_of_form (by rw [hrole]; rfl)
  have hsame := h.wellPlaced.parent_eq hm hdt hk List.mem_cons_self hkb
  rcases hform span k value hsame with hne | hne
  · exact hne rfl
  · exact hne role hrole

/-- No call is assigned to. -/
theorem above_ne_place (h : MadeFor v l tree p) {q : Node} {above : Form} (hq : q ∈ tree.parts)
    (hn : n ∈ q.children) (habove : q.form.Under above) (hcall : n.form.isCall = true) :
    above ≠ .place := by
  rintro rfl
  rcases habove with heq | ⟨-, heq⟩
  · have hw := h.wellPlaced.part hq
    cases hw with
    | @node form _ _ fits parts =>
      obtain rfl : .place = form := heq
      have htarget := fits.shape n hn
      obtain ⟨_, _, hform⟩ := exists_form_of_isCall hcall
      rw [hform] at htarget
      cases htarget
  · cases heq

theorem form_of_rank {form : Form} (h : form.rank = Form.rank .declarator) :
    form = .declarator := by
  cases form <;> first | rfl | cases h

/-- What stands under a declaration are declarators, and they stand nowhere else. -/
theorem isDeclaration_iff (h : MadeFor v l tree p) {q : Node} {above : Form} (hq : q ∈ tree.parts)
    (hn : n ∈ q.children) (habove : q.form.Under above) :
    above.isDeclaration = true ↔ n.form = .declarator := by
  have hw := h.wellPlaced.part hq
  cases hw with
  | @node form _ _ fits parts =>
    constructor
    · intro hform
      rcases habove with rfl | ⟨-, rfl⟩
      · exact form_of_rank (fits.declarators hform n hn)
      · cases hform
    · intro hform
      have hdeclaration : form.isDeclaration = true := by
        refine eq_true_of_ne_false fun hno => ?_
        have hlt := fits.free hno n hn
        rw [hform] at hlt
        exact absurd hlt (by decide)
      rcases habove with rfl | ⟨hcase, -⟩
      · exact hdeclaration
      · obtain rfl : form = .case := hcase
        cases hdeclaration

-- ============================================================ nodes put together again

/-- The node that is put together again stands in place of a node that is no declarator, unless it
is a statement that declares nothing any more. -/
theorem restored_eq {form above : Form} {span : Span} {children : List Node}
    {parts : Edited (List Node)} (hdeclarator : form ≠ .declarator)
    (hcall : form.isCall = true → above ≠ .place)
    (hbound : p.isBound (.node form span children) = true → above.holdsValues = true) :
    p.restored plugin form span children above parts.result
      = if isStatementList above
            && declaresNothing (p.finish plugin form span above.holdsValues parts).result then []
        else [(p.finish plugin form span above.holdsValues parts).result] := by
  -- nothing but a declaration can be without declarators
  have hstays : ∀ {form' : Form} {span' : Span} {ks : List Node},
      (∀ kind, form' ≠ .variableDeclaration kind) →
      [node form' span' ks] = if isStatementList above && declaresNothing (node form' span' ks)
        then [] else [node form' span' ks] := by
    intro form' span' ks hform
    have hno : declaresNothing (node form' span' ks) = false := by
      unfold declaresNothing
      split
      case h_1 heq =>
        cases heq
        exact absurd rfl (hform _)
      case h_2 => rfl
    rw [hno, Bool.and_false]
    rfl
  cases form with
  | declarator => exact absurd rfl hdeclarator
  -- a declaration stays if a declarator is left, and both sides ask the same
  | variableDeclaration kind =>
      obtain ⟨ks, stats⟩ := parts
      cases ks with
      | nil => rfl
      | cons k ks => rfl
  | call isOptional isPure =>
      simp only [restored, finish]
      -- a call at the end of an optional chain stays, whatever the plan says of its span
      by_cases hchain : above = .chain
      · subst hchain
        exact hstays fun _ h => by cases h
      · have hvalues : above.holdsValues = true := Form.holdsValues_of_ne (hcall rfl) hchain
        simp only [if_neg hchain, hvalues, if_true]
        cases hlookup : (p.substitutions.lookup span).bind ofChain? with
        | none => exact hstays fun _ h => by cases h
        | some chain =>
            obtain ⟨names, -, hchain⟩ := Option.bind_eq_some_iff.mp hlookup
            cases chain with
            | node form' span' ks =>
            refine hstays fun kind hform => ?_
            rcases form_of_isStaticChain (isStaticChain_ofChain hchain).1 with
              ⟨_, heq⟩ | ⟨_, _, heq⟩
            · rw [show form' = _ from heq] at hform
              cases hform
            · rw [show form' = _ from heq] at hform
              cases hform
  | member isOptional name =>
      simp only [restored, finish]
      by_cases hspan : p.boundMembers.contains span = true
      · have hvalues : above.holdsValues = true :=
          hbound (by rw [isBound, Bool.and_eq_true]; exact ⟨rfl, hspan⟩)
        simp only [hspan, hvalues, Bool.and_true, if_true]
        exact hstays fun _ h => by cases h
      · simp only [eq_false_of_ne_true hspan, Bool.and_false, Bool.false_eq_true, if_false]
        exact hstays fun _ h => by cases h
  | _ => exact hstays fun _ h => by cases h

/-- What stands in place of a node that is no declarator and stays. -/
theorem replacement_eq_restored (h : MadeFor v l tree p) {q : Node} {above form : Form} {span : Span}
    {children : List Node} (hq : q ∈ tree.parts) (hn : .node form span children ∈ q.children)
    (habove : q.form.Under above) (hstays : p.isRemoved (.node form span children) = false)
    (hkept : p.isPruned (.node form span children) = false) (hdeclarator : form ≠ .declarator) :
    (p.replacement plugin above (.node form span children)).result
      = p.restored plugin form span children above (p.gatherAll plugin form children).result := by
  rw [restored_eq hdeclarator (fun hcall => h.above_ne_place hq hn habove hcall) fun hbound => ?_]
  · unfold replacement
    simp only [remake_eq]
    split
    case h_1 =>
      rw [h.losesEntry_eq hq hn habove, hkept]
      rfl
    case h_2 =>
      rw [h.losesEntry_eq hq hn habove, hkept]
      rfl
    case h_3 => exact absurd ((h.isDeclaration_iff hq hn habove).mp rfl) hdeclarator
    case h_4 =>
      rw [hstays]
      simp only [Bool.false_eq_true, if_false]
      split
      · rfl
      · rfl
  · rcases habove with rfl | ⟨-, rfl⟩
    · exact h.holdsValues_of_isBound hq hn hbound
    · rfl

-- ============================================================ declarators

/-- Whether what stands in place of a node is what is performed, wherever the node stands; the
node is no property that moves out, and no pattern of one. -/
def Agrees (p : EditPlan) (plugin : String) (tree n : Node) : Prop :=
  ∀ q ∈ tree.parts, n ∈ q.children → ∀ above, q.form.Under above → p.isMoved n = false →
    (∀ k ∈ n.children, p.isMoved k = false) →
      (p.replacement plugin above n).result = p.performed plugin n above

/-- What stands in place of the children of a node, if nothing below them moves out. -/
theorem gatherAll_performed {form : Form} {span : Span} {children : List Node}
    (hn : .node form span children ∈ tree.parts) (ih : ∀ k ∈ children, Agrees p plugin tree k)
    (hkids : ∀ k ∈ children, p.isMoved k = false)
    (hbelow : ∀ k ∈ children, ∀ m ∈ k.children, p.isMoved m = false) :
    (p.gatherAll plugin form children).result
      = form.askAll (children.map (p.performed plugin)) := by
  rw [gatherAll_result]
  exact Form.askAll_congr fun k hk above habove =>
    ih k hk _ hn hk above habove (hkids k hk) (hbelow k hk)

/-- Words stay what they are. -/
theorem remake_word {isValue : Bool} (hw : n.WellPlaced) (hword : n.form.isWord = true) :
    p.remake plugin isValue n = ⟨n, .zero⟩ := by
  cases hw with
  | @node form span children fits parts =>
    obtain rfl := fits.word hword
    rw [remake_eq]
    cases form <;> first | rfl | cases hword

/-- A property that moves out of a pattern is not touched before. -/
theorem remake_moved (h : MadeFor v l tree p) (hn : n ∈ tree.parts) {s : PropertySplit}
    (hs : p.split? n = some s) (isValue : Bool) :
    ∃ isComputed isShorthand key value,
      n = .node (.patternProperty isComputed isShorthand) n.span [key, value]
        ∧ (p.remake plugin isValue n).result = n := by
  obtain ⟨span, pattern, value, hmoves⟩ := h.moves hn hs
  obtain ⟨isShorthand, key, name, rfl, hkey, ⟨text, hname⟩, -⟩ := hmoves.entry.kind
  refine ⟨false, isShorthand, key, name, rfl, ?_⟩
  have hw := h.wellPlaced.part hn
  have hword : ∀ k ∈ [key, name], p.replacement plugin (.patternProperty false isShorthand) k
      = ⟨[k], .zero⟩ := by
    intro k hk
    have hform : k.form.isWord = true := by
      rcases List.mem_cons.mp hk with rfl | hk
      · rw [hkey]; rfl
      · rw [List.mem_singleton.mp hk, hname]; rfl
    have hstays : p.isRemoved k = false := isRemoved_eq_false fun heq => by
      rw [heq] at hform
      cases hform
    rw [rebuildOne_eq p plugin rfl, rebuildOne, if_neg (by simp [hstays])]
    exact congrArg (fun e : Edited Node => (⟨[e.result], e.stats⟩ : Edited (List Node)))
      (remake_word (hw.part (child_mem_parts hk)) hform)
  have hparts : p.gatherAll plugin (.patternProperty false isShorthand) [key, name]
      = ⟨[key, name], .zero⟩ := by
    simp only [gatherAll, gather, hword key List.mem_cons_self,
      hword name (List.mem_cons_of_mem _ List.mem_cons_self)]
    rfl
  rw [remake_eq, hparts]
  rfl

section

variable {span own : Span} {role : PatternRole} {properties : List Node} {value : Node}

/-- What a declarator looks for when it is divided is what the plan says of its properties. -/
theorem movedValue?_remake (h : MadeFor v l tree p)
    (hd : .node .declarator span [.node (.objectPattern role) own properties, value] ∈ tree.parts)
    (hn : n ∈ properties) :
    movedValue? ((p.splits.lookup span).getD []) (p.remake plugin true n).result
      = p.movedOut? n := by
  have hpt := mem_parts_trans (child_mem_parts List.mem_cons_self) hd
  have hnt : n ∈ tree.parts := mem_parts_trans (mem_parts_of_child hn (self_mem_parts n)) hpt
  cases hs : p.split? n with
  | some s =>
      obtain ⟨isComputed, isShorthand, key, name, heq, hremade⟩ := h.remake_moved hnt hs true
      have hform : n.form.isPatternProperty = true := by rw [heq]; rfl
      have hfind := h.find?_splits hd hn hform
      rw [hremade, heq]
      simp only [movedValue?, movedOut?]
      rw [← heq, hfind]
  | none =>
      have hstays : p.isMoved n = false := by rw [isMoved, hs]; rfl
      rw [movedOut?_of_stays hstays]
      unfold movedValue?
      split
      case h_1 isComputed isShorthand span' key name heq =>
        obtain ⟨children, parts, rfl, -, -⟩ := of_remake_eq heq rfl
        have hfind : ((p.splits.lookup span).getD []).find? (fun s => s.property == span') = _ :=
          h.find?_splits hd hn rfl
        rw [hfind, hs]
        rfl
      case h_2 => rfl

/-- What stands in place of an entry of a pattern that is divided: what stays of it is what is
performed, and what moves out is what the plan says. -/
theorem entry_divided (h : MadeFor v l tree p)
    (hd : .node .declarator span [.node (.objectPattern role) own properties, value] ∈ tree.parts)
    (hn : n ∈ properties) (ih : Agrees p plugin tree n) :
    (p.replacement plugin (.objectPattern role) n).result.filter
        (fun x => (movedValue? ((p.splits.lookup span).getD []) x).isNone)
          = p.performed plugin n (.objectPattern role)
      ∧ (p.replacement plugin (.objectPattern role) n).result.filterMap
        (movedValue? ((p.splits.lookup span).getD [])) = (p.movedOut? n).toList := by
  have hpt := mem_parts_trans (child_mem_parts List.mem_cons_self) hd
  have hnt : n ∈ tree.parts := mem_parts_trans (mem_parts_of_child hn (self_mem_parts n)) hpt
  have hvalue : movedValue? ((p.splits.lookup span).getD []) (p.remake plugin true n).result
      = p.movedOut? n := h.movedValue?_remake hd hn
  have hloses : p.losesEntry (.objectPattern role) n = p.isPruned n :=
    h.losesEntry_eq hpt hn (.inl rfl)
  have hreplacement : (p.replacement plugin (.objectPattern role) n).result
      = if p.isPruned n then [] else [(p.remake plugin true n).result] := by
    simp only [replacement, hloses]
    split <;> rfl
  have halone : p.isRemoved n = false := by
    have hw := h.wellPlaced.part hpt
    cases hw with
    | node fits => exact isRemoved_of_entry fits (.inl rfl) hn
  cases hmoved : p.isMoved n with
  | true =>
      -- the property is put aside as it is
      have hkept : p.isPruned n = false := by
        refine eq_false_of_ne_true fun hgoes => ?_
        rw [h.not_moved_of_pruned hnt hgoes] at hmoved
        cases hmoved
      obtain ⟨s, hs⟩ := Option.isSome_iff_exists.mp hmoved
      have hsome : ∃ m, p.movedOut? n = some m := by
        obtain ⟨_, _, _, hmoves⟩ := h.moves hnt hs
        obtain ⟨isShorthand, key, name, rfl, -⟩ := hmoves.entry.kind
        exact ⟨(s.method, name), by simp only [movedOut?, hs, Option.map_some]⟩
      obtain ⟨m, hm⟩ := hsome
      have hperformed : p.performed plugin n (.objectPattern role) = [] := by
        cases n with
        | node form span' children =>
          rw [performed_node, halone, hmoved, Bool.or_true]
          rfl
      rw [hreplacement, hkept, hperformed]
      simp [hvalue, hm]
  | false =>
      have hnone : p.movedOut? n = none := movedOut?_of_stays hmoved
      have hkids : ∀ k ∈ n.children, p.isMoved k = false := fun k hk =>
        h.not_moved_below hpt hn hk fun _ _ _ heq => by cases heq
      have hperformed : (p.replacement plugin (.objectPattern role) n).result
          = p.performed plugin n (.objectPattern role) := ih _ hpt hn _ (.inl rfl) hmoved hkids
      rw [← hperformed, hreplacement, hnone]
      split
      · exact ⟨rfl, rfl⟩
      · simp [hvalue, hnone]

/-- What stands in place of the entries of a pattern that is divided. -/
theorem entries_divided (h : MadeFor v l tree p)
    (hd : .node .declarator span [.node (.objectPattern role) own properties, value] ∈ tree.parts)
    {ks : List Node} (hks : ∀ k ∈ ks, k ∈ properties) (ih : ∀ k ∈ ks, Agrees p plugin tree k) :
    (p.gather plugin (.objectPattern role) ks).result.filter
        (fun x => (movedValue? ((p.splits.lookup span).getD []) x).isNone)
          = ks.flatMap (p.performed plugin · (.objectPattern role))
      ∧ (p.gather plugin (.objectPattern role) ks).result.filterMap
        (movedValue? ((p.splits.lookup span).getD [])) = ks.filterMap p.movedOut? := by
  induction ks with
  | nil => exact ⟨rfl, rfl⟩
  | cons k ks ihks =>
      obtain ⟨hstays, hmoves⟩ := h.entry_divided hd (hks k List.mem_cons_self)
        (ih k List.mem_cons_self)
      obtain ⟨hstays', hmoves'⟩ := ihks (fun k' hk' => hks k' (List.mem_cons_of_mem _ hk'))
        fun k' hk' => ih k' (List.mem_cons_of_mem _ hk')
      simp only [gather, List.filter_append, List.filterMap_append, hstays, hmoves, hstays',
        hmoves', List.flatMap_cons, List.filterMap_cons, true_and]
      cases p.movedOut? k with
      | none => rfl
      | some m => rfl

/-- The value of a declarator is not its pattern. -/
theorem not_moved_of_value (h : MadeFor v l tree p) {pattern : Node}
    (hd : .node .declarator span [pattern, value] ∈ tree.parts) :
    p.isMoved value = false ∧ ∀ k ∈ value.children, p.isMoved k = false := by
  have hvalue : value ∈ (node .declarator span [pattern, value]).children :=
    List.mem_cons_of_mem _ List.mem_cons_self
  refine ⟨?_, fun k hk => h.not_moved_below hd hvalue hk fun _ _ _ heq => ?_⟩
  · exact h.not_moved_of_parent hd hvalue nofun
  · obtain ⟨-, -, hsame⟩ := Node.node.inj heq
    obtain ⟨rfl, -⟩ := List.cons.inj hsame
    by_cases hbare : value.isBare = true
    · refine .inr fun role hrole => ?_
      rw [isBare_eq_false_of_form (by rw [hrole]; rfl)] at hbare
      cases hbare
    · refine .inl fun heq => ?_
      subst heq
      have hw := h.wellPlaced.part hd
      cases hw with
      | node fits parts =>
        have hb := eq_false_of_ne_true hbare
        have hapart := (List.pairwise_cons.mp (fits.apart parts)).1 value List.mem_cons_self hb hb
        have hlt := (fits.part_sits (parts value List.mem_cons_self) List.mem_cons_self
          (self_mem_parts value) hb).2.1
        omega

/-- A declarator of a pattern of properties is divided as the plan says. -/
theorem divided_object (h : MadeFor v l tree p) (above : Form)
    (hd : .node .declarator span [.node (.objectPattern role) own properties, value] ∈ tree.parts)
    (ih : ∀ k ∈ properties, Agrees p plugin tree k) (ihvalue : Agrees p plugin tree value) :
    splitDeclarator plugin ((p.splits.lookup span).getD []) (p.droppable.contains span)
        (p.remake plugin true
          (.node .declarator span [.node (.objectPattern role) own properties, value])).result
      = ⟨p.performed plugin
          (.node .declarator span [.node (.objectPattern role) own properties, value]) above,
        { declaratorsSplit := (p.movedFrom
          (.node .declarator span [.node (.objectPattern role) own properties, value])).length }⟩ := by
  have hvaluem : value ∈ (node .declarator span
      [node (.objectPattern role) own properties, value]).children :=
    List.mem_cons_of_mem _ List.mem_cons_self
  obtain ⟨hunmoved, hkids⟩ := h.not_moved_of_value hd
  have hvalue : (p.replacement plugin .declarator value).result
      = p.performed plugin value .declarator := ihvalue _ hd hvaluem _ (.inl rfl) hunmoved hkids
  have hone : ∃ x, (p.replacement plugin .declarator value).result = [x] :=
    ⟨_, by rw [rebuildOne_eq p plugin rfl]⟩
  obtain ⟨x, hx⟩ := hone
  obtain ⟨hstays, hmoves⟩ := h.entries_divided hd (fun k hk => hk) ih
  -- the declarator before it is divided
  have hremade : (p.remake plugin true
        (.node .declarator span [.node (.objectPattern role) own properties, value])).result
      = .node .declarator span [.node (.objectPattern role) own
          (p.gather plugin (.objectPattern role) properties).result, x] := by
    have hpattern :
        (p.replacement plugin .declarator (.node (.objectPattern role) own properties)).result
        = [.node (.objectPattern role) own
            (p.gather plugin (.objectPattern role) properties).result] := by
      rw [rebuildOne_eq p plugin rfl, rebuildOne, if_neg (by
        rw [show p.isRemoved (told p plugin (node (.objectPattern role) own properties)).1 = false
          from isRemoved_eq_false fun h => by cases h]
        exact Bool.false_ne_true)]
      show [(p.remake plugin true (node (.objectPattern role) own properties)).result] = _
      rw [remake_eq]
      rfl
    rw [remake_eq]
    simp only [gatherAll, finish, gather, hpattern, hx]
    rfl
  have hparts : Form.askAll .declarator
        ([.node (.objectPattern role) own properties, value].map (p.performed plugin))
      = [.node (.objectPattern role) own
          (properties.flatMap (p.performed plugin · (.objectPattern role))), x] := by
    have hpattern : p.performed plugin (.node (.objectPattern role) own properties) .declarator
        = [.node (.objectPattern role) own
            (properties.flatMap (p.performed plugin · (.objectPattern role)))] := by
      have hform : Form.objectPattern role ≠ .expressionStatement := fun h => by cases h
      rw [performed_of_plain hform rfl]
      simp only [restored, Form.askAll, List.flatMap_map]
    simp only [Form.askAll, List.map_cons, List.map_nil, List.flatMap_cons, List.flatMap_nil,
      hpattern, ← hvalue, hx]
    rfl
  have hform : Form.declarator ≠ .expressionStatement := fun h => by cases h
  rw [hremade, performed_of_plain hform rfl, hparts]
  simp only [splitDeclarator, hstays, hmoves, restored, dividedInto, movedFrom,
    patternEntries, List.length_map]
  rfl

end

/-- A declarator of any other pattern is not divided. -/
theorem divided_other (h : MadeFor v l tree p) {span : Span} {children : List Node}
    (above : Form) (hd : .node .declarator span children ∈ tree.parts)
    (hshape : ∀ role own properties value,
      children ≠ [.node (.objectPattern role) own properties, value])
    (ih : ∀ k ∈ children, Agrees p plugin tree k) :
    splitDeclarator plugin ((p.splits.lookup span).getD []) (p.droppable.contains span)
        (p.remake plugin true (.node .declarator span children)).result
      = ⟨p.performed plugin (.node .declarator span children) above,
        { declaratorsSplit := (p.movedFrom (.node .declarator span children)).length }⟩ := by
  have hparts := gatherAll_performed hd ih
    (fun k hk => h.not_moved_of_parent hd hk nofun) fun k hk m hm =>
      h.not_moved_below hd hk hm fun span' pattern value heq => by
        obtain ⟨-, -, rfl⟩ := Node.node.inj heq
        by_cases hsame : k = pattern
        · subst hsame
          refine .inr fun role hrole => ?_
          cases k with
          | node form own properties =>
            obtain rfl : form = .objectPattern role := hrole
            exact hshape role own properties value rfl
        · exact .inl hsame
  have hremade : (p.remake plugin true (.node .declarator span children)).result
      = .node .declarator span (Form.declarator.askAll (children.map (p.performed plugin))) := by
    rw [remake_eq, ← hparts]
    rfl
  -- a pattern that is rebuilt into one of properties is one of properties
  have hno : ∀ role own properties value,
      Form.declarator.askAll (children.map (p.performed plugin))
        ≠ [.node (.objectPattern role) own properties, value] := by
    intro role own properties value heq
    rw [← hparts, (allBecome_gatherAll p plugin .declarator children).fixed rfl] at heq
    obtain ⟨pattern, rest, rfl, hpattern, hrest⟩ := List.map_eq_cons_iff.mp heq
    obtain ⟨init, rfl, -⟩ := List.map_eq_singleton_iff.mp hrest
    split at hpattern
    · cases hpattern
    · obtain ⟨_, _, rfl, -, -⟩ := of_remake_eq hpattern rfl
      exact hshape role own _ init rfl
  have hmoved : p.movedFrom (.node .declarator span children) = [] := movedFrom_of_shape hshape
  have hform : Form.declarator ≠ .expressionStatement := nofun
  have hperformed : p.performed plugin (.node .declarator span children) above
      = [.node .declarator span (Form.declarator.askAll (children.map (p.performed plugin)))] := by
    rw [performed_of_plain hform rfl]
    unfold restored dividedInto
    dsimp only
    split
    case h_1 heq => exact absurd heq (hno _ _ _ _)
    case h_2 => rfl
  rw [hremade, hmoved, hperformed]
  unfold splitDeclarator
  split
  case h_1 heq =>
    obtain ⟨-, -, heq⟩ := Node.node.inj heq
    exact absurd heq (hno _ _ _ _)
  case h_2 => rfl

/-- A declarator is divided as the plan says. -/
theorem divided (h : MadeFor v l tree p) {span : Span} {children : List Node} (above : Form)
    (hd : .node .declarator span children ∈ tree.parts)
    (ih : ∀ k ∈ children, ∀ m ∈ k.parts, Agrees p plugin tree m) :
    splitDeclarator plugin ((p.splits.lookup span).getD []) (p.droppable.contains span)
        (p.remake plugin true (.node .declarator span children)).result
      = ⟨p.performed plugin (.node .declarator span children) above,
        { declaratorsSplit := (p.movedFrom (.node .declarator span children)).length }⟩ := by
  by_cases hshape : ∃ role own properties value,
      children = [.node (.objectPattern role) own properties, value]
  · obtain ⟨role, own, properties, value, rfl⟩ := hshape
    refine h.divided_object above hd (fun k hk => ?_) ?_
    · exact ih _ List.mem_cons_self k (mem_parts_of_child hk (self_mem_parts k))
    · exact ih value (List.mem_cons_of_mem _ List.mem_cons_self) value (self_mem_parts value)
  · refine h.divided_other above hd (fun role own properties value heq => ?_)
      fun k hk => ih k hk k (self_mem_parts k)
    exact hshape ⟨role, own, properties, value, heq⟩

-- ============================================================ any node

/-- What stands in place of a node is what is performed. -/
theorem agrees (h : MadeFor v l tree p) (n : Node) (hn : n ∈ tree.parts) :
    ∀ m ∈ n.parts, Agrees p plugin tree m := by
  induction n with
  | node form span children ih =>
      have hbelow : ∀ k ∈ children, ∀ m ∈ k.parts, Agrees p plugin tree m := fun k hk =>
        ih k hk (mem_parts_trans (mem_parts_of_child hk (self_mem_parts k)) hn)
      intro m hm
      rcases mem_parts_node.mp hm with rfl | ⟨k, hk, hmk⟩
      case inr => exact hbelow k hk m hmk
      intro q hq hnq above habove hunmoved hkids
      by_cases hgoes : p.isRemoved (node form span children) = true
      · obtain ⟨hpattern, hdeclaration⟩ := h.alone_of_isRemoved hq hnq habove hgoes
        rw [performed_node, if_pos hgoes,
          replacement_of_isRemoved hpattern hdeclaration hgoes]
      have hstays := eq_false_of_ne_true hgoes
      by_cases hpruned : p.isPruned (node form span children) = true
      · -- only a pattern has entries that go away
        have hloses := h.losesEntry_eq hq hnq habove
        rw [hpruned] at hloses
        rw [performed_node, if_neg hgoes, hpruned, Bool.true_or, if_pos rfl,
          replacement_of_losesEntry p plugin hloses]
      have hkept := eq_false_of_ne_true hpruned
      by_cases hdeclarator : form = .declarator
      · subst hdeclarator
        have hdeclaration := (h.isDeclaration_iff hq hnq habove).mpr rfl
        obtain ⟨kind, rfl⟩ := Form.exists_of_isDeclaration hdeclaration
        exact congrArg Edited.result (h.divided (.variableDeclaration kind) hn hbelow)
      · have hparts := gatherAll_performed hn (fun k hk => hbelow k hk k (self_mem_parts k)) hkids
          fun k hk m hm => h.not_moved_below hn hk hm fun _ _ _ heq =>
            absurd (Node.node.inj heq).1 hdeclarator
        rw [h.replacement_eq_restored hq hnq habove hstays hkept hdeclarator, hparts, performed_node,
          hstays, hkept, hunmoved]
        rfl

/-- The program that an edit makes is what is performed. -/
theorem performed_tree (h : MadeFor v l tree p) (above : Form) :
    p.performed plugin tree above = [(p.apply plugin tree).1] := by
  obtain ⟨hashbang, hform⟩ := h.program
  cases tree with
  | node form span children =>
  obtain rfl : form = .program hashbang := hform
  have hn := self_mem_parts (node (.program hashbang) span children)
  have hparts : (p.gatherAll plugin (.program hashbang) children).result
      = Form.askAll (.program hashbang) (children.map (p.performed plugin)) :=
    gatherAll_performed hn
      (fun k hk => h.agrees k (mem_parts_of_child hk (self_mem_parts k)) k (self_mem_parts k))
      (fun k hk => h.not_moved_of_parent hn hk nofun) fun k hk m hm =>
        h.not_moved_below hn hk hm fun _ _ _ heq => by cases heq
  have hplain : Form.program hashbang ≠ .expressionStatement := nofun
  have happly : (p.apply plugin (node (.program hashbang) span children)).1
      = (p.remake plugin true (node (.program hashbang) span children)).result := rfl
  rw [performed_of_plain hplain rfl, happly, remake_eq, ← hparts]
  rfl

end MadeFor

end EditPlan

end Graft
