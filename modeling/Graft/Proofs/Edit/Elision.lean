import Graft.Proofs.Edit.Declared
import Graft.Proofs.Plan.Targets
import Graft.Proofs.Scope.Rest
/-!
A program without the statements that a plan removes.

The counts that the second walk goes by are meant to be those of this program, which is never made:
the edits of a plan that only removes statements (`EditPlan.elisions`) rebuild every other node as
it is.

# What it is for the scopes

A statement that goes away introduces no name outside of itself, so its events are an enclosed
segment of those of the program, and taking it away cuts that segment out. `EditPlan.Leaves` says of
two rows of events that the second one is the first one with such segments cut out, and
`EditPlan.leaves_remake` that the events of a node are left so by the statements in it that go away.
The induction follows the events: those of a node are its own and those of its children, one after
the other, the last ones possibly in a scope, and each of these ways of putting rows together
carries `Leaves` along (`EditPlan.Leaves.append`, `EditPlan.Leaves.inScope`).

What is gone then are the words of the statements (`EditPlan.MadeFor.leaves_apply`), each once, for
no statement that goes away stands inside of another (`EditPlan.MadeFor.separate`).
-/
namespace Graft

/-- What is assigned to and is no name is told as any other value. -/
theorem ScopeEvent.algebra_place {span : Span} {target : Child Meaning} {how : Introduction}
    (h : ∀ name, target.1.form ≠ .identifier name) :
    algebra .place span [target] how = target.2 how := by
  obtain ⟨target, inner⟩ := target
  simp only [algebra]

namespace EditPlan

open Node

/-- The plan that only removes the statements that the plan removes. -/
def elisions (p : EditPlan) : EditPlan := { removedStatements := p.removedStatements }

variable {p : EditPlan} {plugin : String}

@[simp] theorem isRemoved_elisions (p : EditPlan) (n : Node) :
    p.elisions.isRemoved n = p.isRemoved n := rfl

/-- Every node is put together again as it was. -/
theorem finish_elisions (form : Form) (span : Span) (isValue : Bool) (parts : Edited (List Node)) :
    p.elisions.finish plugin form span isValue parts
      = ⟨.node form span parts.result, parts.stats⟩ := by
  have hnone : (if isValue then (p.elisions.substitutions.lookup span).bind ofChain? else none)
      = none := by
    cases isValue <;> rfl
  have hunbound : (isValue && p.elisions.boundMembers.contains span) = false := by
    cases isValue <;> rfl
  unfold finish
  split
  case h_1 => simp only [hnone]
  case h_2 => simp only [hunbound, Bool.false_eq_true, if_false]
  case h_3 => rfl

/-- An edit that only elides puts every node together as it was, from what its children became. -/
theorem remake_elisions (form : Form) (span : Span) (children : List Node) (isValue : Bool) :
    (p.elisions.remake plugin isValue (.node form span children)).result
      = .node form span (p.elisions.gatherAll plugin form children).result := by
  rw [remake_eq, finish_elisions]

/-- A declarator of which no property moves out stays what it is. -/
theorem splitDeclarator_nil (n : Node) : (splitDeclarator plugin [] false n).result = [n] := by
  have hstays : ∀ property, movedValue? [] property = none := by
    intro property
    unfold movedValue?
    split <;> rfl
  unfold splitDeclarator
  split
  case h_1 span role inner properties value =>
    have hmoved : properties.filterMap (movedValue? []) = [] :=
      List.filterMap_eq_nil_iff.mpr fun property _ => hstays property
    have hall : properties.filter (fun property => (movedValue? [] property).isNone)
        = properties := List.filter_eq_self.mpr fun property _ => by rw [hstays]; rfl
    simp [hmoved, hall]
  case h_2 => rfl

-- ============================================================ what a child leaves

/-- The rest of some events is what the events of some statements leave. -/
def Leaves (sts : List Node) (events rest : List ScopeEvent) : Prop :=
  ∃ gone, ScopeEvent.Cut events gone rest
    ∧ gone.filterMap ScopeEvent.word? = sts.flatMap fun st => st.parts.filterMap word?

theorem leaves_nil : Leaves [] [] [] := ⟨[], .nil, rfl⟩

theorem leaves_singleton {e e' : ScopeEvent} (h : e.Alike e') : Leaves [] [e] [e'] :=
  ⟨[], .singleton h, rfl⟩

/-- What is left of two rows is what is left of both. -/
theorem Leaves.append {sts sts' : List Node} {es rest es' rest' : List ScopeEvent}
    (h : Leaves sts es rest) (h' : Leaves sts' es' rest') :
    Leaves (sts ++ sts') (es ++ es') (rest ++ rest') := by
  obtain ⟨gone, hcut, hwords⟩ := h
  obtain ⟨gone', hcut', hwords'⟩ := h'
  refine ⟨gone ++ gone', hcut.append hcut', ?_⟩
  rw [List.filterMap_append, List.flatMap_append, hwords, hwords']

/-- What is left of a scope is a scope with what is left of its inside. -/
theorem Leaves.inScope {sts : List Node} {es rest : List ScopeEvent} (isWide : Bool)
    (h : Leaves sts es rest) :
    Leaves sts (ScopeEvent.inScope isWide es) (ScopeEvent.inScope isWide rest) := by
  obtain ⟨gone, hcut, hwords⟩ := h
  exact ⟨gone, hcut.inScope isWide, hwords⟩

/-- The statements of a tree that go away. -/
def elided (p : EditPlan) (t : Node) : List Node := t.parts.filter p.isRemoved

/-- The events of some nodes, one after the other. -/
abbrev row (ns : List Node) (how : Introduction) : List ScopeEvent :=
  ScopeEvent.all (ns.map fun k => (k, k.fold ScopeEvent.algebra)) how

theorem row_singleton (n : Node) (how : Introduction) : row [n] how = n.fold ScopeEvent.algebra how :=
  List.flatMap_singleton ..

theorem row_append (ms ns : List Node) (how : Introduction) :
    row (ms ++ ns) how = row ms how ++ row ns how := by
  rw [row, List.map_append, ScopeEvent.all, List.flatMap_append]
  rfl

theorem row_cons (n : Node) (ns : List Node) (how : Introduction) :
    row (n :: ns) how = n.fold ScopeEvent.algebra how ++ row ns how := rfl

/-- A statement that goes away leaves nothing. -/
theorem leaves_of_isRemoved {k : Node} (hk : k.WellPlaced) (hgoes : p.isRemoved k = true)
    (how : Introduction) : Leaves [k] (k.fold ScopeEvent.algebra how) [] := by
  refine ⟨_, .whole (ScopeEvent.encloses_of_isClosed hk (isClosed_of_isRemoved hk hgoes) [] how), ?_⟩
  rw [ScopeEvent.words_fold hk, List.flatMap_singleton]

/-- A declaration without declarators has no events. -/
theorem row_of_declaresNothing {n : Node} (h : declaresNothing n = true) (how : Introduction) :
    n.fold ScopeEvent.algebra how = [] := by
  unfold declaresNothing at h
  split at h
  case h_1 => rfl
  case h_2 => cases h

/-- What a part leaves if it is no statement that goes away. -/
def LeavesAll (p : EditPlan) (plugin : String) (k : Node) : Prop :=
  p.isRemoved k = false → ∀ isValue (how how' : Introduction), how.reach = how'.reach →
    Leaves (p.elided k) (k.fold ScopeEvent.algebra how)
      ((p.elisions.remake plugin isValue k).result.fold ScopeEvent.algebra how')

/-- Among the statements that go away none stands inside of another. -/
def Separate (p : EditPlan) (t : Node) : Prop :=
  ∀ st ∈ t.parts, p.isRemoved st = true → p.elided st = [st]

theorem Separate.child {t k : Node} (h : p.Separate t) (hk : k ∈ t.children) : p.Separate k :=
  fun st hst => h st (mem_parts_of_child hk hst)

/-- What stands in place of a child is what the child leaves. -/
theorem leaves_replacement (above : Form) {k : Node} {how how' : Introduction} (hw : k.WellPlaced)
    (hentry : above.holdsEntries = true ∨ above.isDeclaration = true → p.isRemoved k = false)
    (hseparate : p.Separate k) (ih : p.LeavesAll plugin k) (hreach : how.reach = how'.reach) :
    Leaves (p.elided k) (k.fold ScopeEvent.algebra how)
      (row (p.elisions.replacement plugin above k).result how') := by
  unfold replacement
  split
  -- the elisions prune no entry and divide no declarator, so these three rows keep their child
  case h_1 role =>
    have hkeeps : p.elisions.losesEntry (.objectPattern role) k = false := rfl
    rw [hkeeps, if_neg Bool.false_ne_true, row_singleton]
    exact ih (hentry (.inl rfl)) true how how' hreach
  case h_2 role =>
    have hkeeps : p.elisions.losesEntry (.arrayPattern role) k = false := Bool.and_false _
    rw [hkeeps, if_neg Bool.false_ne_true, row_singleton]
    exact ih (hentry (.inl rfl)) true how how' hreach
  case h_3 kind =>
    have hstays := hentry (.inr rfl)
    show Leaves _ _ (row (splitDeclarator plugin [] false _).result how')
    rw [splitDeclarator_nil, row_singleton]
    exact ih hstays true how how' hreach
  -- a removed statement leaves nothing, or the empty statement, and neither tells an event
  case h_4 =>
    cases hgoes : p.isRemoved k with
    | true =>
        have hnothing : row (if Survey.isStatementList above then [] else [made .empty []]) how'
            = [] := by
          split <;> rfl
        rw [isRemoved_elisions, hgoes, if_pos rfl, hnothing,
          hseparate k (self_mem_parts k) hgoes]
        exact leaves_of_isRemoved hw hgoes how
    | false =>
        have hleaves := ih hgoes above.holdsValues how how' hreach
        rw [isRemoved_elisions, hgoes, if_neg Bool.false_ne_true]
        -- a declaration left without declarators tells no event either
        split
        case isTrue hempty =>
          rw [row_of_declaresNothing (Bool.and_eq_true_iff.mp hempty).2] at hleaves
          exact hleaves
        case isFalse =>
          rw [row_singleton]
          exact hleaves

/-- What stands in place of children that stand among each other is what they leave. -/
theorem leaves_gather (above : Form) {ks : List Node} {how how' : Introduction}
    (hw : ∀ k ∈ ks, k.WellPlaced)
    (hentry : ∀ k ∈ ks, above.holdsEntries = true ∨ above.isDeclaration = true →
      p.isRemoved k = false)
    (hseparate : ∀ k ∈ ks, p.Separate k) (ih : ∀ k ∈ ks, p.LeavesAll plugin k)
    (hreach : how.reach = how'.reach) :
    Leaves (ks.flatMap p.elided) (row ks how)
      (row (p.elisions.gather plugin above ks).result how') := by
  induction ks with
  | nil => exact leaves_nil
  | cons k ks ihks =>
      have hk := leaves_replacement above (hw k List.mem_cons_self) (hentry k List.mem_cons_self)
        (hseparate k List.mem_cons_self) (ih k List.mem_cons_self) hreach
      have hks := ihks (fun k' h => hw k' (List.mem_cons_of_mem _ h))
        (fun k' h => hentry k' (List.mem_cons_of_mem _ h))
        (fun k' h => hseparate k' (List.mem_cons_of_mem _ h))
        (fun k' h => ih k' (List.mem_cons_of_mem _ h))
      rw [gather, List.flatMap_cons, row_cons, row_append]
      exact hk.append hks

/-- What stands in place of the children of a node is what they leave. -/
theorem leaves_gatherAll {form : Form} {span : Span} {children : List Node}
    {how how' : Introduction} (fits : Fits form span children)
    (hw : ∀ k ∈ children, k.WellPlaced) (hseparate : ∀ k ∈ children, p.Separate k)
    (ih : ∀ k ∈ children, p.LeavesAll plugin k) (hreach : how.reach = how'.reach) :
    Leaves (children.flatMap p.elided) (row children how)
      (row (p.elisions.gatherAll plugin form children).result how') := by
  unfold gatherAll
  split
  case h_1 test statements =>
    have htest := leaves_replacement .switch (hw test List.mem_cons_self)
      (fun h => by rcases h with h | h <;> cases h) (hseparate test List.mem_cons_self)
      (ih test List.mem_cons_self) hreach
    have hstatements := leaves_gather .case
      (fun k hk => hw k (List.mem_cons_of_mem _ hk))
      (fun k hk h => by rcases h with h | h <;> cases h)
      (fun k hk => hseparate k (List.mem_cons_of_mem _ hk))
      (fun k hk => ih k (List.mem_cons_of_mem _ hk)) hreach
    rw [List.flatMap_cons, row_cons, row_append]
    exact htest.append hstatements
  case h_2 =>
    exact leaves_gather form hw (fun k hk h => isRemoved_of_entry fits h hk) hseparate ih hreach

/-- What a child becomes where every child becomes one node. -/
def alone (p : EditPlan) (plugin : String) (above : Form) (k : Node) : Node :=
  if p.isRemoved k then made .empty [] else (p.elisions.remake plugin above.holdsValues k).result

theorem gatherAll_of_fixed {form : Form} (h : isFixed form = true) (ks : List Node) :
    (p.elisions.gatherAll plugin form ks).result = ks.map (p.alone plugin form) :=
  (allBecome_gatherAll p.elisions plugin form ks).fixed h

/-- The events of children that are rebuilt one by one are left by those of the statements that go
away in them. -/
theorem leaves_alone {above : Form} (h : isFixed above = true) {ks : List Node}
    {how how' : Introduction} (hw : ∀ k ∈ ks, k.WellPlaced)
    (hentry : ∀ k ∈ ks, above.holdsEntries = true ∨ above.isDeclaration = true →
      p.isRemoved k = false)
    (hseparate : ∀ k ∈ ks, p.Separate k) (ih : ∀ k ∈ ks, p.LeavesAll plugin k)
    (hreach : how.reach = how'.reach) :
    Leaves (ks.flatMap p.elided) (row ks how) (row (ks.map (p.alone plugin above)) how') := by
  have hgather : (p.elisions.gather plugin above ks).result = ks.map (p.alone plugin above) :=
    (allBecome_gather p.elisions plugin above ks).fixed h
  exact hgather ▸ leaves_gather above hw hentry hseparate ih hreach

/-- Only a name stands alone as a name. -/
theorem form_alone (p : EditPlan) (plugin : String) (above : Form) (k : Node) :
    (p.alone plugin above k).form = .empty ∧ k.form = .expressionStatement
      ∨ (p.alone plugin above k).form = k.form ∧ (p.alone plugin above k).span = k.span := by
  unfold alone
  split
  case isTrue h => exact .inl ⟨rfl, form_of_isRemoved h⟩
  case isFalse =>
    cases k with
    | node form span children =>
        rw [remake_elisions]
        exact .inr ⟨rfl, rfl⟩

-- ============================================================ what a node leaves

/-- What is elided from a node that stays is what is elided from its children. -/
theorem elided_node {form : Form} {span : Span} {children : List Node}
    (h : p.isRemoved (.node form span children) = false) :
    p.elided (.node form span children) = children.flatMap p.elided := by
  rw [elided, parts_node, List.filter_cons, if_neg (by rw [h]; exact Bool.false_ne_true),
    List.filter_flatMap]
  rfl

/-- What the rebuilt form of a part is for the scopes is what the part leaves. -/
theorem leaves_remake {t : Node} (ht : t.WellPlaced) (hseparate : p.Separate t) :
    p.LeavesAll plugin t := by
  induction t with
  | node form span children ih =>
      intro hstays isValue how how' hreach
      cases ht with
      | node fits parts =>
      have hchildren : ∀ k ∈ children, p.LeavesAll plugin k := fun k hk =>
        ih k hk (parts k hk) (hseparate.child hk)
      have hall : ∀ {how how' : Introduction}, how.reach = how'.reach →
          Leaves (children.flatMap p.elided) (row children how)
            (row (p.elisions.gatherAll plugin form children).result how') := fun hreach =>
        leaves_gatherAll fits parts (fun k hk => hseparate.child hk) hchildren hreach
      have hrow : isFixed form = true → ∀ ks : List Node, (∀ k ∈ ks, k ∈ children) →
          ∀ {how how' : Introduction}, how.reach = how'.reach →
            Leaves (ks.flatMap p.elided) (row ks how)
              (row (ks.map (p.alone plugin form)) how') := fun hform ks hks how how' hreach =>
        leaves_alone hform (fun k hk => parts k (hks k hk))
          (fun k hk h => isRemoved_of_entry fits h (hks k hk))
          (fun k hk => hseparate.child (hks k hk)) (fun k hk => hchildren k (hks k hk)) hreach
      -- the first child apart from the others
      have hfirst : isFixed form = true → ∀ {first : Node} {rest : List Node},
          children = first :: rest →
          (∀ {how how' : Introduction}, how.reach = how'.reach →
            Leaves (p.elided first) (first.fold ScopeEvent.algebra how)
              ((p.alone plugin form first).fold ScopeEvent.algebra how'))
          ∧ ∀ {how how' : Introduction}, how.reach = how'.reach →
            Leaves (rest.flatMap p.elided) (row rest how)
              (row (rest.map (p.alone plugin form)) how') := by
        rintro hform first rest rfl
        refine ⟨fun hreach => ?_, hrow hform rest fun k hk => List.mem_cons_of_mem _ hk⟩
        have hsingle := hrow hform [first]
          (fun k hk => List.mem_singleton.mp hk ▸ List.mem_cons_self) hreach
        rwa [List.flatMap_singleton, row_singleton, List.map_singleton, row_singleton] at hsingle
      rw [elided_node hstays, remake_elisions, Node.fold_node, Node.fold_node]
      cases form with
      | identifier name =>
          obtain rfl := fits.word rfl
          exact leaves_singleton (.use name span.start false)
      | binding name =>
          obtain rfl := fits.word rfl
          exact leaves_singleton (.introduce name span hreach)
      | arrow _ _ _ _ | staticBlock | program _ => exact (hall rfl).inScope true
      | classValue | block | «for» | forIn | forOf _ | «catch» => exact (hall rfl).inScope false
      | variableDeclaration kind => exact hall rfl
      | importFrom _ _ => exact hall rfl
      -- the first child stands outside of the scope, or names what the scope is of
      | method _ _ _ _ | «switch» =>
          rw [gatherAll_of_fixed rfl]
          cases children with
          | nil => exact leaves_nil
          | cons first rest =>
              obtain ⟨hleaves, hrest⟩ := hfirst rfl rfl
              exact (hleaves hreach).append ((hrest rfl).inScope _)
      | functionDeclaration _ _ | classDeclaration =>
          rw [gatherAll_of_fixed rfl]
          cases children with
          | nil => exact leaves_nil
          | cons first rest =>
              obtain ⟨hleaves, hrest⟩ := hfirst rfl rfl
              exact (hleaves rfl).append ((hrest rfl).inScope _)
      | function _ _ _ =>
          rw [gatherAll_of_fixed rfl]
          cases children with
          | nil => exact leaves_nil
          | cons first rest =>
              obtain ⟨hleaves, hrest⟩ := hfirst rfl rfl
              exact ((hleaves rfl).append (hrest rfl)).inScope true
      | place =>
          have hplain := hrow rfl children (fun k hk => hk) hreach
          rw [gatherAll_of_fixed rfl]
          match children with
          | [] => exact leaves_nil
          | [target] =>
              obtain ⟨hleaves, -⟩ := hfirst rfl rfl
              have hform := form_alone p plugin .place target
              by_cases hname : ∃ name, target.form = .identifier name
              · obtain ⟨name, hname⟩ := hname
                rw [hname] at hform
                obtain ⟨hname', hspan⟩ := hform.resolve_left fun h => by cases h.2
                have hword : target.parts = [target] :=
                  (parts target List.mem_cons_self).parts_of_isWord (by rw [hname]; rfl)
                have hnone : p.elided target = [] := by
                  rw [elided, hword, List.filter_cons,
                    isRemoved_eq_false (by rw [hname]; nofun)]
                  rfl
                rw [List.flatMap_singleton, hnone]
                simp only [ScopeEvent.algebra, List.map_cons, List.map_nil, hname, hname', hspan]
                exact leaves_singleton (.use name target.span.start true)
              · have hname' : ∀ name, (p.alone plugin .place target).form ≠ .identifier name := by
                  rintro name heq
                  rcases hform with ⟨h, -⟩ | ⟨h, -⟩
                  · rw [h] at heq
                    cases heq
                  · exact hname ⟨name, h ▸ heq⟩
                rw [List.flatMap_singleton]
                simp only [List.map_cons, List.map_nil]
                rw [ScopeEvent.algebra_place (fun name h => hname ⟨name, h⟩),
                  ScopeEvent.algebra_place hname']
                exact hleaves hreach
          | _ :: _ :: _ => exact hplain
      | declarator =>
          have hplain := hrow rfl children (fun k hk => hk) hreach
          rw [gatherAll_of_fixed rfl]
          match children with
          | [] => exact leaves_nil
          | [_] => exact hplain
          | [pattern, value] =>
              obtain ⟨hpattern, hvalue⟩ := hfirst rfl rfl
              have hvalue := @hvalue (ScopeEvent.plain .near) (ScopeEvent.plain .near) rfl
              rw [row_singleton, List.map_singleton, row_singleton] at hvalue
              have hpattern := fun old new => @hpattern ⟨how.reach, old⟩ ⟨how'.reach, new⟩ hreach
              exact (hpattern _ _).append hvalue
          | _ :: _ :: _ :: _ => exact hplain
      | _ => exact hall hreach

-- ============================================================ programs

section

variable {v : Survey} {l : Liveness} {tree : Node}

/-- No statement that goes away stands inside of another. -/
theorem MadeFor.separate (h : MadeFor v l tree p) : p.Separate tree := by
  intro st hst hgoes
  cases st with
  | node form span children =>
      rw [elided, parts_node, List.filter_cons, if_pos hgoes]
      refine congrArg _ (List.filter_eq_nil_iff.mpr fun m hm hmgoes => ?_)
      obtain ⟨k, hk, hmk⟩ := List.mem_flatMap.mp hm
      have hin : m ∈ (node form span children).parts := mem_parts_node.mpr (.inr ⟨k, hk, hmk⟩)
      obtain rfl := h.eq_of_removed hst hgoes hin (by simp [plans, hmgoes])
      -- the statement would be a part of one of its children
      have hbare : (node form span children).isBare = false :=
        isBare_eq_false_of_form (by rw [form_of_isRemoved hgoes]; rfl)
      exact Nat.lt_irrefl _ ((h.wellPlaced.part hst).rank_lt hk hmk hbare rfl)

/-- What a program is for the scopes without the statements that go away. -/
theorem MadeFor.leaves_apply (h : MadeFor v l tree p) (plugin : String) :
    Leaves (p.elided tree) (ScopeEvent.ofProgram tree)
      (ScopeEvent.ofProgram (p.elisions.apply plugin tree).1) :=
  leaves_remake h.wellPlaced h.separate h.stays true _ _ rfl

/-- What is gone is used in the statements that go away. -/
theorem Leaves.exists_cut {sts : List Node} {events rest : List ScopeEvent}
    (h : Leaves sts events rest) : ∃ gone, ScopeEvent.Cut events gone rest
      ∧ gone.filterMap ScopeEvent.useStart? = sts.flatMap useStarts
      ∧ gone.filterMap ScopeEvent.nameStart? = sts.flatMap nameStarts := by
  obtain ⟨gone, hcut, hwords⟩ := h
  refine ⟨gone, hcut, ?_, ?_⟩
  · rw [ScopeEvent.useStarts_eq, hwords, List.filterMap_flatMap]
    congr 1
    funext st
    exact (useStarts_eq st).symm
  · rw [ScopeEvent.nameStarts_eq, hwords, List.filterMap_flatMap]
    congr 1
    funext st
    exact (nameStarts_eq st).symm

end

end EditPlan
end Graft
