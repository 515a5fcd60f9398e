import Graft.Proofs.Plan.Alike
import Graft.Proofs.Plan.Targets
import Graft.Proofs.Tree.Beside
import Mathlib.Data.List.Basic
/-!
Two programs for which the same is planned.

Nodes of two programs with the same outline go in pairs. If of every pair of calls both load the
same module or none, and both bind the two accesses of a pair or none (`Survey.Lockstep`), then the
walks of the planner decide the same about every pair (`Survey.Lockstep.visit`,
`Survey.Lockstep.visitPatterns`), and the plans for the two programs name the same nodes
(`planEdits_twins`).

# Spans

The plans hold spans, and the spans of the two programs are different ones. What goes together are
the spans of a pair of nodes of one kind (`Node.SpansOf`). All forms of a kind have one rank, so in
either program such a span is that of one node only (`Form.IsMarked`), and whether a span is in a
list of the plan has the same answer in both programs.

# The walks

The state of the walks goes together as a whole: the plans, the counts, and the accesses that are
known to be bound (`Decisions.BoundTwins`). A node adds to both states what it adds to one, and the
visits of the children keep what every visit keeps (`Survey.visitAll_twins`).
-/
namespace Graft

-- ============================================================ kinds of forms

namespace Form

/-- Whether a form is a declarator. -/
def isDeclarator : Form → Bool
  | .declarator => true
  | _ => false

/-- Whether a form is a statement that is a value. -/
def isStatement : Form → Bool
  | .expressionStatement => true
  | _ => false

/-- Whether the forms of a kind hold more than words and strings, and all have one rank, so that a
node of the kind is known by its span. -/
structure IsMarked (kind : Form → Bool) (rank : Nat) : Prop where
  isBare : ∀ form, kind form = true → form.isBare = false
  rank : ∀ form, kind form = true → form.rank = rank

/-- A call is known by its span. -/
theorem isMarked_isCall : IsMarked isCall 1 := by
  constructor <;> intro form h <;> cases form <;> first | rfl | cases h

theorem isMarked_isMember : IsMarked isMember 1 := by
  constructor <;> intro form h <;> cases form <;> first | rfl | cases h

theorem isMarked_isStatement : IsMarked isStatement 4 := by
  constructor <;> intro form h <;> cases form <;> first | rfl | cases h

theorem isMarked_isPatternProperty : IsMarked isPatternProperty 3 := by
  constructor <;> intro form h <;> cases form <;> first | rfl | cases h

theorem isMarked_isDeclarator : IsMarked isDeclarator 7 := by
  constructor <;> intro form h <;> cases form <;> first | rfl | cases h

end Form

-- ============================================================ spans of pairs

namespace Node

/-- Whether two spans are those of nodes of some kind that stand side by side. -/
def SpansOf (t u : Node) (kind : Form → Bool) (s s' : Span) : Prop :=
  ∃ m n, Beside t u m n ∧ kind m.form = true ∧ m.span = s ∧ n.span = s'

/-- The span of a node of a marked kind is told apart from others in both programs. -/
theorem SpansOf.span_iff {σ : TextMap} {t u m n : Node} {kind : Form → Bool} {rank : Nat}
    {s s' : Span} (hs : SpansOf t u kind s s') (ht : t.WellPlaced) (hu : u.WellPlaced)
    (halike : t.AlikeBy σ u) (hkind : Form.IsMarked kind rank) (hmn : Beside t u m n)
    (hm : kind m.form = true) : s = m.span ↔ s' = n.span := by
  obtain ⟨a, b, hab, ha, rfl, rfl⟩ := hs
  exact hab.span_eq_iff ht hu halike hmn (isBare_eq_false_of_form (hkind.isBare _ ha))
    (isBare_eq_false_of_form (hkind.isBare _ hm)) ((hkind.rank _ ha).trans (hkind.rank _ hm).symm)

end Node

open Node

/-- Whether two properties move out of their patterns at one place of two programs, for the same
method. -/
def PropertySplit.Twins (t u : Node) (s s' : PropertySplit) : Prop :=
  SpansOf t u Form.isPatternProperty s.property s'.property ∧ s.method = s'.method

/-- Whether two plans name the same nodes of two programs. -/
structure EditPlan.Twins (t u : Node) (p q : EditPlan) : Prop where
  statements :
    List.Forall₂ (SpansOf t u Form.isStatement) p.removedStatements q.removedStatements
  patterns : List.Forall₂ (SpansOf t u Form.isEntry) p.removedPatterns q.removedPatterns
  substitutions : List.Forall₂ (fun a b => SpansOf t u Form.isCall a.1 b.1 ∧ a.2 = b.2)
    p.substitutions q.substitutions
  members : List.Forall₂ (SpansOf t u Form.isMember) p.boundMembers q.boundMembers
  splits : List.Forall₂ (fun a b => SpansOf t u Form.isDeclarator a.1 b.1
    ∧ List.Forall₂ (PropertySplit.Twins t u) a.2 b.2) p.splits q.splits
  droppable : List.Forall₂ (SpansOf t u Form.isDeclarator) p.droppable q.droppable

/-- Whether two plans for patterns name the same nodes of two programs. -/
structure Survey.PatternPlan.Twins (t u : Node) (p q : PatternPlan) : Prop where
  removed : List.Forall₂ (SpansOf t u Form.isEntry) p.removed q.removed
  splits : List.Forall₂ (PropertySplit.Twins t u) p.splits q.splits
  emptied : q.emptied = p.emptied

/-- Whether the same was decided about two programs, as far as the second walk goes. -/
structure Decisions.Twins (t u : Node) (d e : Decisions) : Prop where
  plan : d.plan.Twins t u e.plan
  liveness : e.liveness = d.liveness

/-- Whether the same was decided about two programs in the first walk. -/
structure Decisions.BoundTwins (t u : Node) (d e : Decisions) : Prop extends Twins t u d e where
  alreadyBound : List.Forall₂ (SpansOf t u Form.isMember) d.alreadyBound e.alreadyBound

namespace Survey

/-- Whether the calls of two programs with the same outline mean the same to the planner. -/
structure Lockstep (v w : Survey) (σ : TextMap) (t u : Node) : Prop where
  left : t.WellPlaced
  right : u.WellPlaced
  alike : t.AlikeBy σ u
  answers : Match v w σ (SamePlace σ t u)
  place : ∀ {m n}, Beside t u m n → SamePlace σ t u m n
  counts : ∀ k, w.origin.bindings.useCount k = v.origin.bindings.useCount k
  loads : ∀ {isOptional isPure span span' callee callee' arguments arguments'},
    Beside t u (.node (.call isOptional isPure) span (callee :: arguments))
        (.node (.call isOptional isPure) span' (callee' :: arguments')) →
      w.substitutionFor? callee' arguments' = v.substitutionFor? callee arguments
  binds : ∀ {isOptional isPure span span' callee callee' arguments arguments'},
    Beside t u (.node (.call isOptional isPure) span (callee :: arguments))
        (.node (.call isOptional isPure) span' (callee' :: arguments')) →
      Option.Rel (SpansOf t u Form.isMember) (v.boundTarget? callee arguments)
        (w.boundTarget? callee' arguments')

-- ============================================================ lists of pairs

/-- Two walks over lists that go together keep what they keep of every pair. -/
theorem visitAll_twins {R : Decisions → Decisions → Prop} {f g : Algebra Visit} {flag : Bool}
    {ks js : List Node}
    (h : List.Forall₂ (fun k j => ∀ d e, R d e → R (k.fold f flag d) (j.fold g flag e)) ks js)
    {d e : Decisions} (hde : R d e) :
    R (visitAll (ks.map fun k => (k, k.fold f)) flag d)
      (visitAll (js.map fun j => (j, j.fold g)) flag e) := by
  unfold visitAll
  induction h generalizing d e with
  | nil => exact hde
  | cons hkj _ ih => exact ih (hkj d e hde)

/-- Spans that are told apart together are compared alike. -/
theorem beq_eq_of_iff {x y s s' : Span} (h : x = s ↔ y = s') : (s' == y) = (s == x) := by
  rw [Bool.eq_iff_iff, beq_iff_eq, beq_iff_eq]
  exact ⟨fun heq => (h.mpr heq.symm).symm, fun heq => (h.mp heq.symm).symm⟩

/-- Of two lists that go together one holds a value exactly if the other one holds its partner. -/
theorem contains_eq {R : Span → Span → Prop} {ss ss' : List Span} {s s' : Span}
    (h : List.Forall₂ R ss ss') (hs : ∀ x y, R x y → (x = s ↔ y = s')) :
    ss'.contains s' = ss.contains s := by
  induction h with
  | nil => rfl
  | @cons x y _ _ hxy _ ih =>
      rw [List.contains_cons, List.contains_cons, ih, beq_eq_of_iff (hs x y hxy)]

/-- Rows related pairwise are empty together. -/
theorem isEmpty_eq {α β : Type} {R : α → β → Prop} {as : List α} {bs : List β}
    (h : List.Forall₂ R as bs) : bs.isEmpty = as.isEmpty := by
  cases h with
  | nil => rfl
  | cons _ _ => rfl

namespace Lockstep

variable {v w : Survey} {σ : TextMap} {t u : Node} (h : Lockstep v w σ t u)
include h

/-- The names that two nodes side by side use stand for the same symbols. -/
theorem symbols_eq {m n : Node} (hmn : Beside t u m n) :
    (usesIn n).filterMap w.origin.bindings.symbolOfUse?
      = (usesIn m).filterMap v.origin.bindings.symbolOfUse? := by
  rw [usesIn_eq (h.left.part hmn.left_mem), usesIn_eq (h.right.part hmn.right_mem), useStarts,
    useStarts, identifiers, identifiers]
  have hparts := hmn.parts h.alike
  generalize m.parts = ms at hparts
  generalize n.parts = ns at hparts
  induction hparts with
  | nil => rfl
  | @cons k j ks js hkj _ ih =>
      have hplace := h.place hkj
      rw [List.filter_cons, List.filter_cons, hplace.isIdentifier_eq]
      cases hk : k.isIdentifier with
      | true =>
          rw [if_pos rfl, if_pos rfl, List.map_cons, List.map_cons, List.filterMap_cons,
            List.filterMap_cons, h.answers.use hplace hk, ih]
      | false => exact ih

-- ============================================================ the first walk

/-- Twins stay twins when both give up a statement at the same place. -/
theorem elide {d e : Decisions} (hde : d.BoundTwins t u e) {span span' : Span} {m n : Node}
    (hspan : SpansOf t u Form.isStatement span span') (hmn : Beside t u m n) :
    (d.elide v.origin.bindings span m).BoundTwins t u
      (e.elide w.origin.bindings span' n) where
  plan := { hde.plan with statements := .cons hspan hde.plan.statements }
  liveness := by
    show (List.filterMap _ (usesIn n)).foldl Liveness.release e.liveness = _
    rw [h.symbols_eq hmn, hde.liveness]
    rfl
  alreadyBound := hde.alreadyBound

omit h in
/-- Twins stay twins when both remember the same access. -/
theorem remember {d e : Decisions} (hde : d.BoundTwins t u e) {target target' : Option Span}
    (htarget : Option.Rel (SpansOf t u Form.isMember) target target') :
    (d.remember target).BoundTwins t u (e.remember target') := by
  cases htarget with
  | none => exact hde
  | some hspan => exact { hde with alreadyBound := .cons hspan hde.alreadyBound }

/-- The first walk decides the same about nodes side by side. -/
theorem visit {m n : Node} (hmn : Beside t u m n) : ∀ flag d e, Decisions.BoundTwins t u d e →
    Decisions.BoundTwins t u (m.fold v.visit flag d) (n.fold w.visit flag e) := by
  induction m generalizing n with
  | node form span ks ih =>
      intro flag d e hde
      obtain ⟨form', span', js⟩ := n
      have hchildren : List.Forall₂ (Beside t u) ks js := hmn.children h.alike
      -- what every pair of children keeps, a walk over all of them keeps
      have hall : ∀ flag d e, Decisions.BoundTwins t u d e → Decisions.BoundTwins t u
          (visitAll (ks.map fun k => (k, k.fold v.visit)) flag d)
          (visitAll (js.map fun j => (j, j.fold w.visit)) flag e) := by
        intro flag d e hde
        refine visitAll_twins ?_ hde
        refine List.forall₂_iff_zip.mpr ⟨hchildren.length_eq, fun hkj d e hde => ?_⟩
        exact ih _ (List.of_mem_zip hkj).1 ((List.forall₂_iff_zip.mp hchildren).2 hkj) flag d e hde
      rw [fold_node, fold_node]
      obtain ⟨_, _, heq, -⟩ | ⟨_, _, _, _, rfl, heq⟩ := h.answers.exists_node (h.place hmn)
      -- a string has no children and decides nothing
      case inr =>
        obtain ⟨rfl, -, -⟩ := Node.node.inj heq
        exact hall true d e hde
      obtain ⟨rfl, -, -⟩ := Node.node.inj heq
      cases form' with
      | expressionStatement =>
          rcases hchildren with _ | ⟨hvalue, _ | ⟨_, _⟩⟩
          · exact hall true d e hde
          · rw [List.map_singleton, List.map_singleton, visit_statement, visit_statement,
              h.answers.isPureCall (h.place hvalue)]
            split
            · exact h.elide hde ⟨_, _, hmn, rfl, rfl, rfl⟩ hvalue
            · exact ih _ List.mem_cons_self hvalue true d e hde
          · exact hall true d e hde
      | call isOptional isPure =>
          cases hchildren with
          | nil => exact hall true d e hde
          | @cons callee callee' arguments arguments' _ _ =>
              rw [List.map_cons, List.map_cons, visit_call, visit_call, map_fst_paired,
                map_fst_paired, h.loads hmn]
              cases v.substitutionFor? callee arguments with
              | some chain =>
                  exact
                    { hde with
                      plan := { hde.plan with
                        substitutions :=
                          .cons ⟨⟨_, _, hmn, rfl, rfl, rfl⟩, rfl⟩ hde.plan.substitutions } }
              | none => exact hall true _ _ (remember hde (h.binds hmn))
      | member isOptional name =>
          rcases hchildren with _ | ⟨hobject, _ | ⟨_, _⟩⟩
          · exact hall true d e hde
          · -- whether the access is bound already is asked by spans, and those go together
            have hbound : e.alreadyBound.contains span' = d.alreadyBound.contains span :=
              contains_eq hde.alreadyBound fun x y hxy =>
                hxy.span_iff h.left h.right h.alike Form.isMarked_isMember hmn rfl
            rw [List.map_singleton, List.map_singleton, visit_member, visit_member, hbound,
              h.answers.traces (h.place hobject), h.answers.config]
            split
            · exact
                { hde with
                  plan := { hde.plan with
                    members := .cons ⟨_, _, hmn, rfl, rfl, rfl⟩ hde.plan.members } }
            · exact ih _ List.mem_cons_self hobject true d e hde
          · exact hall true d e hde
      | place | chain => exact hall false d e hde
      | _ => exact hall true d e hde

-- ============================================================ patterns

variable {l : Liveness}

/-- A name is unused in both programs or in neither. -/
theorem isUnusedName_eq {m n : Node} (hmn : Beside t u m n) :
    w.isUnusedName l n = v.isUnusedName l m := by
  obtain ⟨form, span, ks⟩ := m
  obtain ⟨span', js, rfl, -⟩ | ⟨_, _, _, _, rfl, rfl⟩ := h.answers.exists_node (h.place hmn)
  case inr => rfl
  cases form with
  | binding name =>
      have hname := h.answers.name (h.place hmn) rfl
      exact congrArg (Option.any l.isUnused) hname
  | _ => rfl

/-- A property moves out in both programs, or in neither. -/
theorem splitOf {key key' : Node} {span span' : Span} (hkey : Beside t u key key')
    (hspan : SpansOf t u Form.isPatternProperty span span') :
    List.Forall₂ (PropertySplit.Twins t u) (v.splitOf key span) (w.splitOf key' span') := by
  obtain ⟨form, own, ks⟩ := key
  obtain ⟨own', js, rfl, -⟩ | ⟨_, _, _, _, rfl, rfl⟩ := h.answers.exists_node (h.place hkey)
  case inr => exact .nil
  cases form with
  | key name =>
      show List.Forall₂ _ (if _ then _ else _) (if w.config.host.isBindable name then _ else _)
      rw [h.answers.config]
      split
      · exact .cons ⟨hspan, rfl⟩ .nil
      · exact .nil
  | _ => exact .nil

/-- Two patterns side by side end in rest elements that nothing uses at one place, or in none. -/
theorem unusedRest {ks js : List Node} (hks : List.Forall₂ (Beside t u) ks js) :
    List.Forall₂ (SpansOf t u Form.isEntry) (v.unusedRest l ks) (w.unusedRest l js) := by
  have hrest := h.answers.rel_restOf? h.place hks
  unfold Survey.unusedRest
  cases hk : restOf? ks with
  | none =>
      rw [hk] at hrest
      cases hj : restOf? js with
      | none => exact .nil
      | some _ => rw [hj] at hrest; cases hrest
  | some a =>
      rw [hk] at hrest
      cases hj : restOf? js with
      | none => rw [hj] at hrest; cases hrest
      | some b =>
          rw [hj] at hrest
          cases hrest with
          | some hab =>
              have hname := (List.forall₂_cons.mp (hab.children h.alike)).1
              dsimp only
              rw [h.isUnusedName_eq hname]
              split
              · exact .cons ⟨_, _, hab, rfl, rfl, rfl⟩ .nil
              · exact .nil

theorem keepsAll_eq {ks js : List Node} (hks : List.Forall₂ (Beside t u) ks js) :
    w.keepsAll l js = v.keepsAll l ks := by
  rw [keepsAll, keepsAll, h.answers.isSome_restOf? h.place hks, isEmpty_eq (h.unusedRest hks)]

/-- What a property adds to the plans for its pattern is the same at both places. -/
theorem planProperty {keepsAll : Bool} {p p' inner inner' : PatternPlan} {m n : Node}
    (hmn : Beside t u m n) (hp : p.Twins t u p') (hinner : inner.Twins t u inner') :
    (v.planProperty l keepsAll p m inner).Twins t u (w.planProperty l keepsAll p' n inner') := by
  have hkept : PatternPlan.Twins t u { p with emptied := false } { p' with emptied := false } :=
    { hp with emptied := rfl }
  obtain ⟨form, span, ks⟩ := m
  obtain ⟨span', js, rfl, -⟩ | ⟨_, _, _, _, rfl, rfl⟩ := h.answers.exists_node (h.place hmn)
  -- two strings, perhaps with different texts: nothing is planned for either
  case inr => exact hp
  cases form with
  | patternProperty computed shorthand =>
      have hspans : SpansOf t u Form.isEntry span span' := ⟨_, _, hmn, rfl, rfl, rfl⟩
      have hremoved : ∀ {ss ss' : List Span}, List.Forall₂ (SpansOf t u Form.isEntry) ss ss' →
          List.Forall₂ (SpansOf t u Form.isEntry) (ss ++ [span]) (ss' ++ [span']) :=
        fun hss => List.rel_append hss (.cons hspans .nil)
      cases computed with
      -- a computed key has no name to hoist, so the pattern is left and marked as not emptied
      | true => exact hkept
      | false =>
          rcases hmn.children h.alike with _ | ⟨hkey, _ | ⟨hvalue, _ | ⟨_, _⟩⟩⟩
          · exact hp
          · exact hp
          · rename_i key key' value value'
            obtain ⟨vform, vspan, vks⟩ := value
            obtain ⟨vspan', vjs, rfl, -⟩ | ⟨_, _, _, _, rfl, rfl⟩ :=
              h.answers.exists_node (h.place hvalue)
            case inr => exact hkept
            cases vform with
            | binding name =>
                -- the one case with a choice: the name goes when nothing reads it, and is split off
                -- otherwise
                cases keepsAll with
                | true => exact hp
                | false =>
                    rw [planProperty_binding, planProperty_binding, h.isUnusedName_eq hvalue]
                    split
                    · exact { hp with removed := hremoved hp.removed }
                    · refine { hp with splits := List.rel_append hp.splits ?_, emptied := rfl }
                      exact h.splitOf hkey ⟨_, _, hmn, rfl, rfl, rfl⟩
            -- an inner pattern goes with its entry exactly when everything inside it went
            | objectPattern role =>
                rw [planProperty_object, planProperty_object, hinner.emptied]
                split
                · exact { hp with
                          removed := hremoved (List.rel_append hp.removed hinner.removed) }
                · exact { hp with
                          removed := List.rel_append hp.removed hinner.removed, emptied := rfl }
            | arrayPattern role =>
                exact
                  { hp with
                    removed := List.rel_append hp.removed (h.unusedRest (hvalue.children h.alike))
                    emptied := rfl }
            | _ => exact hkept
          · exact hp
  | _ => exact hp

/-- What can be done about patterns side by side is the same. -/
theorem planPattern {m n : Node} (hmn : Beside t u m n) :
    (v.planPattern l m).Twins t u (w.planPattern l n) := by
  have hnothing : PatternPlan.Twins t u {} {} := ⟨.nil, .nil, rfl⟩
  induction m generalizing n with
  | node form span ks ih =>
      obtain ⟨span', js, rfl, -⟩ | ⟨_, _, _, _, rfl, rfl⟩ := h.answers.exists_node (h.place hmn)
      case inr => exact hnothing
      have hchildren : List.Forall₂ (Beside t u) ks js := hmn.children h.alike
      cases form with
      | objectPattern role =>
          have hfold : ∀ {ks' js' : List Node} {p p' : PatternPlan},
              List.Forall₂ (fun k j => k ∈ ks ∧ Beside t u k j) ks' js' → p.Twins t u p' →
              PatternPlan.Twins t u
                ((ks'.map fun k => (k, v.planPattern l k)).foldl
                  (fun p c => v.planProperty l (v.keepsAll l ks) p c.1 c.2) p)
                ((js'.map fun j => (j, w.planPattern l j)).foldl
                  (fun p c => w.planProperty l (v.keepsAll l ks) p c.1 c.2) p') := by
            intro ks' js' p p' hkids hp
            induction hkids generalizing p p' with
            | nil => exact hp
            | cons hkj _ ihs => exact ihs (h.planProperty hkj.2 hp (ih _ hkj.1 hkj.2))
          rw [planPattern_object, planPattern_object, h.keepsAll_eq hchildren]
          refine hfold ?_ ⟨h.unusedRest hchildren, .nil, rfl⟩
          exact List.forall₂_iff_zip.mpr ⟨hchildren.length_eq, fun hkj =>
            ⟨(List.of_mem_zip hkj).1, (List.forall₂_iff_zip.mp hchildren).2 hkj⟩⟩
      | arrayPattern role =>
          rw [planPattern_array, planPattern_array]
          exact ⟨h.unusedRest hchildren, .nil, rfl⟩
      | patternProperty computed shorthand =>
          rcases hchildren with _ | ⟨_, _ | ⟨hvalue, _ | ⟨_, _⟩⟩⟩
          · exact hnothing
          · exact hnothing
          · rw [planPattern_property, planPattern_property]
            exact ih _ (by simp) hvalue
          · exact hnothing
      | _ => exact hnothing

-- ============================================================ the second walk

/-- Twin plans stay twins at a declarator that both programs have. -/
theorem patternEdits {p p' : EditPlan} (hp : p.Twins t u p') {flag : Bool} {span span' : Span}
    {pattern pattern' value value' : Node}
    (hspan : SpansOf t u Form.isDeclarator span span') (hpattern : Beside t u pattern pattern')
    (hvalue : Beside t u value value') :
    (v.patternEdits flag span pattern value l p).Twins t u
      (w.patternEdits flag span' pattern' value' l p') := by
  have hfound := h.planPattern (l := l) hpattern
  obtain ⟨form, own, ks⟩ := pattern
  obtain ⟨own', js, rfl, -⟩ | ⟨_, _, _, _, rfl, rfl⟩ := h.answers.exists_node (h.place hpattern)
  case inr => exact hp
  cases form with
  | objectPattern role =>
      unfold Survey.patternEdits
      dsimp only [Node.form]
      rw [h.answers.isStaticChain (h.place hvalue), isEmpty_eq hfound.splits]
      refine { hp with
               patterns := List.rel_append (List.rel_reverse hfound.removed) hp.patterns
               splits := ?_
               droppable := ?_ }
      · dsimp only
        split
        · exact .cons ⟨hspan, hfound.splits⟩ hp.splits
        · exact hp.splits
      · dsimp only
        split
        · exact .cons hspan hp.droppable
        · exact hp.droppable
  | arrayPattern role =>
      exact { hp with patterns := List.rel_append hfound.removed hp.patterns }
  | _ => exact hp

/-- So do twin decisions. -/
theorem planDeclarator {d e : Decisions} (hde : d.Twins t u e) {flag : Bool} {span span' : Span}
    {pattern pattern' value value' : Node}
    (hspan : SpansOf t u Form.isDeclarator span span') (hpattern : Beside t u pattern pattern')
    (hvalue : Beside t u value value') :
    (v.planDeclarator flag span pattern value d).Twins t u
      (w.planDeclarator flag span' pattern' value' e) := by
  have htraces : (value'.isAbsent || !w.origin.traces value')
      = (value.isAbsent || !v.origin.traces value) := by
    rw [h.answers.isAbsent (h.place hvalue), h.answers.traces (h.place hvalue)]
  cases hstays : value.isAbsent || !v.origin.traces value with
  | true =>
      rw [Survey.planDeclarator, Survey.planDeclarator, htraces, hstays, if_pos rfl, if_pos rfl]
      exact hde
  | false =>
      obtain ⟨hlive, hplan⟩ := @planDeclarator_of_traces v flag span pattern value d hstays
      obtain ⟨hlive', hplan'⟩ :=
        @planDeclarator_of_traces w flag span' pattern' value' e (htraces.trans hstays)
      refine ⟨?_, by rw [hlive, hlive', hde.liveness]⟩
      rw [hplan, hplan', hde.liveness]
      exact h.patternEdits hde.plan hspan hpattern hvalue

/-- The second walk decides the same about nodes side by side. -/
theorem visitPatterns {m n : Node} (hmn : Beside t u m n) : ∀ flag d e, Decisions.Twins t u d e →
    Decisions.Twins t u (m.fold v.visitPatterns flag d) (n.fold w.visitPatterns flag e) := by
  induction m generalizing n with
  | node form span ks ih =>
      intro flag d e hde
      obtain ⟨form', span', js⟩ := n
      have hchildren : List.Forall₂ (Beside t u) ks js := hmn.children h.alike
      -- the children are visited in lockstep, for any flag
      have hall : ∀ flag d e, Decisions.Twins t u d e → Decisions.Twins t u
          (visitAll (ks.map fun k => (k, k.fold v.visitPatterns)) flag d)
          (visitAll (js.map fun j => (j, j.fold w.visitPatterns)) flag e) := by
        intro flag d e hde
        refine visitAll_twins ?_ hde
        refine List.forall₂_iff_zip.mpr ⟨hchildren.length_eq, fun hkj d e hde => ?_⟩
        exact ih _ (List.of_mem_zip hkj).1 ((List.forall₂_iff_zip.mp hchildren).2 hkj) flag d e hde
      rw [fold_node, fold_node]
      obtain ⟨_, _, heq, -⟩ | ⟨_, _, _, _, rfl, heq⟩ := h.answers.exists_node (h.place hmn)
      -- a string is no declarator, so both walks only go on
      case inr =>
        obtain ⟨rfl, -, -⟩ := Node.node.inj heq
        exact hall false d e hde
      obtain ⟨rfl, -, -⟩ := Node.node.inj heq
      cases form' with
      | expressionStatement =>
          -- the two statements were removed together, so both are skipped or both are entered
          have hgoes : e.plan.removedStatements.contains span'
              = d.plan.removedStatements.contains span :=
            contains_eq hde.plan.statements fun x y hxy => hxy.span_iff h.left h.right h.alike
              Form.isMarked_isStatement hmn rfl
          show Decisions.Twins t u (if d.plan.removedStatements.contains span then _ else _)
            (if e.plan.removedStatements.contains span' then _ else _)
          rw [hgoes]
          split
          · exact hde
          · exact hall false d e hde
      -- the pattern is planned with its value; any other row of children is only walked
      | declarator =>
          rcases hchildren with _ | ⟨hpattern, _ | ⟨hvalue, _ | ⟨_, _⟩⟩⟩
          · exact hall false d e hde
          · exact hall false d e hde
          · exact hall false _ _ (h.planDeclarator hde ⟨_, _, hmn, rfl, rfl, rfl⟩ hpattern hvalue)
          · exact hall false d e hde
      | variableDeclaration kind => exact hall flag d e hde
      | _ => exact hall _ d e hde

end Lockstep

end Survey

open Survey in
/-- The plans for two programs name the same nodes if the calls of the programs mean the same to
the planner. -/
theorem planEdits_twins {config : TransformConfig} {plugin plugin' : String} {σ : TextMap}
    {t u : Node} (h : Lockstep (onProgram config plugin t) (onProgram config plugin' u) σ t u) :
    (planEdits config plugin t).1.Twins t u (planEdits config plugin' u).1 := by
  have hlive : Liveness.ofBindings (Bindings.ofProgram u)
      = Liveness.ofBindings (Bindings.ofProgram t) := by
    have hcounts : (Bindings.ofProgram u).useCount = (Bindings.ofProgram t).useCount :=
      funext h.counts
    have hlength : (Bindings.ofProgram u).symbols.length = (Bindings.ofProgram t).symbols.length :=
      h.answers.length
    rw [Liveness.ofBindings, Liveness.ofBindings, hcounts, hlength]
  have hstart : Decisions.BoundTwins t u { liveness := .ofBindings (Bindings.ofProgram t) }
      { liveness := .ofBindings (Bindings.ofProgram u) } :=
    ⟨⟨⟨.nil, .nil, .nil, .nil, .nil, .nil⟩, hlive⟩, .nil⟩
  rw [planEdits_fst, planEdits_fst]
  exact (h.visitPatterns (.self t u) false _ _ (h.visit (.self t u) true _ _ hstart).toTwins).plan

end Graft
