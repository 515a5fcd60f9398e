import Graft.Proofs.Plan.Echo
import Graft.Proofs.Plan.Pruning
/-!
Where the planner has nothing to do, it has nothing to do in an echo.

# Two walks side by side

A walk of the planner only adds to the plan (`Survey.size_le_visit`), so a walk that ends with
nothing to do had nothing to do at any node. Two walks along related nodes then go side by side
(`Survey.Abreast`): what the second one would add at a node, the first one would have added.

# Patterns

About a pattern the second program may plan less than the first one, since its names may be used
more often. Where the first plan removes nothing, the second one removes nothing and needs no more
of the pattern (`Survey.Sparing`), by induction on the pattern with the entries one after the other
(`Survey.Echo.planPattern_sparing`).

# Whole programs

The second program may have more statements at its end, if these give the planner nothing to decide
(`Survey.Inert`): both walks go over them and change nothing. So a program for which nothing is
planned stays one when it is written, read again, and gets such a statement
(`Survey.Echo.isEmpty_planEdits`).
-/
namespace Graft

namespace EditPlan

/-- A plan has nothing to do when it lists nothing: `droppable` alone is no edit. -/
theorem size_eq_zero {p : EditPlan} : p.size = 0 ↔ p.removedStatements = []
    ∧ p.removedPatterns = [] ∧ p.substitutions = [] ∧ p.boundMembers = []
    ∧ p.splits.flatMap Prod.snd = [] := by
  simp only [size, Nat.add_eq_zero_iff, List.length_eq_zero_iff, and_assoc]

end EditPlan

namespace Survey

open Node EditPlan

variable {v w : Survey} {E : Node → Node → Prop}

-- ============================================================ growth

section

variable {span : Span} {flag : Bool} {d : Decisions}

/-- A statement that goes away is one edit. -/
theorem size_elide (b : Bindings) (value : Node) :
    (d.elide b span value).plan.size = d.plan.size + 1 := by
  simp only [Decisions.elide, Decisions.releaseAll, Decisions.note, EditPlan.size, List.length_cons]
  omega

/-- A substituted call is one edit. -/
theorem size_substitute (chain : List String) :
    (d.substitute span chain).plan.size = d.plan.size + 1 := by
  simp only [Decisions.substitute, Decisions.note, EditPlan.size, List.length_cons]
  omega

theorem size_bind (name : String) : (d.bind span name).plan.size = d.plan.size + 1 := by
  simp only [Decisions.bind, Decisions.note, EditPlan.size, List.length_cons]
  omega

/-- The first walk only adds to the plan. -/
theorem size_le_visit (t : Node) : ∀ flag (d : Decisions),
    d.plan.size ≤ (t.fold v.visit flag d).plan.size := by
  induction t with
  | node form span children ih =>
      intro flag d
      have hall : ∀ flag (d' : Decisions), d.plan.size ≤ d'.plan.size → d.plan.size
          ≤ (visitAll (children.map fun k => (k, k.fold v.visit)) flag d').plan.size := by
        intro flag d' hd'
        refine visitAll_induct (P := fun d' => d.plan.size ≤ d'.plan.size) ?_ hd'
        intro c hc d'' hd''
        obtain ⟨k, hk, rfl⟩ := List.mem_map.mp hc
        exact Nat.le_trans hd'' (ih k hk flag d'')
      rw [fold_node]
      rcases visit_cases v form span (children.map fun k => (k, k.fold v.visit)) flag d with
        ⟨c, -, -, -, heq⟩ | ⟨_, _, callee, arguments, chain, -, -, -, heq⟩
          | ⟨_, _, callee, arguments, -, -, -, heq⟩ | ⟨_, name, c, -, -, -, -, -, -, heq⟩ | ⟨-, heq⟩
      · rw [heq, size_elide]
        omega
      · rw [heq, size_substitute]
        omega
      · rw [heq]
        exact hall _ _ (Nat.le_of_eq (by rw [Decisions.remember_plan]))
      · rw [heq, size_bind]
        omega
      · rw [heq]
        exact hall _ _ (Nat.le_refl _)

end

-- ============================================================ the first walk

theorem map_fst_paired {α : Type} (ks : List Node) (g : Node → α) :
    (ks.map fun k => (k, g k)).map Prod.fst = ks := by
  simp [Function.comp_def]

theorem exists_singleton {R : Node → Node → Prop} {ks : List Node} {j : Node}
    (hR : List.Forall₂ R ks [j]) : ∃ k, R k j ∧ ks = [k] := by
  rcases hR with _ | ⟨hk, _ | _⟩
  exact ⟨_, hk, rfl⟩

theorem exists_pair {R : Node → Node → Prop} {j k : Node} {js : List Node}
    (hR : List.Forall₂ R [j, k] js) : ∃ j' k', R j j' ∧ R k k' ∧ js = [j', k'] := by
  rcases hR with _ | ⟨hj, _ | ⟨hk, _ | _⟩⟩
  exact ⟨_, _, hj, hk, rfl⟩

/-- Whether two walks have nothing to do so far and have given up no uses. -/
structure Quiet (v w : Survey) (d e : Decisions) : Prop where
  idle : d.plan.size = 0
  idle' : e.plan.size = 0
  liveness : d.liveness = .ofBindings v.origin.bindings
  liveness' : e.liveness = .ofBindings w.origin.bindings

/-- Whether two quiet walks know of the same accesses that they are bound. -/
structure Abreast (v w : Survey) (E : Node → Node → Prop) (d e : Decisions) : Prop
    extends Quiet v w d e where
  bound : ∀ {m n}, E m n → m.form.isMember = true →
    e.alreadyBound.contains n.span = d.alreadyBound.contains m.span

variable {d e : Decisions}

/-- What no visit of a child takes away, the visits of all children do not. -/
theorem size_le_visitAll {f : Algebra Visit} {flag : Bool} (ks : List Node)
    (hgrows : ∀ (k : Node) (d : Decisions), d.plan.size ≤ (k.fold f flag d).plan.size)
    (d : Decisions) : d.plan.size ≤ (visitAll (ks.map fun k => (k, k.fold f)) flag d).plan.size :=
  visitAll_induct (P := fun d' => d.plan.size ≤ d'.plan.size)
    (fun c hc d' hd' => by
      obtain ⟨k, -, rfl⟩ := List.mem_map.mp hc
      exact Nat.le_trans hd' (hgrows k d')) (Nat.le_refl _)

/-- Two walks along nodes that are related one by one, of which the first one ends with nothing to
do. -/
theorem visitAll_related {R : Decisions → Decisions → Prop} {f g : Algebra Visit}
    {flag flag' : Bool} {ks js : List Node} (hE : List.Forall₂ E ks js)
    (hgrows : ∀ (k : Node) (d : Decisions), d.plan.size ≤ (k.fold f flag d).plan.size)
    (ih : ∀ k ∈ ks, ∀ j, E k j → ∀ d e, R d e → (k.fold f flag d).plan.size = 0 →
      R (k.fold f flag d) (j.fold g flag' e))
    (h : R d e) (hidle : (visitAll (ks.map fun k => (k, k.fold f)) flag d).plan.size = 0) :
    R (visitAll (ks.map fun k => (k, k.fold f)) flag d)
      (visitAll (js.map fun j => (j, j.fold g)) flag' e) := by
  induction hE generalizing d e with
  | nil => exact h
  | @cons k j ks js hkj _ ihs =>
      have hfirst : (k.fold f flag d).plan.size = 0 :=
        Nat.le_zero.mp (hidle ▸ size_le_visitAll ks hgrows (k.fold f flag d))
      exact ihs (fun k' hk' => ih k' (List.mem_cons_of_mem _ hk'))
        (ih k List.mem_cons_self j hkj d e h hfirst) hidle

namespace Echo

variable (h : Echo v w E)
include h

/-- Calls that bind related accesses are remembered side by side. -/
theorem remember_abreast (hde : Abreast v w E d e) {callee callee' : Node}
    {arguments arguments' : List Node} (hcallee : E callee callee')
    (harguments : List.Forall₂ E arguments arguments') :
    Abreast v w E (d.remember (v.boundTarget? callee arguments))
      (e.remember (w.boundTarget? callee' arguments')) := by
  rcases h.boundTarget? hcallee harguments with ⟨hm, hn⟩ | ⟨m, n, hmn, hmember, hm, hn⟩
  · rw [hm, hn]
    exact hde
  · rw [hm, hn]
    refine { hde with bound := fun {m' n'} hmn' hmember' => ?_ }
    have hspan : (n'.span == n.span) = (m'.span == m.span) := by
      rw [Bool.eq_iff_iff, beq_iff_eq, beq_iff_eq]
      exact (h.access hmn' hmn hmember' hmember).symm
    rw [Decisions.remember, Decisions.remember, List.contains_cons, List.contains_cons, hspan,
      hde.bound hmn' hmember']

/-- Two first walks along related nodes, of which the first one ends with nothing to do. -/
theorem visit_idle {m n : Node} (hE : E m n) : ∀ flag d e, Abreast v w E d e →
    (m.fold v.visit flag d).plan.size = 0 →
    Abreast v w E (m.fold v.visit flag d) (n.fold w.visit flag e) := by
  induction m generalizing n with
  | node form span ks ih =>
      intro flag d e hde hidle
      obtain ⟨span', js, rfl, hchildren⟩ := h.exists_same hE
      have hall : ∀ flag d e, Abreast v w E d e →
          (visitAll (ks.map fun k => (k, k.fold v.visit)) flag d).plan.size = 0 →
          Abreast v w E (visitAll (ks.map fun k => (k, k.fold v.visit)) flag d)
            (visitAll (js.map fun j => (j, j.fold w.visit)) flag e) :=
        fun flag d e => visitAll_related hchildren (fun k => size_le_visit k flag)
          fun k hk j hkj => ih k hk hkj flag
      rw [fold_node] at hidle
      rw [fold_node, fold_node]
      -- where the second walk does something at the node, the first one would have
      rcases visit_cases w form span' (js.map fun j => (j, j.fold w.visit)) flag e with
        ⟨c, rfl, hc, hpure, -⟩ | ⟨o, p, callee, arguments, chain, rfl, hc, hsub, -⟩
          | ⟨o, p, callee, arguments, rfl, hc, hsub, heq⟩
          | ⟨o, name, c, rfl, hc, hvalue, hbindable, hbound, htraces, -⟩ | ⟨hcall, heq⟩
      · obtain ⟨j, rfl, rfl⟩ := List.map_eq_singleton_iff.mp hc
        obtain ⟨k, hk, rfl⟩ := exists_singleton hchildren
        rw [List.map_singleton, visit_statement, if_pos (h.isPureCall hk ▸ hpure), size_elide]
          at hidle
        cases hidle
      · obtain ⟨j, js, rfl, rfl, rfl⟩ := List.map_eq_cons_iff.mp hc
        cases hchildren with
        | cons hcallee harguments =>
            rw [map_fst_paired, h.substitutionFor? hcallee harguments] at hsub
            rw [List.map_cons, visit_call, map_fst_paired, hsub, size_substitute] at hidle
            cases hidle
      · obtain ⟨j, js, rfl, rfl, rfl⟩ := List.map_eq_cons_iff.mp hc
        cases hchildren with
        | @cons k _ ks _ hcallee harguments =>
            rw [map_fst_paired, h.substitutionFor? hcallee harguments] at hsub
            have hfirst : v.visit (.call o p) span ((k :: ks).map fun k => (k, k.fold v.visit)) flag d
                = visitAll ((k :: ks).map fun k => (k, k.fold v.visit)) true
                    (d.remember (v.boundTarget? k ks)) := by
              rw [List.map_cons, visit_call, map_fst_paired, hsub]
            rw [hfirst] at hidle
            rw [heq, hfirst, map_fst_paired]
            exact hall true _ _ (h.remember_abreast hde hcallee harguments) hidle
      · obtain ⟨j, rfl, rfl⟩ := List.map_eq_singleton_iff.mp hc
        obtain ⟨k, hk, rfl⟩ := exists_singleton hchildren
        rw [h.config] at hbindable
        have hbound : d.alreadyBound.contains span = false := (hde.bound hE rfl).symm.trans hbound
        rw [h.traces hk] at htraces
        have hbinds : (flag && v.config.host.isBindable name && !d.alreadyBound.contains span
            && v.origin.traces k) = true := by
          rw [hvalue, hbindable, hbound, htraces]
          rfl
        rw [List.map_singleton, visit_member, if_pos hbinds, size_bind] at hidle
        cases hidle
      · have hfirst : v.visit form span (ks.map fun k => (k, k.fold v.visit)) flag d
            = visitAll (ks.map fun k => (k, k.fold v.visit)) form.holdsValues d := by
          rcases visit_cases v form span (ks.map fun k => (k, k.fold v.visit)) flag d with
            ⟨c, -, -, -, hv⟩ | ⟨_, _, callee, arguments, chain, -, -, -, hv⟩
              | ⟨o, p, callee, arguments, rfl, hc, -, -⟩
              | ⟨_, name, c, -, -, -, -, -, -, hv⟩ | ⟨-, hv⟩
          · rw [hv, size_elide] at hidle
            cases hidle
          · rw [hv, size_substitute] at hidle
            cases hidle
          · -- a call without substitution in the first program has a callee in the second one
            obtain ⟨k, ks, rfl, -, -⟩ := List.map_eq_cons_iff.mp hc
            cases hchildren with
            | cons => cases hcall o p rfl
          · rw [hv, size_bind] at hidle
            cases hidle
          · exact hv
        rw [hfirst] at hidle
        rw [heq, hfirst]
        exact hall form.holdsValues d e hde hidle

end Echo

-- ============================================================ patterns

/-- Whether a second plan for a pattern does nothing, and needs no more of the pattern, where a
first one removes nothing. -/
def Sparing (p q : PatternPlan) : Prop :=
  p.removed = [] → q.removed = [] ∧ (p.splits = [] → q.splits = [])
    ∧ (q.emptied = true → p.emptied = true)

/-- Two plans that do nothing are a case of this. -/
theorem sparing_nothing : Sparing {} {} := fun _ => ⟨rfl, fun _ => rfl, id⟩

section

variable {p q inner inner' : PatternPlan} {span span' : Span} {ns ns' : List EditNotice}

/-- A name goes, or stays and perhaps moves. -/
theorem Sparing.binding (hpq : Sparing p q) {unused unused' : Bool} {ss ss' : List PropertySplit}
    (hunused : unused' = true → unused = true) (hsplits : ss' = [] ↔ ss = []) :
    Sparing
      (if unused then { p with removed := p.removed ++ [span], notices := ns }
        else { p with splits := p.splits ++ ss, emptied := false })
      (if unused' then { q with removed := q.removed ++ [span'], notices := ns' }
        else { q with splits := q.splits ++ ss', emptied := false }) := by
  intro hremoved
  cases unused with
  | true => exact absurd (List.append_eq_nil_iff.mp hremoved).2 (List.cons_ne_nil _ _)
  | false =>
      cases unused' with
      | true => cases hunused rfl
      | false =>
          refine ⟨(hpq hremoved).1, fun hp => ?_, id⟩
          obtain ⟨hold, hnew⟩ := List.append_eq_nil_iff.mp hp
          exact List.append_eq_nil_iff.mpr ⟨(hpq hremoved).2.1 hold, hsplits.mpr hnew⟩

/-- A pattern inside goes if nothing of it stays. -/
theorem Sparing.object (hpq : Sparing p q) (hinner : Sparing inner inner') {keepsAll : Bool}
    {ms ms' : List EditNotice} :
    Sparing
      (if inner.emptied && !keepsAll then
          { p with removed := p.removed ++ inner.removed ++ [span], notices := ns }
        else { p with removed := p.removed ++ inner.removed, notices := ms, emptied := false })
      (if inner'.emptied && !keepsAll then
          { q with removed := q.removed ++ inner'.removed ++ [span'], notices := ns' }
        else { q with removed := q.removed ++ inner'.removed, notices := ms', emptied := false }) := by
  intro hremoved
  split at hremoved
  case isTrue => exact absurd (List.append_eq_nil_iff.mp hremoved).2 (List.cons_ne_nil _ _)
  case isFalse hstays =>
    obtain ⟨hp, hi⟩ := List.append_eq_nil_iff.mp hremoved
    have hstays' : ¬(inner'.emptied && !keepsAll) = true := by
      intro hgoes
      rw [Bool.and_eq_true_iff] at hgoes
      exact hstays (Bool.and_eq_true_iff.mpr ⟨(hinner hi).2.2 hgoes.1, hgoes.2⟩)
    rw [if_neg hstays, if_neg hstays']
    exact ⟨List.append_eq_nil_iff.mpr ⟨(hpq hp).1, (hinner hi).1⟩, (hpq hp).2.1, id⟩

end

variable {l l' : Liveness}

/-- The method of the host that a property with a used name stands for, if it stands for one. -/
def splitOf (v : Survey) (key : Node) (span : Span) : List PropertySplit :=
  match key.form with
  | .key name => if v.config.host.isBindable name then [⟨span, name⟩] else []
  | _ => []

/-- A property with a name goes when the name is unused, and otherwise stays and may move. -/
theorem planProperty_binding {shorthand : Bool} {p inner : PatternPlan} {span own : Span}
    {key : Node} {name : String} {ks : List Node} :
    v.planProperty l false p
        (.node (.patternProperty false shorthand) span [key, .node (.binding name) own ks]) inner
      = if v.isUnusedName l (.node (.binding name) own ks) then
          { p with
            removed := p.removed ++ [span]
            notices := p.notices ++ [.pruningBinding span.start] }
        else { p with splits := p.splits ++ v.splitOf key span, emptied := false } := rfl

/-- A property with an object pattern goes when the pattern is emptied and no rest element needs
it. -/
theorem planProperty_object {shorthand keepsAll : Bool} {p inner : PatternPlan} {span own : Span}
    {key : Node} {role : PatternRole} {ks : List Node} :
    v.planProperty l keepsAll p
        (.node (.patternProperty false shorthand) span [key, .node (.objectPattern role) own ks])
        inner
      = if inner.emptied && !keepsAll then
          { p with
            removed := p.removed ++ inner.removed ++ [span]
            notices := p.notices ++ inner.notices ++ [.pruningPattern span.start] }
        else
          { p with
            removed := p.removed ++ inner.removed
            notices := p.notices ++ inner.notices
            emptied := false } := rfl

/-- What a property adds to a plan takes nothing away from it. -/
theorem removed_planProperty {keepsAll : Bool} {p inner : PatternPlan} {n : Node}
    (hremoved : (v.planProperty l keepsAll p n inner).removed = []) : p.removed = [] := by
  unfold planProperty at hremoved
  split at hremoved
  case h_1 => exact hremoved
  case h_2 =>
    split at hremoved
    case h_1 =>
      split at hremoved
      · exact hremoved
      · split at hremoved
        · exact (List.append_eq_nil_iff.mp hremoved).1
        · exact hremoved
    case h_2 =>
      dsimp only at hremoved
      split at hremoved
      · exact (List.append_eq_nil_iff.mp (List.append_eq_nil_iff.mp hremoved).1).1
      · exact (List.append_eq_nil_iff.mp hremoved).1
    case h_3 => exact (List.append_eq_nil_iff.mp hremoved).1
    case h_4 => exact hremoved
  case h_3 => exact hremoved

/-- Entries only add to what is removed, so where nothing is removed nothing was before. -/
theorem removed_foldl_planProperty {keepsAll : Bool} {cs : List (Child PatternPlan)}
    {p : PatternPlan}
    (hremoved : (cs.foldl (fun p c => v.planProperty l keepsAll p c.1 c.2) p).removed = []) :
    p.removed = [] := by
  induction cs generalizing p with
  | nil => exact hremoved
  | cons c cs ih => exact removed_planProperty (ih hremoved)

namespace Echo

variable (h : Echo v w E) (hlive : ∀ k, l'.isUnused k = true → l.isUnused k = true)
include h

include hlive

/-- A name that is unused in the echo is unused in the program. -/
theorem isUnusedName {m n : Node} (hE : E m n) (hunused : w.isUnusedName l' n = true) :
    v.isUnusedName l m = true := by
  have hform := h.sameForm hE
  unfold Survey.isUnusedName at hunused ⊢
  rw [← hform] at hunused
  split at hunused
  case h_1 name heq =>
    rw [h.name hE (by rw [isBinding, heq])] at hunused
    cases hk : v.origin.bindings.symbolOfName? m.span.start with
    | none =>
        rw [hk] at hunused
        cases hunused
    | some k =>
        rw [hk] at hunused
        exact hlive k hunused
  case h_2 => cases hunused

/-- A rest element that is used in the program is used in the echo. -/
theorem unusedRest_eq_nil {ks js : List Node} (hE : List.Forall₂ E ks js)
    (hnone : v.unusedRest l ks = []) : w.unusedRest l' js = [] := by
  have hrest := h.rel_restOf? (fun hE => hE) hE
  unfold unusedRest at hnone ⊢
  cases hj : restOf? js with
  | none => rfl
  | some b =>
      cases hk : restOf? ks with
      | none => rw [hk, hj] at hrest; cases hrest
      | some a =>
          rw [hk, hj] at hrest
          rw [hk] at hnone
          cases hrest with
          | some hab =>
              have hpattern := (List.forall₂_cons.mp (h.children hab)).1
              dsimp only at hnone ⊢
              refine if_neg fun hunused => ?_
              rw [if_pos (h.isUnusedName hlive hpattern hunused)] at hnone
              cases hnone

/-- What a property adds to the plans for its pattern. -/
theorem planProperty_sparing {keepsAll : Bool} {p q : PatternPlan} {m n : Node}
    {inner inner' : PatternPlan} (hE : E m n) (hpq : Sparing p q) (hinner : Sparing inner inner') :
    Sparing (v.planProperty l keepsAll p m inner) (w.planProperty l' keepsAll q n inner') := by
  -- what only keeps the pattern from being emptied
  have hkept : Sparing { p with emptied := false } { q with emptied := false } :=
    fun hp => ⟨(hpq hp).1, (hpq hp).2.1, id⟩
  obtain ⟨form, span, ks⟩ := m
  obtain ⟨span', js, rfl, hchildren⟩ := h.exists_same hE
  cases form with
  | patternProperty computed shorthand =>
      cases computed with
      | true => exact hkept
      | false =>
          rcases hchildren with _ | ⟨hkey, _ | ⟨hvalue, _ | ⟨_, _⟩⟩⟩
          · exact hpq
          · exact hpq
          · rename_i key key' value value'
            obtain ⟨vform, vspan, vks⟩ := value
            obtain ⟨vspan', vjs, rfl, hparts⟩ := h.exists_same hvalue
            cases vform with
            | binding name =>
                cases keepsAll with
                | true => exact hpq
                | false =>
                    rw [planProperty_binding, planProperty_binding]
                    refine hpq.binding (h.isUnusedName hlive hvalue) ?_
                    rw [splitOf, splitOf, h.sameForm hkey, h.config]
                    split
                    · split <;> simp
                    · simp
            | objectPattern role =>
                rw [planProperty_object, planProperty_object]
                exact hpq.object hinner
            | arrayPattern role =>
                intro hremoved
                obtain ⟨hp, hrest⟩ := List.append_eq_nil_iff.mp hremoved
                refine ⟨?_, fun hsplits => (hpq hp).2.1 hsplits, id⟩
                exact List.append_eq_nil_iff.mpr
                  ⟨(hpq hp).1, h.unusedRest_eq_nil hlive hparts hrest⟩
            | _ => exact hkept
          · exact hpq
  | _ => exact hpq

/-- Sparing plans for the entries make sparing plans for their pattern. -/
theorem foldl_sparing {keepsAll : Bool} {ks js : List Node} (hE : List.Forall₂ E ks js)
    (ih : ∀ k ∈ ks, ∀ j, E k j → Sparing (v.planPattern l k) (w.planPattern l' j))
    {p q : PatternPlan} (hpq : Sparing p q) :
    Sparing
      ((ks.map fun k => (k, v.planPattern l k)).foldl
        (fun p c => v.planProperty l keepsAll p c.1 c.2) p)
      ((js.map fun j => (j, w.planPattern l' j)).foldl
        (fun p c => w.planProperty l' keepsAll p c.1 c.2) q) := by
  induction hE generalizing p q with
  | nil => exact hpq
  | @cons k j ks js hkj _ ihs =>
      exact ihs (fun k' hk' => ih k' (List.mem_cons_of_mem _ hk'))
        (h.planProperty_sparing hlive hkj hpq (ih k List.mem_cons_self j hkj))

/-- What can be done about related patterns. -/
theorem planPattern_sparing {m n : Node} (hE : E m n) :
    Sparing (v.planPattern l m) (w.planPattern l' n) := by
  induction m generalizing n with
  | node form span ks ih =>
      obtain ⟨span', js, rfl, hchildren⟩ := h.exists_same hE
      cases form with
      | objectPattern role =>
          rw [planPattern_object, planPattern_object]
          cases hrest : v.unusedRest l ks with
          | nil =>
              have hrest' := h.unusedRest_eq_nil hlive hchildren hrest
              have hkeeps : w.keepsAll l' js = v.keepsAll l ks := by
                rw [keepsAll, keepsAll, hrest, hrest', h.isSome_restOf? (fun hE => hE) hchildren]
              rw [hrest', hkeeps]
              exact h.foldl_sparing hlive hchildren (fun k hk j hkj => ih k hk hkj)
                fun _ => ⟨rfl, fun _ => rfl, id⟩
          | cons s ss =>
              -- the rest element goes, so the first plan does something
              intro hremoved
              cases removed_foldl_planProperty hremoved
      | arrayPattern role =>
          rw [planPattern_array, planPattern_array]
          exact fun hremoved =>
            ⟨h.unusedRest_eq_nil hlive hchildren hremoved, fun _ => rfl, id⟩
      | patternProperty computed shorthand =>
          rcases hchildren with _ | ⟨_, _ | ⟨hvalue, _ | ⟨_, _⟩⟩⟩
          · exact sparing_nothing
          · exact sparing_nothing
          · rw [planPattern_property, planPattern_property]
            exact ih _ (by simp) hvalue
          · exact sparing_nothing
      | _ => exact sparing_nothing

end Echo

-- ============================================================ the second walk

/-- A declarator only adds to the plan. -/
theorem size_le_patternEdits (flag : Bool) (span : Span) (pattern value : Node) (l : Liveness)
    (p : EditPlan) : p.size ≤ (v.patternEdits flag span pattern value l p).size := by
  unfold patternEdits
  split
  case h_1 =>
    dsimp only
    split <;> simp only [EditPlan.size, List.length_append, List.flatMap_cons] <;> omega
  case h_2 =>
    simp only [EditPlan.size, List.length_append]
    omega
  case h_3 => exact Nat.le_refl _

/-- The second walk only adds to the plan at a declarator. -/
theorem size_le_planDeclarator (flag : Bool) (span : Span) (pattern value : Node)
    (d : Decisions) : d.plan.size ≤ (v.planDeclarator flag span pattern value d).plan.size := by
  rcases planDeclarator_cases v flag span pattern value d with heq | ⟨-, -, hplan⟩
  · exact Nat.le_of_eq (by rw [heq])
  · rw [hplan]
    exact size_le_patternEdits ..

/-- The second walk only adds to the plan. -/
theorem size_le_visitPatterns (t : Node) : ∀ flag (d : Decisions),
    d.plan.size ≤ (t.fold v.visitPatterns flag d).plan.size := by
  induction t with
  | node form span children ih =>
      intro flag d
      have hall : ∀ flag (d' : Decisions), d.plan.size ≤ d'.plan.size → d.plan.size
          ≤ (visitAll (children.map fun k => (k, k.fold v.visitPatterns)) flag d').plan.size := by
        intro flag d' hd'
        refine visitAll_induct (P := fun d' => d.plan.size ≤ d'.plan.size) ?_ hd'
        intro c hc d'' hd''
        obtain ⟨k, hk, rfl⟩ := List.mem_map.mp hc
        exact Nat.le_trans hd'' (ih k hk flag d'')
      rw [fold_node]
      rcases visitPatterns_cases v form span (children.map fun k => (k, k.fold v.visitPatterns))
          flag d with ⟨-, -, heq⟩ | ⟨pattern, value, -, -, heq⟩ | ⟨flag', heq⟩
      · exact Nat.le_of_eq (by rw [heq])
      · rw [heq]
        exact hall _ _ (size_le_planDeclarator ..)
      · rw [heq]
        exact hall _ _ (Nat.le_refl _)

/-- With nothing to do so far, the second walk goes on to the children of whatever is no declarator
with a value. -/
theorem visitPatterns_of_idle (v : Survey) {form : Form} (span : Span) {children : List Node}
    (flag : Bool) (hpair : ¬(form = .declarator ∧ ∃ pattern value, children = [pattern, value]))
    (hidle : d.plan.size = 0) :
    ∃ flag', v.visitPatterns form span (children.map fun k => (k, k.fold v.visitPatterns)) flag d
      = visitAll (children.map fun k => (k, k.fold v.visitPatterns)) flag' d := by
  rcases visitPatterns_cases v form span (children.map fun k => (k, k.fold v.visitPatterns)) flag d
    with ⟨-, hgone, -⟩ | ⟨pattern, value, rfl, hc, -⟩ | hall
  · rw [(size_eq_zero.mp hidle).1] at hgone
    cases hgone
  · obtain ⟨p, rest, rfl, -, hrest⟩ := List.map_eq_cons_iff.mp hc
    obtain ⟨k, rfl, -⟩ := List.map_eq_singleton_iff.mp hrest
    exact absurd ⟨rfl, p, k, rfl⟩ hpair
  · exact hall

namespace Echo

variable (h : Echo v w E)
include h

/-- What is unused in the second program is unused in the first one. -/
theorem isUnused {k : Nat} (hunused : (Liveness.ofBindings w.origin.bindings).isUnused k = true) :
    (Liveness.ofBindings v.origin.bindings).isUnused k = true := by
  rw [Liveness.isUnused, beq_iff_eq] at hunused ⊢
  by_cases hk : k < v.origin.bindings.symbols.length
  · rw [Liveness.count_ofBindings (h.length ▸ hk)] at hunused
    rw [Liveness.count_ofBindings hk]
    exact Nat.le_zero.mp (hunused ▸ h.count k)
  · simp [Liveness.count, Liveness.ofBindings, hk]

/-- Where a first plan leaves a pattern of a declarator alone, a second one does. -/
theorem patternEdits_idle (hlive : ∀ k, l'.isUnused k = true → l.isUnused k = true)
    {flag flag' : Bool} {span span' : Span} {pattern pattern' value value' : Node}
    (hpattern : E pattern pattern') (hvalue : E value value') {p q : EditPlan} (hq : q.size = 0)
    (hidle : (v.patternEdits flag span pattern value l p).size = 0) :
    (w.patternEdits flag' span' pattern' value' l' q).size = 0 := by
  have hsparing := h.planPattern_sparing hlive hpattern
  obtain ⟨hq₁, hq₂, hq₃, hq₄, hq₅⟩ := size_eq_zero.mp hq
  unfold patternEdits at hidle ⊢
  rw [h.sameForm hpattern] at hidle
  split at hidle
  case h_1 heq =>
    obtain ⟨-, hremoved, -, -, hsplits⟩ := size_eq_zero.mp hidle
    have hnone := List.reverse_eq_nil_iff.mp (List.append_eq_nil_iff.mp hremoved).1
    obtain ⟨hnone', hmoves, -⟩ := hsparing hnone
    refine size_eq_zero.mpr ⟨hq₁, by simp [hnone', hq₂], hq₃, hq₄, ?_⟩
    dsimp only at hsplits ⊢
    rw [h.isStaticChain hvalue]
    cases hs : (v.planPattern l pattern).splits with
    | nil => simp [hmoves hs, hq₅]
    | cons s ss =>
        -- the first plan splits nothing off, so the value is no chain
        cases hstatic : value.isStaticChain with
        | false => simpa using hq₅
        | true =>
            rw [hs, hstatic] at hsplits
            cases hsplits
  case h_2 heq =>
    obtain ⟨-, hremoved, -, -, -⟩ := size_eq_zero.mp hidle
    have hnone := (List.append_eq_nil_iff.mp hremoved).1
    exact size_eq_zero.mpr ⟨hq₁, by simp [(hsparing hnone).1, hq₂], hq₃, hq₄, hq₅⟩
  case h_3 => exact hq

/-- Two second walks at related declarators. -/
theorem planDeclarator_quiet (hde : Quiet v w d e) {flag flag' : Bool} {span span' : Span}
    {pattern pattern' value value' : Node} (hpattern : E pattern pattern') (hvalue : E value value')
    (hidle : (v.planDeclarator flag span pattern value d).plan.size = 0) :
    Quiet v w (v.planDeclarator flag span pattern value d)
      (w.planDeclarator flag' span' pattern' value' e) := by
  have hgate : (value'.isAbsent || !w.origin.traces value')
      = (value.isAbsent || !v.origin.traces value) := by
    rw [h.isAbsent hvalue, h.traces hvalue]
  cases hcase : value.isAbsent || !v.origin.traces value with
  | true =>
      have hv : v.planDeclarator flag span pattern value d = d := if_pos hcase
      have hw : w.planDeclarator flag' span' pattern' value' e = e := if_pos (hgate.trans hcase)
      rw [hv, hw]
      exact hde
  | false =>
      obtain ⟨hlive, hplan⟩ : (v.planDeclarator flag span pattern value d).liveness = d.liveness
          ∧ (v.planDeclarator flag span pattern value d).plan
            = v.patternEdits flag span pattern value d.liveness d.plan :=
        planDeclarator_of_traces hcase
      obtain ⟨hlive', hplan'⟩ :
          (w.planDeclarator flag' span' pattern' value' e).liveness = e.liveness
          ∧ (w.planDeclarator flag' span' pattern' value' e).plan
            = w.patternEdits flag' span' pattern' value' e.liveness e.plan :=
        planDeclarator_of_traces (hgate.trans hcase)
      refine ⟨hidle, ?_, hlive.trans hde.liveness, hlive'.trans hde.liveness'⟩
      rw [hplan']
      rw [hplan] at hidle
      refine h.patternEdits_idle (fun k hk => ?_) hpattern hvalue hde.idle' hidle
      rw [hde.liveness'] at hk
      rw [hde.liveness]
      exact h.isUnused hk

/-- Two second walks along related nodes, of which the first one ends with nothing to do. -/
theorem visitPatterns_idle {m n : Node} (hE : E m n) : ∀ flag flag' d e, Quiet v w d e →
    (m.fold v.visitPatterns flag d).plan.size = 0 →
    Quiet v w (m.fold v.visitPatterns flag d) (n.fold w.visitPatterns flag' e) := by
  induction m generalizing n with
  | node form span ks ih =>
      intro flag flag' d e hde hidle
      obtain ⟨span', js, rfl, hchildren⟩ := h.exists_same hE
      have hall : ∀ flag flag' d e, Quiet v w d e →
          (visitAll (ks.map fun k => (k, k.fold v.visitPatterns)) flag d).plan.size = 0 →
          Quiet v w (visitAll (ks.map fun k => (k, k.fold v.visitPatterns)) flag d)
            (visitAll (js.map fun j => (j, j.fold w.visitPatterns)) flag' e) :=
        fun flag flag' d e => visitAll_related hchildren (fun k => size_le_visitPatterns k flag)
          fun k hk j hkj => ih k hk hkj flag flag'
      rw [fold_node] at hidle
      rw [fold_node, fold_node]
      by_cases hpair : form = .declarator ∧ ∃ pattern value, ks = [pattern, value]
      · obtain ⟨rfl, pattern, value, rfl⟩ := hpair
        obtain ⟨pattern', value', hpattern, hvalue, rfl⟩ := exists_pair hchildren
        refine hall false false _ _ (h.planDeclarator_quiet hde hpattern hvalue ?_) hidle
        exact Nat.le_zero.mp (hidle ▸ size_le_visitAll [pattern, value]
          (fun k => size_le_visitPatterns k false) (v.planDeclarator flag span pattern value d))
      · obtain ⟨flag₁, hv⟩ := visitPatterns_of_idle v span flag hpair hde.idle
        have hpair' : ¬(form = .declarator ∧ ∃ pattern value, js = [pattern, value]) := by
          rintro ⟨rfl, pattern, value, rfl⟩
          obtain ⟨p, k, -, -, rfl⟩ := exists_pair hchildren.flip
          exact hpair ⟨rfl, p, k, rfl⟩
        obtain ⟨flag₂, hw⟩ := visitPatterns_of_idle w span' flag' hpair' hde.idle'
        rw [hv] at hidle
        rw [hv, hw]
        exact hall flag₁ flag₂ d e hde hidle

end Echo

-- ============================================================ whole programs

/-- Whether a statement gives the planner nothing to decide or to remember. -/
structure Inert (w : Survey) (n : Node) : Prop where
  visit : ∀ flag d, n.fold w.visit flag d = d
  visitPatterns : ∀ flag d, n.fold w.visitPatterns flag d = d

/-- Statements that decide nothing can stand at the end unnoticed. -/
theorem visitAll_append_inert {f : Algebra Visit} {js more : List Node} {flag : Bool}
    {d : Decisions} (hmore : ∀ n ∈ more, ∀ flag d, n.fold f flag d = d) :
    visitAll ((js ++ more).map fun j => (j, j.fold f)) flag d
      = visitAll (js.map fun j => (j, j.fold f)) flag d := by
  have hsplit : visitAll ((js ++ more).map fun j => (j, j.fold f)) flag d
      = visitAll (more.map fun j => (j, j.fold f)) flag
          (visitAll (js.map fun j => (j, j.fold f)) flag d) := by
    rw [List.map_append]
    exact List.foldl_append
  rw [hsplit]
  refine visitAll_induct (P := (· = visitAll (js.map fun j => (j, j.fold f)) flag d))
    (fun c hc d' hd' => ?_) rfl
  obtain ⟨k, hk, rfl⟩ := List.mem_map.mp hc
  exact (hmore k hk flag d').trans hd'

/-- Where the planner has nothing to do, it has nothing to do in an echo with more statements at its
end, if these give it nothing to decide. -/
theorem Echo.isEmpty_planEdits {config : TransformConfig} {plugin : String}
    {line line' : Option String} {span span' : Span} {ks js more : List Node}
    (h : Echo (onProgram config plugin (.node (.program line) span ks))
      (onProgram config plugin (.node (.program line') span' (js ++ more))) E)
    (hE : List.Forall₂ E ks js)
    (hmore : ∀ n ∈ more,
      Inert (onProgram config plugin (.node (.program line') span' (js ++ more))) n)
    (hidle : (planEdits config plugin (.node (.program line) span ks)).1.isEmpty = true) :
    (planEdits config plugin (.node (.program line') span' (js ++ more))).1.isEmpty = true := by
  rw [EditPlan.isEmpty, beq_iff_eq, planEdits_fst, firstDecisions, fold_node, fold_node]
    at hidle ⊢
  let v := onProgram config plugin (.node (.program line) span ks)
  let w := onProgram config plugin (.node (.program line') span' (js ++ more))
  let d : Decisions := { liveness := .ofBindings v.origin.bindings }
  let e : Decisions := { liveness := .ofBindings w.origin.bindings }
  change (visitAll (ks.map fun k => (k, k.fold v.visitPatterns)) true
    (visitAll (ks.map fun k => (k, k.fold v.visit)) true d)).plan.size = 0 at hidle
  change (visitAll ((js ++ more).map fun j => (j, j.fold w.visitPatterns)) true
    (visitAll ((js ++ more).map fun j => (j, j.fold w.visit)) true e)).plan.size = 0
  rw [visitAll_append_inert fun n hn => (hmore n hn).visit,
    visitAll_append_inert fun n hn => (hmore n hn).visitPatterns]
  have hstart : Abreast v w E d e := ⟨⟨rfl, rfl, rfl, rfl⟩, fun _ _ => rfl⟩
  -- the second walk only adds, so the first one has ended with nothing to do
  have hidle₁ : (visitAll (ks.map fun k => (k, k.fold v.visit)) true d).plan.size = 0 :=
    Nat.le_zero.mp (hidle ▸ size_le_visitAll _ (fun k => size_le_visitPatterns k true) _)
  have hfirst := visitAll_related hE (fun k => size_le_visit k true)
    (fun k _ j hkj => h.visit_idle hkj true) hstart hidle₁
  have hsecond := visitAll_related hE (fun k => size_le_visitPatterns k true)
    (fun k _ j hkj => h.visitPatterns_idle hkj true true) hfirst.toQuiet hidle
  exact hsecond.idle'

end Survey
end Graft
