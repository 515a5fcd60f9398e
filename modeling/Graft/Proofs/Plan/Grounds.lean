import Graft.Plan
import Graft.Proofs.Tree.Parts
/-!
Why a plan holds what it holds.

Both walks of the planner add an entry only where a node of the tree gives them a ground for it: a
call of a pure method, a call that loads a module, an access to a method of the host, a declarator
with a value of the host. `EditPlan.GroundedIn` says so entry by entry, and `planEdits_grounded`
that it holds of every plan. What a plan can do to a program is read off the grounds, without going
back to the walks.

# The walks, said once

What a walk does at a node is told by one lemma for each walk. The first one elides, substitutes or
binds the node and goes no further, or goes on to the children (`Survey.visit_cases`); the second
one skips a statement that goes away, or looks at a declarator and goes on, or only goes on
(`Survey.visitPatterns_cases`). Every fact about the walks is an induction on the tree with these
cases, and what the visits of the children keep one by one they keep in a row
(`Survey.visitAll_induct`).
-/
namespace Graft

namespace Survey

/-- What the planner works with on a program. -/
def onProgram (config : TransformConfig) (plugin : String) (tree : Node) : Survey :=
  ⟨⟨config.host, Bindings.ofProgram tree⟩, config, plugin⟩

end Survey

/-- What the planner has decided after its first walk. -/
def firstDecisions (config : TransformConfig) (plugin : String) (tree : Node) : Decisions :=
  tree.fold (Survey.onProgram config plugin tree).visit true
    { liveness := Liveness.ofBindings (Bindings.ofProgram tree) }

/-- The plan is what the second walk makes of the decisions of the first. -/
theorem planEdits_fst (config : TransformConfig) (plugin : String) (tree : Node) :
    (planEdits config plugin tree).1
      = (tree.fold (Survey.onProgram config plugin tree).visitPatterns false
          (firstDecisions config plugin tree)).plan := rfl

namespace EditPlan

/-- Every entry of a plan stands for a node of the tree that gives the ground for it. `l` says how
often every symbol is still used when patterns are looked at. -/
structure GroundedIn (v : Survey) (l : Liveness) (tree : Node) (p : EditPlan) : Prop where
  statements : ∀ s ∈ p.removedStatements, ∃ value,
    .node .expressionStatement s [value] ∈ tree.parts ∧ v.isPureCall value = true
  substitutions : ∀ e ∈ p.substitutions, ∃ isOptional isPure callee arguments,
    .node (.call isOptional isPure) e.1 (callee :: arguments) ∈ tree.parts
      ∧ v.substitutionFor? callee arguments = some e.2
  members : ∀ s ∈ p.boundMembers, ∃ isOptional name object,
    .node (.member isOptional name) s [object] ∈ tree.parts
      ∧ v.config.host.isBindable name = true ∧ v.origin.traces object = true
  patterns : ∀ s ∈ p.removedPatterns, ∃ span pattern value,
    .node .declarator span [pattern, value] ∈ tree.parts ∧ v.origin.traces value = true
      ∧ s ∈ (v.planPattern l pattern).removed
  splits : ∀ e ∈ p.splits, ∃ pattern value,
    .node .declarator e.1 [pattern, value] ∈ tree.parts ∧ v.origin.traces value = true
      ∧ value.isStaticChain = true ∧ e.2 = (v.planPattern l pattern).splits
  droppable : ∀ s ∈ p.droppable, ∃ pattern value,
    .node .declarator s [pattern, value] ∈ tree.parts ∧ v.origin.traces value = true
      ∧ value.isStaticChain = true

/-- Whether a plan only adds something about patterns to another one. -/
structure MorePatterns (p q : EditPlan) : Prop where
  statements : q.removedStatements = p.removedStatements
  substitutions : q.substitutions = p.substitutions
  members : q.boundMembers = p.boundMembers

theorem MorePatterns.refl (p : EditPlan) : p.MorePatterns p := ⟨rfl, rfl, rfl⟩

/-- What adds to a plan about patterns only, step by step, adds about patterns only. -/
theorem MorePatterns.trans {p q r : EditPlan} (h : p.MorePatterns q) (h' : q.MorePatterns r) :
    p.MorePatterns r :=
  ⟨h'.statements.trans h.statements, h'.substitutions.trans h.substitutions,
    h'.members.trans h.members⟩

end EditPlan

namespace Survey

open EditPlan

variable {v : Survey} {l : Liveness} {tree : Node}

/-- The empty plan says nothing, so it has its grounds. -/
theorem groundedIn_empty : GroundedIn v l tree {} where
  statements _ h := absurd h List.not_mem_nil
  substitutions _ h := absurd h List.not_mem_nil
  members _ h := absurd h List.not_mem_nil
  patterns _ h := absurd h List.not_mem_nil
  splits _ h := absurd h List.not_mem_nil
  droppable _ h := absurd h List.not_mem_nil

/-- What the visit of every child keeps, the visits of all children keep. -/
theorem visitAll_induct {P : Decisions → Prop} {children : List (Child Visit)} {flag : Bool}
    {d : Decisions} (h : ∀ c ∈ children, ∀ d, P d → P (c.2 flag d)) (hd : P d) :
    P (visitAll children flag d) := by
  unfold visitAll
  induction children generalizing d with
  | nil => exact hd
  | cons c cs ih =>
      exact ih (fun c' hc' => h c' (List.mem_cons_of_mem _ hc')) (h c List.mem_cons_self d hd)

end Survey

-- ======================================================= the first walk

namespace Decisions

/-- A statement goes away, and with it the uses in its value. -/
def elide (d : Decisions) (b : Bindings) (span : Span) (value : Node) : Decisions :=
  releaseAll
    { d.note (.eliding span.start) with
      plan := { d.plan with removedStatements := span :: d.plan.removedStatements } }
    b (Survey.usesIn value)

/-- A call becomes a chain of names. -/
def substitute (d : Decisions) (span : Span) (chain : List String) : Decisions :=
  { d.note (.substituting span.start chain) with
    plan := { d.plan with substitutions := (span, chain) :: d.plan.substitutions } }

/-- A call turns out to bind an access, perhaps. -/
def remember (d : Decisions) (target : Option Span) : Decisions :=
  match target with
  | some target => { d with alreadyBound := target :: d.alreadyBound }
  | none => d

/-- An access will be bound. -/
def bind (d : Decisions) (span : Span) (name : String) : Decisions :=
  { d.note (.binding span.start name) with
    plan := { d.plan with boundMembers := span :: d.plan.boundMembers } }

/-- To remember what is bound already is no edit. -/
@[simp] theorem remember_plan (d : Decisions) (target : Option Span) :
    (d.remember target).plan = d.plan := by
  cases target with
  | none => rfl
  | some target => rfl

end Decisions

namespace Survey

open EditPlan

variable {v : Survey} {l : Liveness} {tree : Node}

/-- At a statement the walk gives up a pure call of the host whole, and otherwise goes into the
value. -/
theorem visit_statement (v : Survey) (span : Span) (c : Child Visit) (flag : Bool)
    (d : Decisions) : v.visit .expressionStatement span [c] flag d
      = if v.isPureCall c.1 then d.elide v.origin.bindings span c.1 else c.2 true d := rfl

/-- At a call the walk substitutes a loader, and otherwise remembers what the call binds and goes
on. -/
theorem visit_call (v : Survey) (isOptional isPure : Bool) (span : Span) (callee : Child Visit)
    (arguments : List (Child Visit)) (flag : Bool) (d : Decisions) :
    v.visit (.call isOptional isPure) span (callee :: arguments) flag d
      = match v.substitutionFor? callee.1 (arguments.map Prod.fst) with
        | some chain => d.substitute span chain
        | none => visitAll (callee :: arguments) true
            (d.remember (v.boundTarget? callee.1 (arguments.map Prod.fst))) := rfl

/-- At an access the walk binds a bindable method of the host that stands as a value and is not
bound already, and otherwise goes into the object. -/
theorem visit_member (v : Survey) (isOptional : Bool) (name : String) (span : Span)
    (c : Child Visit) (flag : Bool) (d : Decisions) :
    v.visit (.member isOptional name) span [c] flag d
      = if flag && v.config.host.isBindable name && !d.alreadyBound.contains span
          && v.origin.traces c.1
        then d.bind span name else c.2 true d := rfl

/-- What the first walk does at a node: it elides, substitutes or binds the node and goes no
further, or goes on to the children. -/
theorem visit_cases (v : Survey) (form : Form) (span : Span) (children : List (Child Visit))
    (isValue : Bool) (d : Decisions) :
    (∃ c, form = .expressionStatement ∧ children = [c] ∧ v.isPureCall c.1 = true
        ∧ v.visit form span children isValue d = d.elide v.origin.bindings span c.1)
      ∨ (∃ isOptional isPure callee arguments chain, form = .call isOptional isPure
          ∧ children = callee :: arguments
          ∧ v.substitutionFor? callee.1 (arguments.map Prod.fst) = some chain
          ∧ v.visit form span children isValue d = d.substitute span chain)
      ∨ (∃ isOptional isPure callee arguments, form = .call isOptional isPure
          ∧ children = callee :: arguments
          ∧ v.substitutionFor? callee.1 (arguments.map Prod.fst) = none
          ∧ v.visit form span children isValue d = visitAll children true
              (d.remember (v.boundTarget? callee.1 (arguments.map Prod.fst))))
      ∨ (∃ isOptional name c, form = .member isOptional name ∧ children = [c] ∧ isValue = true
          ∧ v.config.host.isBindable name = true ∧ d.alreadyBound.contains span = false
          ∧ v.origin.traces c.1 = true
          ∧ v.visit form span children isValue d = d.bind span name)
      ∨ (∀ isOptional isPure, form = .call isOptional isPure → children = [])
        ∧ v.visit form span children isValue d = visitAll children form.holdsValues d := by
  unfold visit
  split
  -- the five alternatives in the order of the function's own branches
  case h_1 value inner =>
    by_cases h : v.isPureCall value = true
    · exact .inl ⟨_, rfl, rfl, h, by rw [if_pos h]; rfl⟩
    · exact .inr (.inr (.inr (.inr ⟨nofun, by rw [if_neg h]; rfl⟩)))
  case h_2 isOptional isPure callee inner arguments =>
    split
    case h_1 chain heq => exact .inr (.inl ⟨_, _, _, _, chain, rfl, rfl, heq, rfl⟩)
    case h_2 heq => exact .inr (.inr (.inl ⟨_, _, _, _, rfl, rfl, heq, rfl⟩))
  case h_3 isOptional name object inner =>
    split
    case isTrue h =>
      simp only [Bool.and_eq_true, Bool.not_eq_true'] at h
      exact .inr (.inr (.inr (.inl ⟨_, _, _, rfl, rfl, h.1.1.1, h.1.1.2, h.1.2, h.2, rfl⟩)))
    case isFalse => exact .inr (.inr (.inr (.inr ⟨nofun, rfl⟩)))
  case h_4 => exact .inr (.inr (.inr (.inr ⟨nofun, rfl⟩)))
  case h_5 => exact .inr (.inr (.inr (.inr ⟨nofun, rfl⟩)))
  -- every other form goes on to its children; only a call without a callee is left to tell apart
  case h_6 hplace hchain _ hcall _ =>
    refine .inr (.inr (.inr (.inr ⟨?_, ?_⟩)))
    · intro isOptional isPure hform
      cases children with
      | nil => rfl
      | cons c children => exact absurd rfl (hcall _ _ c.1 c.2 children hform)
    · cases form with
      | place => exact absurd rfl hplace
      | chain => exact absurd rfl hchain
      | _ => rfl

/-- What a call can be replaced for: it calls the global loader on a known module. -/
theorem loads_of_substitutionFor? {v : Survey} {callee : Node} {arguments : List Node}
    {chain : List String} (h : v.substitutionFor? callee arguments = some chain) :
    ∃ argument text, arguments = [argument]
      ∧ callee.form = .identifier v.config.host.loader
      ∧ v.origin.bindings.isGlobalUse callee.span.start = true
      ∧ argument.stringText? = some text ∧ v.config.replacementFor? text = some chain := by
  unfold substitutionFor? at h
  split at h
  case h_1 name argument heq =>
    split at h
    case isTrue hloader =>
      simp only [Bool.and_eq_true, beq_iff_eq] at hloader
      obtain ⟨text, htext, hchain⟩ := Option.bind_eq_some_iff.mp h
      exact ⟨argument, text, rfl, by rw [heq, hloader.1], hloader.2, htext, hchain⟩
    case isFalse => cases h
  case h_2 => cases h

/-- The first walk adds grounded entries only. -/
theorem groundedIn_visit (t : Node) (ht : t ∈ tree.parts) :
    ∀ isValue d, GroundedIn v l tree d.plan →
      GroundedIn v l tree (t.fold v.visit isValue d).plan := by
  induction t with
  | node form span children ih =>
      intro isValue d hd
      -- going on to the children keeps what the plan so far is grounded in
      have hall : ∀ flag d, GroundedIn v l tree d.plan →
          GroundedIn v l tree
            (visitAll (children.map fun k => (k, k.fold v.visit)) flag d).plan := by
        intro flag d hd
        refine visitAll_induct (P := fun d => GroundedIn v l tree d.plan) ?_ hd
        intro c hc d hd
        obtain ⟨k, hk, rfl⟩ := List.mem_map.mp hc
        have hkt : k ∈ tree.parts := Node.mem_parts_trans
          (Node.mem_parts_node.mpr (.inr ⟨k, hk, Node.self_mem_parts k⟩)) ht
        exact ih k hk hkt flag d hd
      rw [Node.fold_node]
      rcases visit_cases v form span (children.map fun k => (k, k.fold v.visit)) isValue d with
        ⟨c, rfl, hc, hpure, heq⟩ | ⟨o, p, callee, arguments, chain, rfl, hc, hsub, heq⟩
          | ⟨o, p, callee, arguments, rfl, hc, -, heq⟩
          | ⟨o, name, c, rfl, hc, -, hbind, -, htrace, heq⟩ | ⟨-, heq⟩
      · -- each decision adds one entry at most, and its ground is the branch it was made in
        obtain ⟨value, rfl, rfl⟩ := List.map_eq_singleton_iff.mp hc
        rw [heq]
        refine { hd with statements := ?_ }
        intro s hs
        rcases List.mem_cons.mp hs with rfl | hs
        · exact ⟨value, ht, hpure⟩
        · exact hd.statements s hs
      · obtain ⟨callee, arguments, rfl, rfl, rfl⟩ := List.map_eq_cons_iff.mp hc
        rw [heq]
        refine { hd with substitutions := ?_ }
        intro e he
        rcases List.mem_cons.mp he with rfl | he
        · exact ⟨o, p, callee, arguments, ht, by simpa [Function.comp_def] using hsub⟩
        · exact hd.substitutions e he
      · rw [heq]
        exact hall _ _ (by simpa using hd)
      · obtain ⟨object, rfl, rfl⟩ := List.map_eq_singleton_iff.mp hc
        rw [heq]
        refine { hd with members := ?_ }
        intro s hs
        rcases List.mem_cons.mp hs with rfl | hs
        · exact ⟨o, name, object, ht, hbind, htrace⟩
        · exact hd.members s hs
      · rw [heq]
        exact hall _ _ hd

-- ====================================================== the second walk

/-- What the second walk does at a node: it skips a statement that goes away, or looks at a
declarator and goes on to the children, or only goes on. -/
theorem visitPatterns_cases (v : Survey) (form : Form) (span : Span)
    (children : List (Child Visit)) (isListed : Bool) (d : Decisions) :
    (form = .expressionStatement ∧ d.plan.removedStatements.contains span = true
        ∧ v.visitPatterns form span children isListed d = d)
      ∨ (∃ pattern value, form = .declarator ∧ children = [pattern, value]
          ∧ v.visitPatterns form span children isListed d
            = visitAll children false (v.planDeclarator isListed span pattern.1 value.1 d))
      ∨ ∃ flag, v.visitPatterns form span children isListed d = visitAll children flag d := by
  unfold visitPatterns
  split
  case h_1 =>
    by_cases h : d.plan.removedStatements.contains span = true
    · exact .inl ⟨rfl, h, if_pos h⟩
    · exact .inr (.inr ⟨false, if_neg h⟩)
  case h_2 => exact .inr (.inr ⟨_, rfl⟩)
  case h_3 => exact .inr (.inl ⟨_, _, rfl, rfl, rfl⟩)
  case h_4 => exact .inr (.inr ⟨_, rfl⟩)

/-- What the planner adds at a declarator with a value of the host. -/
def patternEdits (v : Survey) (isListed : Bool) (span : Span) (pattern value : Node)
    (l : Liveness) (p : EditPlan) : EditPlan :=
  let found := v.planPattern l pattern
  let isStatic := value.isStaticChain
  match pattern.form with
  | .objectPattern _ =>
      { p with
        removedPatterns := found.removed.reverse ++ p.removedPatterns
        droppable := if isStatic && isListed then span :: p.droppable else p.droppable
        splits := if isStatic && !found.splits.isEmpty then (span, found.splits) :: p.splits
          else p.splits }
  | .arrayPattern _ => { p with removedPatterns := found.removed ++ p.removedPatterns }
  | _ => p

/-- What the planner does at a declarator with a value of the host. -/
theorem planDeclarator_of_traces {v : Survey} {isListed : Bool} {span : Span}
    {pattern value : Node} {d : Decisions}
    (h : (value.isAbsent || !v.origin.traces value) = false) :
    (v.planDeclarator isListed span pattern value d).liveness = d.liveness
      ∧ (v.planDeclarator isListed span pattern value d).plan
          = v.patternEdits isListed span pattern value d.liveness d.plan := by
  rw [planDeclarator, if_neg (by rw [h]; exact Bool.false_ne_true), patternEdits]
  cases pattern.form with
  | objectPattern role =>
      refine ⟨rfl, ?_⟩
      by_cases hs : value.isStaticChain = true
      · cases hsplits : (v.planPattern d.liveness pattern).splits with
        | nil => simp [hs, hsplits]
        | cons s splits => simp [hs, hsplits]
      · simp [hs]
  | arrayPattern role => exact ⟨rfl, rfl⟩
  | _ => exact ⟨rfl, rfl⟩

/-- What the planner does at a declarator: nothing, or it adds what can be done about the
pattern. -/
theorem planDeclarator_cases (v : Survey) (isListed : Bool) (span : Span) (pattern value : Node)
    (d : Decisions) :
    v.planDeclarator isListed span pattern value d = d
      ∨ v.origin.traces value = true
        ∧ (v.planDeclarator isListed span pattern value d).liveness = d.liveness
        ∧ (v.planDeclarator isListed span pattern value d).plan
            = v.patternEdits isListed span pattern value d.liveness d.plan := by
  cases h : value.isAbsent || !v.origin.traces value with
  | true => exact .inl (by rw [planDeclarator, if_pos h])
  | false =>
      have htrace : v.origin.traces value = true := by
        simp only [Bool.or_eq_false_iff, Bool.not_eq_false'] at h
        exact h.2
      exact .inr ⟨htrace, planDeclarator_of_traces h⟩

/-- What is done about a pattern leaves the first walk's entries alone. -/
theorem morePatterns_patternEdits (v : Survey) (isListed : Bool) (span : Span)
    (pattern value : Node) (l : Liveness) (p : EditPlan) :
    p.MorePatterns (v.patternEdits isListed span pattern value l p) := by
  unfold patternEdits
  split
  · exact ⟨rfl, rfl, rfl⟩
  · exact ⟨rfl, rfl, rfl⟩
  · exact ⟨rfl, rfl, rfl⟩

/-- The second walk leaves the first walk's entries alone. -/
theorem morePatterns_visitPatterns (t : Node) :
    ∀ isListed (d : Decisions), d.plan.MorePatterns (t.fold v.visitPatterns isListed d).plan := by
  induction t with
  | node form span children ih =>
      intro isListed d
      have hall : ∀ flag d', d.plan.MorePatterns d'.plan → d.plan.MorePatterns
          (visitAll (children.map fun k => (k, k.fold v.visitPatterns)) flag d').plan := by
        intro flag d' hd'
        refine visitAll_induct (P := fun d' => d.plan.MorePatterns d'.plan) ?_ hd'
        intro c hc d' hd'
        obtain ⟨k, hk, rfl⟩ := List.mem_map.mp hc
        exact hd'.trans (ih k hk flag d')
      rw [Node.fold_node]
      rcases visitPatterns_cases v form span
          (children.map fun k => (k, k.fold v.visitPatterns)) isListed d with
        ⟨-, -, heq⟩ | ⟨pattern, value, rfl, hc, heq⟩ | ⟨flag, heq⟩
      · rw [heq]
        exact .refl _
      · rw [heq]
        refine hall _ _ ?_
        rcases planDeclarator_cases v isListed span pattern.1 value.1 d with heq | ⟨-, -, hplan⟩
        · rw [heq]
          exact .refl _
        · rw [hplan]
          exact morePatterns_patternEdits ..
      · rw [heq]
        exact hall _ _ (.refl _)

/-- What the planner adds at a declarator of the tree is grounded. -/
theorem groundedIn_patternEdits {isListed : Bool} {span : Span} {pattern value : Node}
    {p : EditPlan} (hp : GroundedIn v l tree p)
    (hmem : .node .declarator span [pattern, value] ∈ tree.parts)
    (htrace : v.origin.traces value = true) :
    GroundedIn v l tree (v.patternEdits isListed span pattern value l p) := by
  unfold patternEdits
  split
  -- the pattern's removals, its splits and whether it may be dropped, each from this declarator
  case h_1 =>
    refine { hp with patterns := ?_, splits := ?_, droppable := ?_ }
    · intro s hs
      rcases List.mem_append.mp hs with hs | hs
      · exact ⟨span, pattern, value, hmem, htrace, List.mem_reverse.mp hs⟩
      · exact hp.patterns s hs
    · intro e he
      dsimp only at he
      split at he
      case isTrue h =>
        simp only [Bool.and_eq_true] at h
        rcases List.mem_cons.mp he with rfl | he
        · exact ⟨pattern, value, hmem, htrace, h.1, rfl⟩
        · exact hp.splits e he
      case isFalse => exact hp.splits e he
    · intro s hs
      dsimp only at hs
      split at hs
      case isTrue h =>
        simp only [Bool.and_eq_true] at h
        rcases List.mem_cons.mp hs with rfl | hs
        · exact ⟨pattern, value, hmem, htrace, h.1⟩
        · exact hp.droppable s hs
      case isFalse => exact hp.droppable s hs
  -- an array pattern adds removals only
  case h_2 =>
    refine { hp with patterns := ?_ }
    intro s hs
    rcases List.mem_append.mp hs with hs | hs
    · exact ⟨span, pattern, value, hmem, htrace, hs⟩
    · exact hp.patterns s hs
  case h_3 => exact hp

/-- What the second walk does keeps whatever is kept where it adds what can be done about the
pattern of a declarator with a value of the host, and it gives up no use. -/
theorem visitPatterns_induct {P : EditPlan → Prop}
    (h : ∀ {isListed span pattern value p}, .node .declarator span [pattern, value] ∈ tree.parts →
      v.origin.traces value = true → P p → P (v.patternEdits isListed span pattern value l p))
    (t : Node) (ht : t ∈ tree.parts) :
    ∀ isListed d, d.liveness = l → P d.plan →
      (t.fold v.visitPatterns isListed d).liveness = l
        ∧ P (t.fold v.visitPatterns isListed d).plan := by
  induction t with
  | node form span children ih =>
      intro isListed d hl hd
      -- going on to the children keeps both the counts and the property
      have hall : ∀ flag d, d.liveness = l → P d.plan →
          (visitAll (children.map fun k => (k, k.fold v.visitPatterns)) flag d).liveness = l
            ∧ P (visitAll (children.map fun k => (k, k.fold v.visitPatterns)) flag d).plan := by
        intro flag d hl hd
        refine visitAll_induct (P := fun d => d.liveness = l ∧ P d.plan) ?_ ⟨hl, hd⟩
        intro c hc d hd
        obtain ⟨k, hk, rfl⟩ := List.mem_map.mp hc
        have hkt : k ∈ tree.parts := Node.mem_parts_trans
          (Node.mem_parts_node.mpr (.inr ⟨k, hk, Node.self_mem_parts k⟩)) ht
        exact ih k hk hkt flag d hd.1 hd.2
      rw [Node.fold_node]
      rcases visitPatterns_cases v form span
          (children.map fun k => (k, k.fold v.visitPatterns)) isListed d with
        ⟨-, -, heq⟩ | ⟨pattern, value, rfl, hc, heq⟩ | ⟨flag, heq⟩
      · rw [heq]
        exact ⟨hl, hd⟩
      · -- a declarator plans its pattern when its value traces to the host, with the counts as they
        -- are
        rw [heq]
        obtain ⟨pnode, rest, rfl, rfl, hrest⟩ := List.map_eq_cons_iff.mp hc
        obtain ⟨vnode, rfl, rfl⟩ := List.map_eq_singleton_iff.mp hrest
        rcases planDeclarator_cases v isListed span pnode vnode d with
          heq | ⟨htrace, hlive, hplan⟩
        · rw [heq]
          exact hall _ _ hl hd
        · refine hall _ _ (hlive.trans hl) ?_
          rw [hplan, hl]
          exact h ht htrace hd
      · rw [heq]
        exact hall _ _ hl hd

/-- The second walk adds grounded entries only, and gives up no use. -/
theorem groundedIn_visitPatterns (t : Node) (ht : t ∈ tree.parts) :
    ∀ isListed d, d.liveness = l → GroundedIn v l tree d.plan →
      (t.fold v.visitPatterns isListed d).liveness = l
        ∧ GroundedIn v l tree (t.fold v.visitPatterns isListed d).plan :=
  visitPatterns_induct (fun hmem htrace hp => groundedIn_patternEdits hp hmem htrace) t ht

end Survey

/-- Every entry of a plan has its ground in the program. -/
theorem planEdits_grounded (config : TransformConfig) (plugin : String) (tree : Node) :
    EditPlan.GroundedIn (Survey.onProgram config plugin tree)
      (firstDecisions config plugin tree).liveness tree (planEdits config plugin tree).1 := by
  rw [planEdits_fst]
  have hfirst := Survey.groundedIn_visit (v := Survey.onProgram config plugin tree)
    (l := (firstDecisions config plugin tree).liveness) tree (Node.self_mem_parts tree) true
    { liveness := Liveness.ofBindings (Bindings.ofProgram tree) } Survey.groundedIn_empty
  exact (Survey.groundedIn_visitPatterns tree (Node.self_mem_parts tree) false
    (firstDecisions config plugin tree) rfl hfirst).2

end Graft
