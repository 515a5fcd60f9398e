import Graft.Proofs.Grammar.Program
import Graft.Proofs.Origin.Derivation
import Graft.Proofs.Plan.Targets
/-!
What a statement does that goes away.

# What a value does

A node does something when it is evaluated if it changes a place or hands control to other code
(`Form.acts`), and it does what its children do that are evaluated with it (`Form.evaluated`). What
a function holds waits for a call. `Node.deeds` lists the nodes that do something.

# What is lost

A statement goes away if its value is read off a call of a pure method of the host. All that the
planner looks at for this is the way from the value to the call and from its callee to the host
(`Node.passed`). A node on this way does nothing by itself, except for a call of the bundler's
helper. But an access on it may have a computed key, and the call has arguments: they are evaluated
too, and what they do is lost with the statement. They are all that the planner does not look at
(`Node.unseen`), so there is nothing else to lose: `EditPlan.MadeFor.mem_deeds_iff` says so, by
following the way step by step, and `planEdits_loses` says it of a program.
-/
namespace Graft

/-- Whether an expression of the form does something besides what its parts do when it is evaluated:
it changes a place, or hands control to other code. -/
def Form.acts : Form → Bool
  | .assign _ | .update .. | .unary .delete | .await | .yield _ | .call .. | .new _ | .importCall
  | .taggedTemplate _ => true
  | _ => false

/-- The children that are evaluated with a node. What a function holds waits for a call of it, and
what a field of an instance holds waits for the instance. -/
def Form.evaluated {α : Type} : Form → List α → List α
  | .function .., _ | .arrow .., _ | .functionDeclaration .., _ => []
  | .method .., children | .field _ false, children => children.take 1
  | _, children => children

/-- Which children are evaluated depends on the form and the order alone. -/
theorem Form.evaluated_map {α β : Type} (form : Form) (f : α → β) (ks : List α) :
    form.evaluated (ks.map f) = (form.evaluated ks).map f := by
  unfold evaluated
  split <;> simp [List.map_take]

namespace Node

/-- The nodes of a tree that do something when the tree is evaluated. -/
def deeds : Node → List Node :=
  fold fun form span children =>
    (if form.acts then [.node form span (children.map Prod.fst)] else [])
      ++ (form.evaluated children).flatMap Prod.snd

/-- The key that an access computes. -/
def computedKeys : Node → List Node
  | .node (.index _) _ [_, key] => [key]
  | _ => []

/-- The nodes that are passed on the way back from an expression to what it is read from. -/
def passed (helper : String) : Node → List Node
  | .node (.member o name) s [object] => .node (.member o name) s [object] :: object.passed helper
  | .node (.privateMember o name) s [object] =>
      .node (.privateMember o name) s [object] :: object.passed helper
  | .node (.index o) s [object, key] => .node (.index o) s [object, key] :: object.passed helper
  | .node (.call o p) s [.node (.identifier name) t ks, argument] =>
      if name == helper && argument.form != .spread then
        .node (.call o p) s [.node (.identifier name) t ks, argument] :: argument.passed helper
      else []
  | _ => []
termination_by structural n => n

-- ============================================================ deeds

variable {helper : String} {form : Form} {span : Span} {children : List Node} {n deed : Node}

/-- A node does what it does by itself and what the children do that are evaluated with it. -/
theorem mem_deeds_node :
    deed ∈ (node form span children).deeds
      ↔ (form.acts = true ∧ deed = node form span children)
        ∨ ∃ k ∈ form.evaluated children, deed ∈ k.deeds := by
  have heval : form.evaluated (children.map fun k => (k, k.deeds))
      = (form.evaluated children).map fun k => (k, k.deeds) := form.evaluated_map _ _
  rw [show (node form span children).deeds = _ from fold_node ..]
  change deed ∈ _ ++ (form.evaluated (children.map fun k => (k, k.deeds))).flatMap Prod.snd ↔ _
  rw [heval]
  cases form.acts <;> simp [List.flatMap_map, Function.comp_def]

/-- A step back over an access leaves behind what its computed key does; a step back over a call of
the helper leaves behind the call. -/
theorem passed_cases (helper : String) (n : Node) :
    (∃ object ∈ n.children, n.passed helper = n :: object.passed helper
        ∧ n.source helper = object.source helper ∧ n.root = object.root ∧ n.form.isCall = false
        ∧ ∀ deed, deed ∈ n.deeds ↔ deed ∈ object.deeds ∨ ∃ key ∈ n.computedKeys, deed ∈ key.deeds)
      ∨ (∃ isOptional isPure own span ks argument,
          n = .node (.call isOptional isPure) own [.node (.identifier helper) span ks, argument]
          ∧ argument.form ≠ .spread ∧ n.passed helper = n :: argument.passed helper
          ∧ n.source helper = argument.source helper)
      ∨ (n.passed helper = [] ∧ n.source helper = n ∧ n.root = n) := by
  rw [passed.eq_def]
  split
  -- the three accesses pass to their object, and evaluate nothing else but a computed key
  case h_1 | h_2 | h_3 =>
    exact .inl ⟨_, List.mem_cons_self, rfl, rfl, rfl, rfl, fun deed => by
      simp [mem_deeds_node, Form.acts, Form.evaluated, computedKeys]⟩
  -- a call passes to its argument when the helper is its callee, and else is its own source
  case h_4 isOptional isPure own name span ks argument =>
    split
    case isTrue h =>
      have hsource : (node (.call isOptional isPure) own
          [.node (.identifier name) span ks, argument]).source helper = argument.source helper :=
        if_pos h
      simp only [Bool.and_eq_true, beq_iff_eq, bne_iff_ne] at h
      obtain ⟨rfl, hargument⟩ := h
      exact .inr (.inl ⟨_, _, _, _, _, argument, rfl, hargument, rfl, hsource⟩)
    case isFalse h => exact .inr (.inr ⟨rfl, if_neg h, rfl⟩)
  -- any other form is passed by neither function
  case h_5 hmember hprivate hindex hcall =>
    refine .inr (.inr ⟨rfl, ?_, ?_⟩)
    · rw [source.eq_def]
      split
      case h_1 => exact (hmember _ _ _ _ rfl).elim
      case h_2 => exact (hprivate _ _ _ _ rfl).elim
      case h_3 => exact (hindex _ _ _ _ rfl).elim
      case h_4 => exact (hcall _ _ _ _ _ _ _ rfl).elim
      case h_5 => rfl
    · rw [root.eq_def]
      split
      case h_1 => exact (hmember _ _ _ _ rfl).elim
      case h_2 => exact (hprivate _ _ _ _ rfl).elim
      case h_3 => exact (hindex _ _ _ _ rfl).elim
      case h_4 => rfl

/-- Reading a name does nothing. -/
theorem deeds_identifier {name : String} {ks : List Node}
    (hn : (node (.identifier name) span ks).WellPlaced) :
    (node (.identifier name) span ks).deeds = [] := by
  cases hn with
  | node fits parts =>
      rw [fits.word rfl]
      rfl

/-- A call is a deed, and its callee and its arguments are evaluated first. -/
theorem mem_deeds_call {isOptional isPure : Bool} {own : Span} {callee : Node}
    {arguments : List Node} :
    deed ∈ (node (.call isOptional isPure) own (callee :: arguments)).deeds
      ↔ deed = .node (.call isOptional isPure) own (callee :: arguments)
        ∨ deed ∈ callee.deeds ∨ ∃ argument ∈ arguments, deed ∈ argument.deeds := by
  simp [mem_deeds_node, Form.acts, Form.evaluated]

theorem mem_deeds_expressionStatement {value : Node} :
    deed ∈ (node .expressionStatement span [value]).deeds ↔ deed ∈ value.deeds := by
  simp [mem_deeds_node, Form.acts, Form.evaluated]

/-- What is done when an expression is evaluated is done by what it is read from or on the way back
there, where it is a call of the helper or is done by a computed key. -/
theorem mem_deeds_iff_source (helper : String) (hn : n.WellPlaced) :
    deed ∈ n.deeds ↔ deed ∈ (n.source helper).deeds
      ∨ (deed ∈ n.passed helper ∧ deed.form.isCall = true)
      ∨ ∃ key ∈ (n.passed helper).flatMap computedKeys, deed ∈ key.deeds := by
  induction n with
  | node form span children ih =>
      rcases passed_cases helper (node form span children) with
        ⟨object, hmem, hpassed, hsource, -, hcall, hdeeds⟩
          | ⟨isOptional, isPure, own, t, ks, argument, heq, -, hpassed, hsource⟩
          | ⟨hpassed, hsource, -⟩
      · have hown : deed ∈ node form span children :: object.passed helper ∧ deed.form.isCall = true
            ↔ deed ∈ object.passed helper ∧ deed.form.isCall = true := by
          refine and_congr_left fun h => ?_
          rw [List.mem_cons, or_iff_right]
          rintro rfl
          rw [hcall] at h
          cases h
        rw [hdeeds, ih object hmem (hn.part (child_mem_parts hmem)), hpassed, hsource, hown]
        simp only [List.flatMap_cons, List.mem_append, or_and_right, exists_or, or_comm,
          or_left_comm]
      · have hargument : argument ∈ children := by
          rw [(node.inj heq).2.2]
          exact List.mem_cons_of_mem _ List.mem_cons_self
        have hplaced := hn.part (child_mem_parts hargument)
        rw [hpassed, hsource]
        rw [heq] at hn ⊢
        have hcallee := deeds_identifier (hn.part (child_mem_parts List.mem_cons_self))
        rw [mem_deeds_call, hcallee, or_iff_right List.not_mem_nil]
        simp only [List.mem_singleton, exists_eq_left]
        rw [ih argument hargument hplaced]
        have hown : ∀ {m : Node}, m = node (.call isOptional isPure) own
            [node (.identifier helper) t ks, argument] → m.form.isCall = true := by
          rintro m rfl
          rfl
        simp only [List.flatMap_cons, computedKeys, List.nil_append, List.mem_cons, or_and_right,
          and_iff_left_of_imp hown, or_assoc, or_left_comm]
      · simp [hpassed, hsource]

/-- The same down to the start of a row of accesses. Where that is a call of the helper, the way
back leads on into its argument, but what is done there is done by the call as well. -/
theorem mem_deeds_iff_root (helper : String) (hn : n.WellPlaced) :
    deed ∈ n.deeds ↔ deed ∈ n.root.deeds
      ∨ ∃ key ∈ (n.passed helper).flatMap computedKeys, deed ∈ key.deeds := by
  induction n with
  | node form span children ih =>
      rcases passed_cases helper (node form span children) with
        ⟨object, hmem, hpassed, -, hroot, -, hdeeds⟩
          | ⟨isOptional, isPure, own, t, ks, argument, heq, -, -, -⟩
          | ⟨hpassed, -, hroot⟩
      · rw [hdeeds, ih object hmem (hn.part (child_mem_parts hmem)), hpassed, hroot]
        simp only [List.flatMap_cons, List.mem_append, or_and_right, exists_or, or_comm,
          or_left_comm]
      · have hroot : (node form span children).root = node form span children := by
          rw [heq]
          rfl
        rw [hroot, or_iff_left_of_imp]
        exact fun h => (mem_deeds_iff_source helper hn).mpr (.inr (.inr h))
      · rw [hpassed, hroot]
        simp

/-- The calls on the way back are calls of the helper, and the way goes on in the argument. -/
theorem helper_of_mem_passed {m : Node} (hm : m ∈ n.passed helper) (hcall : m.form.isCall = true) :
    ∃ isOptional isPure own span ks argument,
      m = .node (.call isOptional isPure) own [.node (.identifier helper) span ks, argument]
        ∧ argument.form ≠ .spread ∧ argument.source helper = n.source helper := by
  induction n with
  | node form span children ih =>
      rcases passed_cases helper (node form span children) with
        ⟨object, hmem, hpassed, hsource, -, hform, -⟩
          | ⟨isOptional, isPure, own, t, ks, argument, heq, hargument, hpassed, hsource⟩
          | ⟨hpassed, -, -⟩
      · rw [hpassed] at hm
        rcases List.mem_cons.mp hm with rfl | hm
        · rw [hform] at hcall
          cases hcall
        · rw [hsource]
          exact ih object hmem hm
      · rw [hpassed] at hm
        rw [hsource]
        rcases List.mem_cons.mp hm with rfl | hm
        · exact ⟨_, _, _, _, _, argument, heq, hargument, rfl⟩
        · refine ih argument ?_ hm
          rw [(node.inj heq).2.2]
          exact List.mem_cons_of_mem _ List.mem_cons_self
      · rw [hpassed] at hm
        cases hm

end Node

-- ======================================================= removed statements

namespace Survey

/-- Whether a node is a call of a pure method of the host. -/
def IsHostCall (v : Survey) (n : Node) : Prop := n.root = n ∧ v.isPureCall n = true

/-- Whether a node is a call of the helper with a value from the host. -/
def IsHelperCall (v : Survey) (n : Node) : Prop :=
  ∃ isOptional isPure own span ks argument,
    n = .node (.call isOptional isPure) own
        [.node (.identifier v.origin.host.interopHelper) span ks, argument]
      ∧ v.origin.traces argument = true

/-- A value is taken for a pure call if it is read off one. -/
theorem isPureCall_iff {v : Survey} {value : Node} :
    v.isPureCall value = true ↔ ∃ isOptional isPure own callee arguments,
      value.root = .node (.call isOptional isPure) own (callee :: arguments)
        ∧ (callee.calleeName?).any v.config.host.isPure = true
        ∧ v.origin.traces callee = true := by
  rw [isPureCall]
  constructor
  · intro h
    split at h
    case h_1 hroot =>
      rw [Bool.and_eq_true] at h
      exact ⟨_, _, _, _, _, hroot, h⟩
    case h_2 => cases h
  · rintro ⟨isOptional, isPure, own, callee, arguments, hroot, hmethod, htrace⟩
    simp only [hroot, hmethod, htrace, Bool.and_self]

end Survey

/-- What comes from the host is read from a name. -/
theorem Origin.exists_source_of_traces {o : Origin} {e : Node} (h : o.traces e = true) :
    ∃ name span ks, e.source o.host.interopHelper = .node (.identifier name) span ks := by
  rw [traces, tracesFrom] at h
  split at h
  case h_1 name span ks hsource => exact ⟨name, span, ks, hsource⟩
  case h_2 => cases h

/-- The parts of a value that make no difference to whether it is taken for a pure call: the
arguments of the call, and the keys that are computed on the way from the value to the host. -/
def Node.unseen (helper : String) (value : Node) : List Node :=
  match value.root with
  | .node (.call ..) _ (callee :: arguments) =>
      arguments ++ (value.passed helper ++ callee.passed helper).flatMap computedKeys
  | _ => []

namespace EditPlan.MadeFor

open Node

variable {v : Survey} {l : Liveness} {tree : Node} {p : EditPlan}

/-- A statement that goes away is its value, and the value is taken for a pure call. -/
theorem exists_value_of_isRemoved (h : MadeFor v l tree p) {st : Node} (hst : st ∈ tree.parts)
    (hgoes : p.isRemoved st = true) :
    ∃ value, st = .node .expressionStatement st.span [value] ∧ v.isPureCall value = true := by
  have hform := form_of_isRemoved hgoes
  rw [isRemoved, Bool.and_eq_true, List.contains_iff_mem] at hgoes
  obtain ⟨value, hmem, hpure⟩ := h.grounded.statements _ hgoes.2
  refine ⟨value, ?_, hpure⟩
  exact h.wellPlaced.eq_of_span_eq hst hmem (isBare_eq_false_of_form (by rw [hform]; rfl))
    (isBare_node ..) rfl (by rw [hform]; rfl)

/-- What a statement does that goes away is the pure call, the calls of the helper on the way back
to the host, and what the parts do that the planner does not look at. -/
theorem mem_deeds_iff (h : MadeFor v l tree p) {st : Node} (hst : st ∈ tree.parts)
    (hgoes : p.isRemoved st = true) :
    ∃ value isOptional isPure own callee arguments,
      st = .node .expressionStatement st.span [value]
        ∧ value.root = .node (.call isOptional isPure) own (callee :: arguments)
        ∧ v.IsHostCall value.root ∧ v.origin.traces callee = true
        ∧ ∀ deed, deed ∈ st.deeds ↔ deed = value.root
          ∨ (deed ∈ callee.passed v.origin.host.interopHelper ∧ deed.form.isCall = true)
          ∨ ∃ part ∈ value.unseen v.origin.host.interopHelper, deed ∈ part.deeds := by
  obtain ⟨value, hvalue, hpure⟩ := h.exists_value_of_isRemoved hst hgoes
  obtain ⟨isOptional, isPure, own, callee, arguments, hroot, hmethod, htrace⟩ :=
    Survey.isPureCall_iff.mp hpure
  have hstart : value.root.root = value.root := by
    rw [hroot]
    rfl
  have hhost : v.IsHostCall value.root :=
    ⟨hstart, Survey.isPureCall_iff.mpr
      ⟨_, _, _, _, _, hstart.trans hroot, hmethod, htrace⟩⟩
  refine ⟨value, isOptional, isPure, own, callee, arguments, hvalue, hroot, hhost, htrace,
    fun deed => ?_⟩
  have hplaced : value.WellPlaced := by
    have hstatement := h.wellPlaced.part hst
    rw [hvalue] at hstatement
    exact hstatement.part (child_mem_parts List.mem_cons_self)
  have hcall := hplaced.part (root_mem_parts value)
  rw [hroot] at hcall
  have hcallee := hcall.part (child_mem_parts List.mem_cons_self)
  -- the way back ends at a name
  have hname : (callee.source v.origin.host.interopHelper).deeds = [] := by
    have hsource := hcallee.part (source_mem_parts v.origin.host.interopHelper callee)
    obtain ⟨name, span, ks, heq⟩ := Origin.exists_source_of_traces htrace
    rw [heq] at hsource ⊢
    exact deeds_identifier hsource
  rw [hvalue, mem_deeds_expressionStatement,
    mem_deeds_iff_root v.origin.host.interopHelper hplaced, unseen, hroot, mem_deeds_call,
    mem_deeds_iff_source v.origin.host.interopHelper hcallee, hname,
    or_iff_right List.not_mem_nil]
  simp only [List.flatMap_append, List.mem_append, or_and_right, exists_or, or_comm, or_left_comm]

end EditPlan.MadeFor

/-- A statement that goes away does nothing but call a pure method of the host, and the helper with
values from the host, unless a part does that the planner does not look at. What such a part does is
lost with the statement. -/
theorem planEdits_loses {config : TransformConfig} {plugin source : String} {p : Program}
    (hp : Program.parse? source = some p) {st : Node} (hst : st ∈ p.tree.parts)
    (hgoes : (planEdits config plugin p.tree).1.isRemoved st = true) :
    let v := Survey.onProgram config plugin p.tree
    ∃ value, st = .node .expressionStatement st.span [value]
      ∧ (∀ deed ∈ st.deeds, v.IsHostCall deed ∨ v.IsHelperCall deed
        ∨ ∃ part ∈ value.unseen config.host.interopHelper, deed ∈ part.deeds)
      ∧ ∀ part ∈ value.unseen config.host.interopHelper, part.deeds ⊆ st.deeds := by
  intro v
  have h := planEdits_madeFor config plugin (Program.wellPlaced_of_parse? hp)
    (Program.form_of_parse? hp)
  obtain ⟨value, isOptional, isPure, own, callee, arguments, hvalue, -, hhost, htrace, hdeeds⟩ :=
    h.mem_deeds_iff hst hgoes
  refine ⟨value, hvalue, fun deed hdeed => ?_, fun part hpart deed hdeed => ?_⟩
  · rcases (hdeeds deed).mp hdeed with rfl | ⟨hpassed, hcall⟩ | hunseen
    · exact .inl hhost
    · obtain ⟨_, _, _, _, _, argument, heq, -, hsource⟩ := Node.helper_of_mem_passed hpassed hcall
      have hargument : v.origin.traces argument = true :=
        (Origin.tracesFrom_congr hsource _ _).trans htrace
      exact .inr (.inl ⟨_, _, _, _, _, argument, heq, hargument⟩)
    · exact .inr (.inr hunseen)
  · exact (hdeeds deed).mpr (.inr (.inr ⟨part, hpart, hdeed⟩))

-- the call in the argument goes away with the statement
example : (Program.parse? "BdApi.getModule(setUp());").any (fun p =>
    p.tree.parts.any fun st => (planEdits .standard "Example" p.tree).1.isRemoved st
      && st.deeds.length == 2) = true := by
  decide +kernel

end Graft
