import Graft.Proofs.Plan.Liveness
import Graft.Proofs.Tree.Outline
import Mathlib.Data.List.Forall2
/-!
Two programs in which values come from the same places.

Whether a value comes from the host is asked of the names and of the symbols that keep a value, and
the texts of strings do not matter. So two programs whose related nodes get the same answers about
names (`Survey.Match`) agree about the origins of all related values (`Survey.Match.traces`).
-/
namespace Graft

namespace Node

/-- A call without arguments is no call of the helper. -/
theorem source_call_nil (helper : String) (isOptional isPure : Bool) (span : Span) (callee : Node) :
    (node (.call isOptional isPure) span [callee]).source helper
      = node (.call isOptional isPure) span [callee] := by
  obtain ⟨form, own, ks⟩ := callee
  cases form <;> rfl

/-- A call of the helper is read from its argument, and any other call from itself. -/
theorem source_call (helper : String) (isOptional isPure : Bool) (span : Span)
    (callee argument : Node) :
    (node (.call isOptional isPure) span [callee, argument]).source helper
      = if callee.form == .identifier helper && argument.form != .spread
        then argument.source helper
        else node (.call isOptional isPure) span [callee, argument] := by
  obtain ⟨form, own, ks⟩ := callee
  cases form with
  | identifier name =>
      rw [source.eq_def]
      have hname : (name == helper) = (Form.identifier name == .identifier helper) := by
        rw [Bool.eq_iff_iff]
        simp
      simp only [hname]
      rfl
  | _ => rfl

/-- A call with more than one argument is no call of the helper. -/
theorem source_call_many (helper : String) (isOptional isPure : Bool) (span : Span)
    (callee a b : Node) (more : List Node) :
    (node (.call isOptional isPure) span (callee :: a :: b :: more)).source helper
      = node (.call isOptional isPure) span (callee :: a :: b :: more) := by
  obtain ⟨form, own, ks⟩ := callee
  cases form <;> rfl

end Node

namespace Survey

open Node

/-- Related lists end in related nodes, if they are not empty. -/
theorem rel_getLast? {R : Node → Node → Prop} {ks js : List Node} (hR : List.Forall₂ R ks js) :
    Option.Rel R ks.getLast? js.getLast? := by
  induction hR with
  | nil => exact .none
  | @cons k j ks js hk hks ih =>
      cases hks with
      | nil => exact .some hk
      | cons =>
          rw [List.getLast?_cons_cons, List.getLast?_cons_cons]
          exact ih

/-- Whether related nodes of two programs get the same answers about names; `σ` says which texts
count as the same. -/
structure Match (v w : Survey) (σ : TextMap) (E : Node → Node → Prop) : Prop where
  form : ∀ {m n}, E m n → m.form.mapText σ = n.form.mapText σ
  children : ∀ {m n}, E m n → List.Forall₂ E m.children n.children
  config : w.config = v.config
  host : w.origin.host = v.origin.host
  use : ∀ {m n}, E m n → m.isIdentifier = true →
    w.origin.bindings.symbolOfUse? n.span.start = v.origin.bindings.symbolOfUse? m.span.start
  isGlobal : ∀ {m n}, E m n → m.isIdentifier = true →
    w.origin.bindings.isGlobalUse n.span.start = v.origin.bindings.isGlobalUse m.span.start
  name : ∀ {m n}, E m n → m.isBinding = true →
    w.origin.bindings.symbolOfName? n.span.start = v.origin.bindings.symbolOfName? m.span.start
  length : w.origin.bindings.symbols.length = v.origin.bindings.symbols.length
  value : ∀ k, Option.Rel E (v.origin.lastingValue? k) (w.origin.lastingValue? k)

namespace Match

variable {v w : Survey} {σ : TextMap} {E : Node → Node → Prop} (h : Match v w σ E)
include h

-- ============================================================ shapes

/-- What is related to a node: a node of the same form, or another string for a string. -/
theorem exists_node {form : Form} {span : Span} {ks : List Node} {n : Node}
    (hE : E (.node form span ks) n) :
    (∃ span' js, n = .node form span' js ∧ List.Forall₂ E ks js)
      ∨ ∃ units units' span' js, form = .string units ∧ n = .node (.string units') span' js := by
  cases n with
  | node form' span' js =>
      have hform : form.mapText σ = form'.mapText σ := h.form hE
      by_cases hstring : form.isString = true
      · have hstring' : form'.isString = true := by
          rw [← Form.isString_mapText form', ← hform, Form.isString_mapText, hstring]
        obtain ⟨units, rfl⟩ := Form.exists_of_isString hstring
        obtain ⟨units', rfl⟩ := Form.exists_of_isString hstring'
        exact .inr ⟨units, units', span', js, rfl, rfl⟩
      · obtain rfl := Form.eq_of_mapText_eq hform (eq_false_of_ne_true hstring)
        exact .inl ⟨span', js, rfl, h.children hE⟩

/-- Matched nodes are absent together. -/
theorem isAbsent {m n : Node} (hE : E m n) : n.isAbsent = m.isAbsent := by
  obtain ⟨form, span, ks⟩ := m
  obtain ⟨span', js, rfl, -⟩ | ⟨units, units', span', js, rfl, rfl⟩ := h.exists_node hE
  · rfl
  · rfl

/-- Matched callees have one name. -/
theorem calleeName? {m n : Node} (hE : E m n) : n.calleeName? = m.calleeName? := by
  obtain ⟨form, span, ks⟩ := m
  obtain ⟨span', js, rfl, -⟩ | ⟨units, units', span', js, rfl, rfl⟩ := h.exists_node hE
  · rfl
  · rfl

/-- Related nodes have the same forms, as far as forms that are no strings go. -/
theorem form_beq {m n : Node} (hE : E m n) {form : Form} (hform : form.isString = false) :
    (n.form == form) = (m.form == form) := by
  obtain ⟨form', span, ks⟩ := m
  obtain ⟨span', js, rfl, -⟩ | ⟨units, units', span', js, rfl, rfl⟩ := h.exists_node hE
  · rfl
  · cases form <;> first | rfl | cases hform

/-- Matched expressions are static chains together. -/
theorem isStaticChain {m n : Node} (hE : E m n) : n.isStaticChain = m.isStaticChain := by
  induction m generalizing n with
  | node form span ks ih =>
      obtain ⟨span', js, rfl, hchildren⟩ | ⟨units, units', span', js, rfl, rfl⟩ := h.exists_node hE
      case inr => rfl
      cases form with
      | member isOptional name =>
          cases hchildren with
          | nil => rfl
          | cons hk hks =>
              cases hks with
              | nil =>
                  have hobject := ih _ List.mem_cons_self hk
                  exact hobject
              | cons => rfl
      | _ => rfl

/-- Related rows of accesses start with related values. -/
theorem root {m n : Node} (hE : E m n) : E m.root n.root := by
  induction m generalizing n with
  | node form span ks ih =>
      obtain ⟨span', js, rfl, hchildren⟩ | ⟨units, units', span', js, rfl, rfl⟩ := h.exists_node hE
      case inr => exact hE
      cases form with
      | member isOptional name | privateMember isOptional name =>
          cases hchildren with
          | nil => exact hE
          | cons hk hks =>
              cases hks with
              | nil =>
                  have hobject := ih _ List.mem_cons_self hk
                  exact hobject
              | cons => exact hE
      | index isOptional =>
          cases hchildren with
          | nil => exact hE
          | cons hk hks =>
              cases hks with
              | nil => exact hE
              | cons _ hks =>
                  cases hks with
                  | nil =>
                      have hobject := ih _ List.mem_cons_self hk
                      exact hobject
                  | cons => exact hE
      | _ => exact hE

/-- Related values are read from related values. -/
theorem source (helper : String) {m n : Node} (hE : E m n) :
    E (m.source helper) (n.source helper) := by
  induction m generalizing n with
  | node form span ks ih =>
      obtain ⟨span', js, rfl, hchildren⟩ | ⟨units, units', span', js, rfl, rfl⟩ := h.exists_node hE
      -- every form but the four below is its own source, on both sides
      case inr => exact hE
      cases form with
      | member isOptional name | privateMember isOptional name =>
          cases hchildren with
          | nil => exact hE
          | cons hk hks =>
              cases hks with
              | nil =>
                  have hobject := ih _ List.mem_cons_self hk
                  exact hobject
              | cons => exact hE
      | index isOptional =>
          cases hchildren with
          | nil => exact hE
          | cons hk hks =>
              cases hks with
              | nil => exact hE
              | cons _ hks =>
                  cases hks with
                  | nil =>
                      have hobject := ih _ List.mem_cons_self hk
                      exact hobject
                  | cons => exact hE
      -- a call is looked through only as the helper's, with the module as its single argument
      | call isOptional isPure =>
          rcases hchildren with _ | ⟨hcallee, hks⟩
          · exact hE
          · rcases hks with _ | ⟨hargument, hks⟩
            · rw [source_call_nil, source_call_nil]
              exact hE
            · rcases hks with _ | ⟨_, _⟩
              · rw [source_call, source_call, h.form_beq hcallee rfl,
                  bne, bne, h.form_beq hargument rfl]
                split
                · exact ih _ (by simp) hargument
                · exact hE
              · rw [source_call_many, source_call_many]
                exact hE
      | _ => exact hE

-- ============================================================ origins

/-- Related values come from the host alike. -/
theorem tracesFrom (fuel : Nat) : ∀ (visited : List Nat) {m n : Node}, E m n →
    w.origin.tracesFrom fuel visited n = v.origin.tracesFrom fuel visited m := by
  induction fuel with
  | zero => intros; rfl
  | succ fuel ih =>
      intro visited m n hE
      -- both tracers go to the source first, and the sources match
      have hsource := h.source v.origin.host.interopHelper hE
      rw [Origin.tracesFrom, Origin.tracesFrom, h.host]
      generalize m.source v.origin.host.interopHelper = m₀ at hsource ⊢
      generalize n.source v.origin.host.interopHelper = n₀ at hsource ⊢
      obtain ⟨form, span, ks⟩ := m₀
      obtain ⟨span', js, rfl, -⟩ | ⟨units, units', span', js, rfl, rfl⟩ := h.exists_node hsource
      case inr => rfl
      cases form with
      -- an identifier is the host itself, or is followed to the value its symbol keeps
      | identifier name =>
          have huse := h.use hsource rfl
          have hglobal := h.isGlobal hsource rfl
          dsimp only [Node.span] at huse hglobal ⊢
          rw [huse, hglobal]
          split
          · rfl
          · cases v.origin.bindings.symbolOfUse? span.start with
            | none => rfl
            | some k =>
                dsimp only
                split
                · rfl
                · -- the two symbols keep matching values or none, so the fuel left is spent alike
                  have hvalue := h.value k
                  cases hm : v.origin.lastingValue? k with
                  | none =>
                      rw [hm] at hvalue
                      cases hn : w.origin.lastingValue? k with
                      | none => rfl
                      | some _ => rw [hn] at hvalue; cases hvalue
                  | some value =>
                      rw [hm] at hvalue
                      cases hn : w.origin.lastingValue? k with
                      | none => rw [hn] at hvalue; cases hvalue
                      | some value' =>
                          rw [hn] at hvalue
                          cases hvalue with
                          | some hvalue => exact ih _ hvalue
      | _ => rfl

/-- Matched expressions trace alike. -/
theorem traces {m n : Node} (hE : E m n) : w.origin.traces n = v.origin.traces m := by
  rw [Origin.traces, Origin.traces, h.length]
  exact h.tracesFrom _ [] hE

/-- Matched values are pure calls of the host together. -/
theorem isPureCall {m n : Node} (hE : E m n) : w.isPureCall n = v.isPureCall m := by
  have hroot := h.root hE
  rw [Survey.isPureCall, Survey.isPureCall]
  generalize m.root = m₀ at hroot ⊢
  generalize n.root = n₀ at hroot ⊢
  obtain ⟨form, span, ks⟩ := m₀
  obtain ⟨span', js, rfl, hchildren⟩ | ⟨units, units', span', js, rfl, rfl⟩ := h.exists_node hroot
  case inr => rfl
  cases form with
  | call isOptional isPure =>
      cases hchildren with
      | nil => rfl
      | cons hcallee _ =>
          dsimp only
          rw [h.calleeName? hcallee, h.traces hcallee, h.config]
  | _ => rfl

-- ============================================================ rest elements

section

variable {R : Node → Node → Prop} (hR : ∀ {m n}, R m n → E m n) {ks js : List Node}
  (hks : List.Forall₂ R ks js)
include hR hks

/-- Related patterns end in related rest elements, if they end in any. -/
theorem rel_restOf? : Option.Rel (fun a b => R (.node .rest a.1 [a.2]) (.node .rest b.1 [b.2]))
    (restOf? ks) (restOf? js) := by
  have hlast := rel_getLast? hks
  unfold restOf?
  cases hk : ks.getLast? with
  | none =>
      rw [hk] at hlast
      cases hj : js.getLast? with
      | none => exact .none
      | some j => rw [hj] at hlast; cases hlast
  | some k =>
      rw [hk] at hlast
      cases hj : js.getLast? with
      | none => rw [hj] at hlast; cases hlast
      | some j =>
          rw [hj] at hlast
          cases hlast with
          | some hkj =>
              obtain ⟨form, span, ks'⟩ := k
              obtain ⟨span', js', rfl, hchildren⟩ | ⟨_, _, _, _, rfl, rfl⟩ := h.exists_node (hR hkj)
              case inr => exact .none
              cases form with
              | rest =>
                  rcases hchildren with _ | ⟨_, _ | ⟨_, _⟩⟩
                  · exact .none
                  · exact .some hkj
                  · exact .none
              | _ => exact .none

/-- Matched patterns have a rest element together. -/
theorem isSome_restOf? : (restOf? js).isSome = (restOf? ks).isSome := by
  have hrest := h.rel_restOf? hR hks
  cases hk : restOf? ks with
  | none =>
      rw [hk] at hrest
      cases hj : restOf? js with
      | none => rfl
      | some _ => rw [hj] at hrest; cases hrest
  | some _ =>
      rw [hk] at hrest
      cases hj : restOf? js with
      | none => rw [hj] at hrest; cases hrest
      | some _ => rfl

end

end Match

end Survey

end Graft
