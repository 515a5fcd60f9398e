import Graft.Grammar.Program
import Graft.Proofs.Scope.Symbols
import Mathlib.Logic.Relation
/-!
The way back of a value, as a loop and as a derivation.

That a value comes from the host has a finite derivation: it is the host, or what it is read from
comes from the host, one step back (`Derives`). The tracer follows the steps in a loop, with fuel
and with a guard that stops it at a symbol it has met before. Neither costs an answer: the tracer is
the decision of the derivations (`traces_iff_derives`).

# The loop

One turn of the loop answers or goes on along a step back (`Origin.turn_cases`). There is at most
one such step (`Origin.Back.unique`), so the way is a chain and the loop has one answer
(`Origin.Answers.unique`). Every step along a name adds the symbol to those that were met, and they
are all different, so there are as many of them as symbols at most (`Origin.Room`). That is more
fuel than the way can take, and the loop ends with the answer of the tracer
(`Origin.answers_tracesFrom`).

# The guard

The guard says no where it meets a symbol again. The symbol was met on the way (`Origin.Trail`), so
the way has come back to where it was. But what is derivable is on no cycle of steps, for a
derivation that came back to its start would hold itself (`Derives.not_cyclic`). So on the way of a
derivable value no symbol is met twice (`Derives.not_mem_visited`), and the loop comes through to
the host.
-/
namespace Graft

open Relation

/-- What a value is read from is what it is an access to, the argument of a call of the helper, or
the value itself. -/
theorem Node.source_cases (helper : String) (e : Node) :
    (∃ object ∈ e.children, e.source helper = object.source helper ∧ e.root = object.root)
      ∨ (∃ isOptional isPure own span ks argument, argument ∈ e.children
          ∧ e.root = .node (.call isOptional isPure) own
              [.node (.identifier helper) span ks, argument]
          ∧ argument.form ≠ .spread ∧ e.source helper = argument.source helper)
      ∨ (e.source helper = e ∧ e.root = e
          ∧ ∀ isOptional isPure own span ks argument,
              e = .node (.call isOptional isPure) own
                [.node (.identifier helper) span ks, argument] → argument.form = .spread) := by
  rw [source.eq_def]
  split
  case h_4 isOptional isPure own name span ks argument =>
    split
    case isTrue h =>
      simp only [Bool.and_eq_true, beq_iff_eq, bne_iff_ne] at h
      obtain ⟨rfl, hargument⟩ := h
      exact .inr (.inl ⟨_, _, _, _, _, argument, by simp [children], rfl, hargument, rfl⟩)
    case isFalse h =>
      refine .inr (.inr ⟨rfl, rfl, ?_⟩)
      rintro _ _ _ _ _ _ ⟨⟩
      simpa using h
  case h_5 hmember hprivate hindex hcall =>
    refine .inr (.inr ⟨rfl, ?_, fun _ _ _ _ _ _ heq => (hcall _ _ _ _ _ _ _ heq).elim⟩)
    rw [root.eq_def]
    split
    case h_1 => exact (hmember _ _ _ _ rfl).elim
    case h_2 => exact (hprivate _ _ _ _ rfl).elim
    case h_3 => exact (hindex _ _ _ _ rfl).elim
    case h_4 => rfl
  all_goals exact .inl ⟨_, List.mem_cons_self, rfl, rfl⟩

namespace Origin

-- ============================================================ steps back

/-- Whether an expression is read off the reserved name, and nothing in the program declares it. -/
def IsHost (o : Origin) (e : Node) : Prop :=
  ∃ span ks, e.root = .node (.identifier o.host.reservedName) span ks
    ∧ o.bindings.isGlobalUse span.start = true

/-- One step back of a value: from a call of the helper to its argument, or from a name to the value
that it keeps. -/
inductive Back (o : Origin) (e : Node) : Node → Prop
  | helper {isOptional isPure : Bool} {own span : Span} {ks : List Node} {argument : Node}
      (hroot : e.root = .node (.call isOptional isPure) own
        [.node (.identifier o.host.interopHelper) span ks, argument])
      (hargument : argument.form ≠ .spread) : Back o e argument
  | name {name : String} {span : Span} {ks : List Node} {n : Nat} {value : Node}
      (hroot : e.root = .node (.identifier name) span ks)
      (huse : o.bindings.symbolOfUse? span.start = some n)
      (hvalue : o.lastingValue? n = some value) : Back o e value

/-- The symbol of the name that an expression is read off. -/
def symbol? (o : Origin) (e : Node) : Option Nat :=
  match e.root with
  | .node (.identifier _) span _ => o.bindings.symbolOfUse? span.start
  | _ => none

/-- What one turn of the loop comes to. -/
inductive Turn where
  | answer (fromHost : Bool)
  | onward (visited : List Nat) (e : Node)

/-- One turn of the loop, given the symbols met before. -/
def turn (o : Origin) (visited : List Nat) (e : Node) : Turn :=
  match e.root with
  | .node (.call ..) _ [.node (.identifier name) _ _, argument] =>
      if name == o.host.interopHelper && argument.form != .spread then .onward visited argument
      else .answer false
  | .node (.identifier name) span _ =>
      if name == o.host.reservedName && o.bindings.isGlobalUse span.start then .answer true
      else match o.bindings.symbolOfUse? span.start with
        | none => .answer false
        | some n =>
            if visited.contains n then .answer false
            else match o.lastingValue? n with
              | none => .answer false
              | some value => .onward (n :: visited) value
  | _ => .answer false

/-- Whether the loop ends, and with what answer. -/
inductive Answers (o : Origin) : List Nat → Node → Bool → Prop
  | now {visited : List Nat} {e : Node} {b : Bool} (h : o.turn visited e = .answer b) :
      Answers o visited e b
  | later {visited visited' : List Nat} {e e' : Node} {b : Bool}
      (h : o.turn visited e = .onward visited' e') (rest : Answers o visited' e' b) :
      Answers o visited e b

variable {o : Origin} {visited : List Nat} {e : Node} {b : Bool}

/-- A use that a declaration captures is not a use of the global name. -/
theorem isGlobalUse_eq_false {bindings : Bindings} {start n : Nat}
    (h : bindings.symbolOfUse? start = some n) : bindings.isGlobalUse start = false := by
  obtain ⟨u, hu, hsymbol⟩ := Option.bind_eq_some_iff.mp h
  rw [Bindings.isGlobalUse, hu, Option.any_some, hsymbol]
  rfl

/-- At a plain name the tracer answers for the reserved name when no declaration captures it, and
otherwise goes to the lasting value of the symbol, once. -/
theorem turn_identifier (o : Origin) (visited : List Nat) {name : String} {span : Span}
    {ks : List Node} (hroot : e.root = .node (.identifier name) span ks) :
    o.turn visited e
      = if name == o.host.reservedName && o.bindings.isGlobalUse span.start then .answer true
        else match o.bindings.symbolOfUse? span.start with
          | none => .answer false
          | some n =>
              if visited.contains n then .answer false
              else match o.lastingValue? n with
                | none => .answer false
                | some value => .onward (n :: visited) value := by
  rw [turn, hroot]

/-- At the host itself the tracer stops with true. -/
theorem turn_of_isHost (h : o.IsHost e) : o.turn visited e = .answer true := by
  obtain ⟨span, ks, hroot, hglobal⟩ := h
  simp only [turn, hroot, hglobal, BEq.rfl, Bool.and_self, if_true]

/-- At a used symbol with a lasting value the tracer goes on to that value, or stops if the symbol
was met before. -/
theorem turn_of_name {name : String} {span : Span} {ks : List Node} {n : Nat} {value : Node}
    (hroot : e.root = .node (.identifier name) span ks)
    (huse : o.bindings.symbolOfUse? span.start = some n) (hvalue : o.lastingValue? n = some value) :
    o.turn visited e = if visited.contains n then .answer false else .onward (n :: visited) value := by
  simp only [turn, hroot, huse, isGlobalUse_eq_false huse, hvalue, Bool.and_false,
    Bool.false_eq_true, if_false]

/-- Through the interop helper the tracer goes on to its one argument and remembers nothing. -/
theorem turn_of_helper {isOptional isPure : Bool} {own span : Span} {ks : List Node}
    {argument : Node}
    (hroot : e.root = .node (.call isOptional isPure) own
      [.node (.identifier o.host.interopHelper) span ks, argument])
    (hargument : argument.form ≠ .spread) : o.turn visited e = .onward visited argument := by
  simp only [turn, hroot, BEq.rfl, bne_iff_ne.mpr hargument, Bool.and_self, if_true]

/-- The loop goes on along a step back, and it has met the symbol that it goes back from; its only
answer but no is at the host. -/
theorem turn_cases (o : Origin) (visited : List Nat) (e : Node) :
    (o.IsHost e ∧ o.turn visited e = .answer true) ∨ o.turn visited e = .answer false
      ∨ ∃ visited' e', o.turn visited e = .onward visited' e' ∧ o.Back e e'
          ∧ (visited' = visited ∨ ∃ n, o.symbol? e = some n ∧ visited' = n :: visited) := by
  unfold turn
  split
  case h_1 isOptional isPure own name span ks argument hroot =>
    split
    case isTrue h =>
      simp only [Bool.and_eq_true, beq_iff_eq, bne_iff_ne] at h
      exact .inr (.inr ⟨_, _, rfl, .helper (h.1 ▸ hroot) h.2, .inl rfl⟩)
    case isFalse => exact .inr (.inl rfl)
  case h_2 name span ks hroot =>
    split
    case isTrue h =>
      simp only [Bool.and_eq_true, beq_iff_eq] at h
      exact .inl ⟨⟨span, ks, h.1 ▸ hroot, h.2⟩, rfl⟩
    case isFalse =>
      cases huse : o.bindings.symbolOfUse? span.start with
      | none => exact .inr (.inl rfl)
      | some n =>
          have hsymbol : o.symbol? e = some n := by
            rw [symbol?, hroot]
            exact huse
          dsimp only
          split
          case isTrue => exact .inr (.inl rfl)
          case isFalse =>
            cases hvalue : o.lastingValue? n with
            | none => exact .inr (.inl rfl)
            | some value =>
                exact .inr (.inr ⟨_, _, rfl, .name hroot huse hvalue, .inr ⟨n, hsymbol, rfl⟩⟩)
  case h_3 => exact .inr (.inl rfl)

/-- Each turn that goes on takes one of the steps back and remembers at most the symbol of the
expression it leaves. -/
theorem turn_onward {visited' : List Nat} {e' : Node}
    (h : o.turn visited e = .onward visited' e') :
    o.Back e e' ∧ (visited' = visited ∨ ∃ n, o.symbol? e = some n ∧ visited' = n :: visited) := by
  rcases o.turn_cases visited e with ⟨-, hturn⟩ | hturn | ⟨_, _, hturn, hback, hvisited⟩
  · cases h.symm.trans hturn
  · cases h.symm.trans hturn
  · obtain ⟨rfl, rfl⟩ := Turn.onward.inj (h.symm.trans hturn)
    exact ⟨hback, hvisited⟩

/-- There is at most one step back from an expression: the way is a chain, not a tree. -/
theorem Back.unique {e₁ e₂ : Node} (h₁ : o.Back e e₁) (h₂ : o.Back e e₂) : e₁ = e₂ := by
  cases h₁ with
  | helper hroot hargument =>
      cases h₂ with
      | helper hroot' hargument' =>
          rw [hroot] at hroot'
          cases hroot'
          rfl
      | name hroot' => rw [hroot] at hroot'; cases hroot'
  | name hroot huse hvalue =>
      cases h₂ with
      | helper hroot' hargument' => rw [hroot] at hroot'; cases hroot'
      | name hroot' huse' hvalue' =>
          rw [hroot] at hroot'
          cases hroot'
          obtain rfl := Option.some.inj (huse.symm.trans huse')
          exact Option.some.inj (hvalue.symm.trans hvalue')

/-- No step leads back from the host itself. -/
theorem IsHost.not_back {e' : Node} (h : o.IsHost e) : ¬ o.Back e e' := by
  obtain ⟨span, ks, hroot, hglobal⟩ := h
  intro hback
  cases hback with
  | helper hroot' => rw [hroot] at hroot'; cases hroot'
  | name hroot' huse =>
      rw [hroot] at hroot'
      cases hroot'
      rw [isGlobalUse_eq_false huse] at hglobal
      cases hglobal

/-- The loop has one answer. -/
theorem Answers.unique {b' : Bool} (h : o.Answers visited e b) (h' : o.Answers visited e b') :
    b = b' := by
  induction h with
  | now hturn =>
      cases h' with
      | now hturn' => exact Turn.answer.inj (hturn.symm.trans hturn')
      | later hturn' => cases hturn.symm.trans hturn'
  | later hturn _ ih =>
      cases h' with
      | now hturn' => cases hturn.symm.trans hturn'
      | later hturn' rest' =>
          obtain ⟨rfl, rfl⟩ := Turn.onward.inj (hturn.symm.trans hturn')
          exact ih rest'

-- ============================================================ the end of the loop

/-- A turn only looks at what an expression is read off. -/
theorem turn_congr {e' : Node} (h : e.root = e'.root) (visited : List Nat) :
    o.turn visited e = o.turn visited e' := by
  rw [turn, turn, h]

/-- The answer depends on what the expression stands for only, not on the wrapping around it. -/
theorem Answers.congr {e' : Node} (h : o.Answers visited e' b) (hroot : e.root = e'.root) :
    o.Answers visited e b := by
  cases h with
  | now hturn => exact .now ((turn_congr hroot visited).trans hturn)
  | later hturn rest => exact .later ((turn_congr hroot visited).trans hturn) rest

/-- A symbol has a lasting value when it was declared once, with that value, and is written
nowhere. -/
theorem lastingValue?_eq_some_iff {n : Nat} {value : Node} :
    o.lastingValue? n = some value ↔ ∃ s, o.bindings.symbols[n]? = some s
      ∧ s.value = some value ∧ o.bindings.isWritten n = false ∧ s.redeclared = false := by
  rw [lastingValue?]
  cases o.bindings.symbols[n]? with
  | none => simp
  | some s => cases hredeclared : s.redeclared <;> cases o.bindings.isWritten n <;> simp [hredeclared]

/-- The symbols met so far are different ones, so there is room for one more while the fuel lasts. -/
structure Room (o : Origin) (fuel : Nat) (visited : List Nat) : Prop where
  nodup : visited.Nodup
  lt : ∀ n ∈ visited, n < o.bindings.symbols.length
  fuel : o.bindings.symbols.length < fuel + visited.length

/-- Fuel outlasts the symbols: with none left, every symbol would have been visited and the next one
too. -/
theorem Room.not_zero (h : o.Room 0 visited) : False := by
  have hle : visited.length ≤ (List.range o.bindings.symbols.length).length :=
    h.nodup.length_le_of_subset fun n hn => List.mem_range.mpr (h.lt n hn)
  have := h.fuel
  rw [List.length_range] at hle
  omega

/-- Meeting a new symbol costs one unit of fuel and one of the symbols not visited yet. -/
theorem Room.next {fuel n : Nat} {value : Node} (h : o.Room (fuel + 1) visited) (hn : n ∉ visited)
    (hvalue : o.lastingValue? n = some value) : o.Room fuel (n :: visited) where
  nodup := List.nodup_cons.mpr ⟨hn, h.nodup⟩
  lt := by
    obtain ⟨s, hs, -⟩ := lastingValue?_eq_some_iff.mp hvalue
    exact List.forall_mem_cons.mpr ⟨(List.getElem?_eq_some_iff.mp hs).1, h.lt⟩
  fuel := by
    have := h.fuel
    rw [List.length_cons]
    omega

/-- The tracer sees an expression through its source only, whatever fuel and symbols it holds. -/
theorem tracesFrom_congr {e' : Node}
    (h : e.source o.host.interopHelper = e'.source o.host.interopHelper) (fuel : Nat)
    (visited : List Nat) : o.tracesFrom fuel visited e = o.tracesFrom fuel visited e' := by
  cases fuel with
  | zero => rfl
  | succ fuel => rw [tracesFrom, tracesFrom, h]

/-- The loop ends, with the answer of the tracer: it cannot come to more symbols than there are. -/
theorem answers_tracesFrom {fuel : Nat} (hroom : o.Room fuel visited) (e : Node) :
    o.Answers visited e (o.tracesFrom fuel visited e) := by
  induction fuel generalizing visited e with
  | zero => exact hroom.not_zero.elim
  | succ fuel ih =>
      -- the tracer goes through all calls of the helper in one turn
      induction e with
      | node form own ks ihNode =>
      rcases Node.source_cases o.host.interopHelper (.node form own ks) with
        ⟨object, hmem, hsource, hroot⟩
          | ⟨isOptional, isPure, s, t, js, argument, hmem, hroot, hargument, hsource⟩
          | ⟨hsource, hroot, hother⟩
      · rw [tracesFrom_congr hsource]
        exact (ihNode object hmem).congr hroot
      · rw [tracesFrom_congr hsource]
        exact .later (turn_of_helper hroot hargument) (ihNode argument hmem)
      · rw [tracesFrom, hsource]
        split
        case h_1 name span js hform =>
          have hturn := turn_identifier o visited (hroot.trans hform)
          cases hhost : name == o.host.reservedName && o.bindings.isGlobalUse span.start with
          | true => exact .now (by rw [hturn, hhost]; rfl)
          | false =>
              cases huse : o.bindings.symbolOfUse? span.start with
              | none => exact .now (by rw [hturn, hhost, huse]; rfl)
              | some n =>
                  simp only [hhost, huse, Bool.false_eq_true, if_false] at hturn ⊢
                  cases hvisited : visited.contains n with
                  | true => exact .now (by rw [hturn, hvisited]; rfl)
                  | false =>
                      have hn : n ∉ visited := by simpa using hvisited
                      simp only [hvisited, Bool.false_eq_true, if_false] at hturn ⊢
                      cases hvalue : o.lastingValue? n with
                      | none => exact .now (by rw [hturn, hvalue])
                      | some value =>
                          exact .later (by rw [hturn, hvalue]) (ih (hroom.next hn hvalue) value)
        case h_2 hname =>
          refine .now ?_
          rw [turn, hroot]
          split
          case h_1 hcall =>
            refine if_neg fun h => ?_
            simp only [Bool.and_eq_true, beq_iff_eq, bne_iff_ne] at h
            obtain ⟨rfl, hargument⟩ := h
            exact hargument (hother _ _ _ _ _ _ hcall)
          case h_2 hidentifier => exact (hname _ _ _ hidentifier).elim
          case h_3 => rfl

end Origin

-- ============================================================ derivations

/-- Whether a finite derivation makes an expression of a program one that comes from the host. -/
inductive Derives (host : HostNamespace) (tree : Node) : Node → Prop
  /-- It is read off the reserved name, which no enclosing scope binds. -/
  | reserved {e : Node} {span : Span} {ks : List Node}
      (hroot : e.root = .node (.identifier host.reservedName) span ks)
      (hglobal : (Bindings.ofProgram tree).isGlobalUse span.start = true) : Derives host tree e
  /-- It is read off a call of the helper with one argument that comes from the host. -/
  | helper {e argument : Node} {isOptional isPure : Bool} {own span : Span} {ks : List Node}
      (hroot : e.root = .node (.call isOptional isPure) own
        [.node (.identifier host.interopHelper) span ks, argument])
      (hargument : argument.form ≠ .spread) (h : Derives host tree argument) : Derives host tree e
  /-- It is read off a name that a declarator declares with an initial value from the host, that is
  declared once and that nothing assigns to. -/
  | name {e value : Node} {name : String} {span : Span} {ks : List Node} {n : Nat} {s : Symbol}
      (hroot : e.root = .node (.identifier name) span ks)
      (huse : (Bindings.ofProgram tree).symbolOfUse? span.start = some n)
      (hsymbol : (Bindings.ofProgram tree).symbols[n]? = some s) (hvalue : s.value = some value)
      (hdeclarator : tree.Initializes s.name s.span value)
      (hwritten : (Bindings.ofProgram tree).isWritten n = false) (honce : s.redeclared = false)
      (h : Derives host tree value) : Derives host tree e

namespace Derives

/-- The way back of the values of a program. -/
abbrev way (host : HostNamespace) (tree : Node) : Origin := ⟨host, Bindings.ofProgram tree⟩

variable {host : HostNamespace} {tree e e' : Node} {visited : List Nat}

/-- A derivation ends at the host, or goes one step back. -/
theorem cases_back (h : Derives host tree e) :
    (way host tree).IsHost e ∨ ∃ e', (way host tree).Back e e' ∧ Derives host tree e' := by
  cases h with
  | reserved hroot hglobal => exact .inl ⟨_, _, hroot, hglobal⟩
  | helper hroot hargument h => exact .inr ⟨_, .helper hroot hargument, h⟩
  | name hroot huse hsymbol hvalue _ hwritten honce h =>
      exact .inr ⟨_, .name hroot huse
        (Origin.lastingValue?_eq_some_iff.mpr ⟨_, hsymbol, hvalue, hwritten, honce⟩), h⟩

/-- What is one step from an expression that comes from the host comes from it. -/
theorem of_back (hback : (way host tree).Back e e') (h : Derives host tree e') :
    Derives host tree e := by
  cases hback with
  | helper hroot hargument => exact .helper hroot hargument h
  | name hroot huse hvalue =>
      obtain ⟨s, hsymbol, hinitial, hwritten, honce⟩ := Origin.lastingValue?_eq_some_iff.mp hvalue
      exact .name hroot huse hsymbol hinitial
        (Bindings.initializes_of_value (List.mem_of_getElem? hsymbol) hinitial) hwritten honce h

/-- What a derivable expression steps back to is derivable. -/
theorem back (h : Derives host tree e) (hback : (way host tree).Back e e') :
    Derives host tree e' := by
  rcases h.cases_back with hhost | ⟨e'', hback', h'⟩
  · exact (hhost.not_back hback).elim
  · exact hback.unique hback' ▸ h'

/-- What a derivable expression reaches by any number of steps is derivable. -/
theorem reaches (h : Derives host tree e) (hreach : ReflTransGen (way host tree).Back e e') :
    Derives host tree e' := by
  induction hreach with
  | refl => exact h
  | tail _ hback ih => exact ih.back hback

/-- What is derivable is on no cycle of steps: its derivation would have to hold itself. -/
theorem not_cyclic (h : Derives host tree e) : ¬ TransGen (way host tree).Back e e := by
  -- one step leads from the cycle through an expression to the cycle through the next one
  have hstep : ∀ {e e'}, (way host tree).Back e e' → ¬ TransGen (way host tree).Back e' e' →
      ¬ TransGen (way host tree).Back e e := by
    intro e e' hback hno hcycle
    obtain ⟨e'', hback', hrest⟩ := TransGen.head'_iff.mp hcycle
    obtain rfl := hback.unique hback'
    exact hno (TransGen.tail' hrest hback)
  induction h with
  | reserved hroot hglobal =>
      intro hcycle
      obtain ⟨e', hback, -⟩ := TransGen.head'_iff.mp hcycle
      exact Origin.IsHost.not_back ⟨_, _, hroot, hglobal⟩ hback
  | helper hroot hargument _ ih => exact hstep (.helper hroot hargument) ih
  | name hroot huse hsymbol hvalue _ hwritten honce _ ih =>
      exact hstep (.name hroot huse
        (Origin.lastingValue?_eq_some_iff.mpr ⟨_, hsymbol, hvalue, hwritten, honce⟩)) ih

end Derives

-- ============================================================ the guard

namespace Origin

/-- One turn after the other. -/
def Runs (o : Origin) : List Nat × Node → List Nat × Node → Prop :=
  ReflTransGen fun p q => o.turn p.1 p.2 = .onward q.1 q.2

/-- Every symbol met so far was met on the way to the expression. -/
def Trail (o : Origin) (visited : List Nat) (e : Node) : Prop :=
  ∀ n ∈ visited, ∃ c, o.symbol? c = some n ∧ TransGen o.Back c e

variable {o : Origin} {visited visited' : List Nat} {e e' : Node} {n : Nat}

theorem trail_nil : o.Trail [] e := nofun

/-- Two expressions that are read off the same symbol go back to the same value. -/
theorem Back.of_symbol? {c value : Node} (h : o.Back c value) (hc : o.symbol? c = some n)
    (he : o.symbol? e = some n) : o.Back e value := by
  unfold symbol? at he
  split at he
  case h_1 name span ks hroot =>
    cases h with
    | helper hroot' =>
        rw [symbol?, hroot'] at hc
        cases hc
    | name hroot' huse hvalue =>
        rw [symbol?, hroot'] at hc
        obtain rfl := Option.some.inj (huse.symm.trans hc)
        exact .name hroot he hvalue
  case h_2 => cases he

/-- One turn keeps the trail: a remembered symbol leads, step by step, to the expression the tracer
is at. -/
theorem Trail.turn (h : o.Trail visited e) (hturn : o.turn visited e = .onward visited' e') :
    o.Trail visited' e' := by
  obtain ⟨hback, rfl | ⟨n, hn, rfl⟩⟩ := turn_onward hturn
  · exact fun k hk => (h k hk).imp fun c hc => ⟨hc.1, hc.2.tail hback⟩
  · refine List.forall_mem_cons.mpr ⟨⟨e, hn, .single hback⟩, fun k hk => ?_⟩
    exact (h k hk).imp fun c hc => ⟨hc.1, hc.2.tail hback⟩

/-- So does a whole run, and the run walks along the steps back. -/
theorem Trail.runs {p q : List Nat × Node} (h : o.Trail p.1 p.2) (hruns : o.Runs p q) :
    o.Trail q.1 q.2 ∧ ReflTransGen o.Back p.2 q.2 := by
  induction hruns with
  | refl => exact ⟨h, .refl⟩
  | tail _ hturn ih => exact ⟨ih.1.turn hturn, ih.2.tail (turn_onward hturn).1⟩

end Origin

namespace Derives

variable {host : HostNamespace} {tree e : Node} {visited : List Nat}

/-- On the way of a derivable expression no symbol is met twice. -/
theorem not_mem_visited {n : Nat} (h : Derives host tree e)
    (htrail : (way host tree).Trail visited e) (hn : (way host tree).symbol? e = some n) :
    n ∉ visited := by
  intro hmem
  obtain ⟨c, hc, hway⟩ := htrail n hmem
  -- both go back to one value, which is then on a cycle
  obtain ⟨value, hback, hrest⟩ := TransGen.head'_iff.mp hway
  have hback' := hback.of_symbol? hc hn
  exact (h.back hback').not_cyclic (TransGen.tail' hrest hback')

/-- The loop says yes to what is derivable. -/
theorem answer {b : Bool} (h : Derives host tree e) (htrail : (way host tree).Trail visited e)
    (hanswers : (way host tree).Answers visited e b) : b = true := by
  induction hanswers with
  | @now visited e b hturn =>
      rcases h.cases_back with hhost | ⟨e', hback, -⟩
      · exact Origin.Turn.answer.inj (hturn.symm.trans (Origin.turn_of_isHost hhost))
      · cases hback with
        | helper hroot hargument => cases hturn.symm.trans (Origin.turn_of_helper hroot hargument)
        | name hroot huse hvalue =>
            have hfresh := h.not_mem_visited htrail (by rw [Origin.symbol?, hroot]; exact huse)
            rw [Origin.turn_of_name hroot huse hvalue, if_neg (by simpa using hfresh)] at hturn
            cases hturn
  | later hturn _ ih => exact ih (h.back (Origin.turn_onward hturn).1) (htrail.turn hturn)

/-- What the loop says yes to is derivable. -/
theorem of_answers {b : Bool} (h : (way host tree).Answers visited e b) (hb : b = true) :
    Derives host tree e := by
  induction h with
  | @now visited e b hturn =>
      rcases (way host tree).turn_cases visited e with
        ⟨⟨span, ks, hroot, hglobal⟩, -⟩ | hturn' | ⟨_, _, hturn', -⟩
      · exact .reserved hroot hglobal
      · cases hb
        cases hturn.symm.trans hturn'
      · cases hturn.symm.trans hturn'
  | later hturn _ ih => exact of_back (Origin.turn_onward hturn).1 (ih hb)

end Derives

-- ============================================================ the tracer

/-- For every expression the loop ends with the answer of the tracer, and the answer is whether the
expression has a derivation. On the way of a derivable expression the guard finds no symbol that
it has met before, and what leads into a cycle of steps, be they over names or over calls of the
helper, does not come from the host. -/
theorem traces_iff_derives (host : HostNamespace) (tree e : Node) :
    let o : Origin := ⟨host, Bindings.ofProgram tree⟩
    o.Answers [] e (o.traces e)
      ∧ (∀ b, o.Answers [] e b → b = o.traces e)
      ∧ (o.traces e = true ↔ Derives host tree e)
      ∧ (Derives host tree e → ∀ visited e' n, o.Runs ([], e) (visited, e') →
          o.symbol? e' = some n → n ∉ visited)
      ∧ ∀ c, ReflTransGen o.Back e c → TransGen o.Back c c → o.traces e = false := by
  intro o
  have hends : o.Answers [] e (o.traces e) :=
    Origin.answers_tracesFrom ⟨List.nodup_nil, nofun, Nat.lt_succ_self _⟩ e
  have hiff : o.traces e = true ↔ Derives host tree e :=
    ⟨fun h => Derives.of_answers hends h, fun h => h.answer Origin.trail_nil hends⟩
  refine ⟨hends, fun b hb => hb.unique hends, hiff, fun h visited e' n hruns hn => ?_,
    fun c hreach hcycle => ?_⟩
  · obtain ⟨htrail, hreach⟩ := Origin.Trail.runs (p := ([], e)) Origin.trail_nil hruns
    exact (h.reaches hreach).not_mem_visited htrail hn
  · refine eq_false_of_ne_true fun htrue => ?_
    exact ((hiff.mp htrue).reaches hreach).not_cyclic hcycle

/-- Two names that are read off each other, one of them over the helper, are not from the host. -/
example : (Program.parse? "const a=_interopDefaultLegacy(b.c),b=a.d;b").any (fun p =>
    (Origin.valueStatements p.tree).map
      (Origin.traces ⟨.standard, Bindings.ofProgram p.tree⟩) == [false]) = true := by
  decide +kernel

end Graft
