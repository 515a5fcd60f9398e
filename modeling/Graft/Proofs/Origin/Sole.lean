import Graft.Proofs.Grammar.Program
import Graft.Proofs.Origin.Derivation
import Graft.Proofs.Plan.Grounds
import Graft.Proofs.Scope.Words
import Mathlib.Data.List.Nodup
/-!
What an answer of the tracer rests on.

The tracer goes back from a name to the initial value of the declarator that declares it, whatever
the pattern in between does with that value. What it may rely on is told here: the symbol is
declared in the pattern of that declarator and nowhere else, and nothing assigns to it
(`Origin.declaredOnce_of_lastingValue?`).

That a symbol is declared nowhere else is an invariant of the walk over the scopes
(`ScopeWalk.Sole`): a symbol that is declared again is marked, and a symbol that is not marked has
one declaration, where it was first declared. One event keeps it, and so do all events of a program
(`Bindings.sole_ofProgram`).

So a statement that goes away calls something that is derived from the host, and that goes by the
name of a pure method where it is called: as the last name of an access, or as the name of a symbol
that is declared once (`planEdits_elides`).
-/
namespace Graft

-- ============================================================ sole declarations

namespace ScopeWalk

/-- Every symbol that is not marked as redeclared has one declaration, where it was first
declared. -/
def Sole (b : Bindings) : Prop :=
  ∀ (k : Nat) (s : Symbol), b.symbols[k]? = some s → s.redeclared = false →
    b.declared.filter (fun d => d.2 == k) = [(s.span.start, k)]

variable {b : Bindings} {w : ScopeWalk}

/-- A symbol declared again is marked, and the declarations of the others are as they were. -/
theorem Sole.again (h : Sole b) (span : Span) (n : Nat) : Sole (again b span n) := by
  intro k s hs honce
  rw [ScopeWalk.again, redeclare, List.getElem?_modify] at hs
  obtain ⟨s', hs', hmark⟩ := Option.map_eq_some_iff.mp hs
  by_cases hk : n = k
  · -- the symbol is marked
    rw [if_pos hk] at hmark
    rw [← hmark] at honce
    cases honce
  · rw [if_neg hk] at hmark
    have hs : b.symbols[k]? = some s := hmark ▸ hs'
    have hother : ((span.start, n).2 == k) = false := beq_eq_false_iff_ne.mpr hk
    rw [ScopeWalk.again, List.filter_cons, hother]
    exact h k s hs honce

/-- A new symbol comes with one declaration, under a number that no other declaration has. -/
theorem Sole.withSymbol (h : Sole b) (hlt : ∀ d ∈ b.declared, d.2 < b.symbols.length)
    (name : String) (span : Span) (how : Introduction) : Sole (withSymbol b name span how) := by
  intro k s hs honce
  show ((span.start, b.symbols.length) :: b.declared).filter (fun d => d.2 == k) = _
  by_cases hk : k < b.symbols.length
  · have hs : b.symbols[k]? = some s := by
      rwa [ScopeWalk.withSymbol, List.getElem?_append_left hk] at hs
    have hother : ((span.start, b.symbols.length).2 == k) = false :=
      beq_eq_false_iff_ne.mpr (by dsimp only; omega)
    rw [List.filter_cons, hother]
    exact h k s hs honce
  · -- nothing was declared for the new symbol before
    have hlast : k = b.symbols.length := by
      have hlength := (List.getElem?_eq_some_iff.mp hs).1
      simp only [ScopeWalk.withSymbol, List.length_append, List.length_singleton] at hlength
      omega
    subst hlast
    have hnone : b.declared.filter (fun d => d.2 == b.symbols.length) = [] := by
      refine List.filter_eq_nil_iff.mpr fun d hd heq => ?_
      have hd := hlt d hd
      rw [beq_iff_eq] at heq
      omega
    rw [ScopeWalk.withSymbol, List.getElem?_concat_length] at hs
    obtain rfl := Option.some.inj hs
    rw [List.filter_cons, hnone]
    simp [newSymbol]

/-- One event of the scope walk keeps the declaration of every unmarked symbol the only one. -/
theorem Sole.step (h : Sole w.found) (hw : Valid w) (e : ScopeEvent) : Sole (step w e).found := by
  rcases step_found_cases w e with ⟨hsymbols, hdeclared⟩ | ⟨name, span, how, -, ⟨n, heq⟩ | heq⟩
  · intro k s hs honce
    rw [hdeclared]
    exact h k s (hsymbols ▸ hs) honce
  · rw [heq]
    exact h.again span n
  · rw [heq]
    exact h.withSymbol hw.declared name span how

/-- So does any row of events. -/
theorem Sole.walk {events : List ScopeEvent} (h : Sole w.found) (hw : Valid w) :
    Sole (events.foldl ScopeWalk.step w).found := by
  induction events generalizing w with
  | nil => exact h
  | cons e events ih => exact ih (h.step hw e) (hw.walk (grows_walk [e] w))

end ScopeWalk

namespace Bindings

variable {tree : Node}

/-- In a program a symbol that was not declared again has one declaration. -/
theorem sole_ofProgram (tree : Node) : ScopeWalk.Sole (ofProgram tree) := by
  have hstart : ScopeWalk.Sole ScopeWalk.start.found := by
    intro k s hs
    cases hs
  exact hstart.walk ScopeWalk.valid_start

/-- A symbol that is not marked as redeclared is declared where it was first declared, and nowhere
else. -/
theorem symbolOfName?_iff_of_sole (ht : tree.WellPlaced) {n start : Nat} {s : Symbol}
    (hs : (ofProgram tree).symbols[n]? = some s) (honce : s.redeclared = false) :
    (ofProgram tree).symbolOfName? start = some n ↔ start = s.span.start := by
  have hsole := sole_ofProgram tree n s hs honce
  have hmem : (start, n) ∈ (ofProgram tree).declared
      ↔ (start, n) ∈ (ofProgram tree).declared.filter fun d => d.2 == n := by
    simp [List.mem_filter]
  rw [symbolOfName?_eq_some ht, hmem, hsole, List.mem_singleton, Prod.mk.injEq]
  simp

end Bindings

-- ============================================================ names that are declared once

/-- Whether a symbol is declared once, by a name in the pattern of a declarator with an initial
value, and nothing assigns to it. -/
structure DeclaredOnce (tree : Node) (n : Nat) (pattern name value : Node) : Prop where
  declarator : ∃ span, .node .declarator span [pattern, value] ∈ tree.parts
  mem : name ∈ pattern.bindings
  sole : ∀ b ∈ tree.bindings, (Bindings.ofProgram tree).symbolOfName? b.span.start = some n ↔ b = name
  unwritten : (Bindings.ofProgram tree).isWritten n = false

namespace Origin

variable {tree value : Node} {n : Nat}

/-- What the tracer goes back from is declared once, where it gets the value that the tracer goes on
to. -/
theorem declaredOnce_of_lastingValue? (host : HostNamespace) (ht : tree.WellPlaced)
    (h : (Derives.way host tree).lastingValue? n = some value) :
    ∃ pattern name, DeclaredOnce tree n pattern name value := by
  obtain ⟨s, hs, hinitial, hwritten, honce⟩ := lastingValue?_eq_some_iff.mp h
  obtain ⟨span, pattern, hd, -, b, hb, hform, hspan⟩ :=
    Bindings.initializes_of_value (List.mem_of_getElem? hs) hinitial
  have hname : b.isBinding = true := by rw [Node.isBinding, hform]
  have hbt : b ∈ tree.bindings := List.mem_filter.mpr ⟨Node.mem_parts_trans hb
    (Node.mem_parts_trans (Node.child_mem_parts List.mem_cons_self) hd), hname⟩
  refine ⟨pattern, b, ⟨span, hd⟩, List.mem_filter.mpr ⟨hb, hname⟩, fun b' hb' => ?_, hwritten⟩
  rw [Bindings.symbolOfName?_iff_of_sole ht hs honce, ← hspan]
  constructor
  · exact fun hstart => List.inj_on_of_nodup_map ht.nodup_nameStarts hb' hbt hstart
  · rintro rfl
    rfl

end Origin

/-- A name that comes from the host is the reserved one, and nothing declares it, or it is declared
once, with an initial value that comes from the host. -/
theorem Derives.of_identifier {host : HostNamespace} {tree : Node} (ht : tree.WellPlaced)
    {name : String} {span : Span} {ks : List Node}
    (h : Derives host tree (.node (.identifier name) span ks)) :
    (name = host.reservedName ∧ (Bindings.ofProgram tree).isGlobalUse span.start = true)
      ∨ ∃ n pattern b value, (Bindings.ofProgram tree).symbolOfUse? span.start = some n
        ∧ DeclaredOnce tree n pattern b value ∧ Derives host tree value := by
  have hself : (Node.node (.identifier name) span ks).root = .node (.identifier name) span ks := by
    rw [Node.root.eq_def]
  cases h with
  | reserved hroot hglobal =>
      cases hself.symm.trans hroot
      exact .inl ⟨rfl, hglobal⟩
  | helper hroot => cases hself.symm.trans hroot
  | name hroot huse hsymbol hvalue _ hwritten honce h =>
      cases hself.symm.trans hroot
      obtain ⟨pattern, b, hdeclared⟩ := Origin.declaredOnce_of_lastingValue? host ht
        (Origin.lastingValue?_eq_some_iff.mpr ⟨_, hsymbol, hvalue, hwritten, honce⟩)
      exact .inr ⟨_, pattern, b, _, huse, hdeclared, h⟩

-- ============================================================ statements that go away

/-- A yes of the tracer has a derivation. -/
theorem Derives.of_traces {host : HostNamespace} {tree e : Node}
    (h : (way host tree).traces e = true) : Derives host tree e := by
  have hroom : (way host tree).Room ((way host tree).bindings.symbols.length + 1) [] :=
    ⟨List.nodup_nil, nofun, Nat.lt_succ_self _⟩
  exact Derives.of_answers (Origin.answers_tracesFrom hroom e) h

/-- A statement that goes away calls what comes from the host and goes by the name of a pure method
there: as the last name of an access, or as a name, which is the host itself or declared once, with
an initial value that comes from the host. -/
theorem planEdits_elides {config : TransformConfig} {plugin source : String} {p : Program}
    (hp : Program.parse? source = some p) {s : Span}
    (hs : s ∈ (planEdits config plugin p.tree).1.removedStatements) :
    ∃ value isOptional isPure own callee arguments name,
      .node .expressionStatement s [value] ∈ p.tree.parts
        ∧ value.root = .node (.call isOptional isPure) own (callee :: arguments)
        ∧ config.host.isPure name = true ∧ Derives config.host p.tree callee
        ∧ ((∃ isOptional, callee.form = .member isOptional name)
          ∨ callee.form = .identifier name ∧ (name = config.host.reservedName
            ∨ ∃ n pattern b initial,
                (Bindings.ofProgram p.tree).symbolOfUse? callee.span.start = some n
                  ∧ DeclaredOnce p.tree n pattern b initial
                  ∧ Derives config.host p.tree initial)) := by
  obtain ⟨value, hmem, hpure⟩ := (planEdits_grounded config plugin p.tree).statements s hs
  unfold Survey.isPureCall at hpure
  split at hpure
  case h_2 => cases hpure
  case h_1 isOptional isPure own callee arguments hroot =>
    rw [Bool.and_eq_true] at hpure
    obtain ⟨hmethod, htrace⟩ := hpure
    obtain ⟨name, hname, hmethod⟩ := (Option.any_eq_true _ _).mp hmethod
    -- the callee traces to the host, so it is derived; what is left is where its name stands
    have hderives : Derives config.host p.tree callee := Derives.of_traces htrace
    refine ⟨value, isOptional, isPure, own, callee, arguments, name, hmem, hroot, hmethod,
      hderives, ?_⟩
    unfold Node.calleeName? at hname
    split at hname
    -- named by the member access
    case h_1 heq =>
      obtain rfl := Option.some.inj hname
      exact .inl ⟨_, heq⟩
    -- or by the identifier, which is the reserved name or was declared once with a derived value
    case h_2 heq =>
      obtain rfl := Option.some.inj hname
      refine .inr ⟨heq, ?_⟩
      cases callee with
      | node form span ks =>
          obtain rfl : form = .identifier _ := heq
          rcases hderives.of_identifier (Program.wellPlaced_of_parse? hp) with
            ⟨hreserved, -⟩ | hdeclared
          · exact .inl hreserved
          · exact .inr hdeclared
    case h_3 => cases hname

end Graft
