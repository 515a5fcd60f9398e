import Graft.Proofs.Scope.Layers
/-!
Where the initial value of a symbol comes from.

An introduction either marks an old symbol as redeclared or adds one with the value that it brings
(`ScopeWalk.introduceIn_eq`, `ScopeWalk.introduceWide_bindings`); no other event touches the
symbols. So every value that a symbol of a program has is the initial value of a declarator of the
program (`Bindings.initializes_of_value`).
-/
namespace Graft

/-- Symbols that were introduced alike. -/
def Symbol.SameOrigin (s t : Symbol) : Prop :=
  s.name = t.name ∧ s.span = t.span ∧ s.value = t.value

/-- A declarator of the tree gives an initial value to a name that its pattern takes. -/
def Node.Initializes (tree : Node) (name : String) (span : Span) (value : Node) : Prop :=
  ∃ own pattern, .node .declarator own [pattern, value] ∈ tree.parts ∧ value.isAbsent = false
    ∧ ∃ b ∈ pattern.parts, b.form = .binding name ∧ b.span = span

/-- What initializes a name in a child does so in the node. -/
theorem Node.Initializes.of_child {form : Form} {own span : Span} {children : List Node}
    {k value : Node} {name : String} (h : k.Initializes name span value) (hk : k ∈ children) :
    (Node.node form own children).Initializes name span value := by
  obtain ⟨own', pattern, hmem, hvalue, hb⟩ := h
  exact ⟨own', pattern, Node.mem_parts_node.mpr (.inr ⟨k, hk, hmem⟩), hvalue, hb⟩

namespace ScopeEvent

/-- A name that comes with a value gets it from a declarator, unless the surroundings gave it. -/
theorem initializes_of_introduce {t : Node} {how how' : Introduction} {name : String} {span : Span}
    {v : Node} (h : .introduce name span how' ∈ t.fold algebra how) (hv : how'.value = some v) :
    (how.value = some v ∧ ∃ b ∈ t.parts, b.form = .binding name ∧ b.span = span)
      ∨ t.Initializes name span v := by
  induction t generalizing how with
  | node form own children ih =>
      rw [Node.fold_node] at h
      rcases algebra_layers form own (children.map fun k => (k, k.fold algebra)) how with
        ⟨n, -, heq⟩ | ⟨n, target, -, -, -, heq⟩ | ⟨n, rfl, heq⟩
          | ⟨before, inside, hall, hfrom, hrow⟩
      · rw [heq] at h
        simp at h
      · rw [heq] at h
        simp at h
      · rw [heq] at h
        obtain ⟨rfl, rfl, rfl⟩ := by simpa using h
        exact .inl ⟨hv, _, Node.self_mem_parts _, rfl, rfl⟩
      · -- the event is one of a child, whichever side of the scope it stands on
        have hmem : ∃ p ∈ before ++ inside, .introduce name span how' ∈ p.1.2 p.2 := by
          rcases hrow with ⟨rfl, heq⟩ | ⟨isWide, heq⟩
          · rw [heq] at h
            simpa [told] using h
          · rw [heq] at h
            obtain h | h := List.mem_append.mp h
            · obtain ⟨p, hp, he⟩ := List.mem_flatMap.mp h
              exact ⟨p, List.mem_append_left _ hp, he⟩
            · have h' : .introduce name span how' ∈ told inside := by simpa [inScope] using h
              obtain ⟨p, hp, he⟩ := List.mem_flatMap.mp h'
              exact ⟨p, List.mem_append_right _ hp, he⟩
        obtain ⟨p, hp, he⟩ := hmem
        have hchild : p.1 ∈ children.map fun k => (k, k.fold algebra) := by
          rw [hall]
          exact List.mem_map_of_mem hp
        obtain ⟨k, hk, hpk⟩ := List.mem_map.mp hchild
        rw [← hpk] at he
        rcases ih k hk he with ⟨hval, b, hb, hbinding⟩ | hdeclarator
        · rcases hfrom p hp with hn | hn | ⟨value, rfl, hchildren, habsent, hn⟩
          · rw [hn] at hval
            cases hval
          · exact .inl ⟨hn ▸ hval, b, Node.mem_parts_node.mpr (.inr ⟨k, hk, hb⟩), hbinding⟩
          · -- the child is the pattern of a declarator
            rw [hn] at hval
            obtain rfl := Option.some.inj hval
            have hnodes : children = [p.1.1, value.1] := by
              simpa [Function.comp_def] using congrArg (List.map Prod.fst) hchildren
            rw [hnodes]
            refine .inr ⟨own, p.1.1, Node.self_mem_parts _, habsent, b, ?_, hbinding⟩
            rw [← hpk]
            exact hb
        · exact .inr (hdeclarator.of_child hk)

end ScopeEvent

namespace ScopeWalk

-- ============================================================ introductions

/-- The symbol of a new name. -/
def newSymbol (name : String) (span : Span) (how : Introduction) : Symbol :=
  { name := name, span := span, value := how.value, isOwn := how.reach == Reach.own
    redeclared := false }

/-- The bindings with a symbol more. -/
def withSymbol (b : Bindings) (name : String) (span : Span) (how : Introduction) : Bindings :=
  { b with
    symbols := b.symbols ++ [newSymbol name span how]
    declared := (span.start, b.symbols.length) :: b.declared }

/-- Introducing a name in a scope finds the symbol that the scope has for it, or makes a new
one. -/
theorem introduceIn_eq (s : OpenScope) (b : Bindings) (name : String) (span : Span)
    (how : Introduction) :
    (∃ n, s.find? name = some n ∧ introduceIn s b name span how = (s, again b span n, n))
      ∨ introduceIn s b name span how
          = (s.put name b.symbols.length, withSymbol b name span how, b.symbols.length) := by
  unfold introduceIn
  cases hold : (s.find? name).filter fun n => !(b.symbols[n]?).any fun (s : Symbol) => s.isOwn with
  | none => exact .inr rfl
  | some n => exact .inl ⟨n, (Option.filter_eq_some_iff.mp hold).1, rfl⟩

/-- A scope that a `var` has passed on its way out. -/
def pass (name : String) (n : Nat) (s : OpenScope) : OpenScope :=
  { s with passing := (name, n) :: s.passing }

/-- A scope whose symbol has moved out of it. -/
def drop (name : String) (n : Nat) (s : OpenScope) : OpenScope :=
  { s with names := s.names.filter fun e => !(e.1 == name && e.2 == n) }

/-- What introducing a name as `var` does: nothing if no scope is wide; otherwise the scopes before
the first wide one are passed, and a symbol of theirs, an old one of the wide scope or a new one
is declared. -/
theorem introduceWide_cases (name : String) (span : Span) (how : Introduction) (b : Bindings)
    (scopes : List OpenScope) :
    (scopes.dropWhile (!·.isWide) = [] ∧ introduceWide name span how b scopes = (scopes, b))
      ∨ ∃ inner target outer, scopes.takeWhile (!·.isWide) = inner
        ∧ scopes.dropWhile (!·.isWide) = target :: outer
        ∧ ((∃ n, (∃ s ∈ inner, s.find? name = some n)
              ∧ (introduceWide name span how b scopes
                  = (inner.map (pass name n) ++ target :: outer, again b span n)
                ∨ introduceWide name span how b scopes
                  = (inner.map (fun s => pass name n (drop name n s))
                      ++ target.put name n :: outer, again b span n)))
          ∨ (∃ n, target.find? name = some n ∧ introduceWide name span how b scopes
              = (inner.map (pass name n) ++ target :: outer, again b span n))
          ∨ introduceWide name span how b scopes
              = (inner.map (pass name b.symbols.length)
                  ++ target.put name b.symbols.length :: outer, withSymbol b name span how)) := by
  rw [introduceWide.eq_def]
  split
  case h_1 hout => exact .inl ⟨hout, rfl⟩
  case h_2 target outer hout =>
    refine .inr ⟨_, target, outer, rfl, hout, ?_⟩
    cases hfind : (scopes.takeWhile (!·.isWide)).findSome? fun s => s.find? name with
    | some n =>
        obtain ⟨s, hs, hn⟩ := List.exists_of_findSome?_eq_some hfind
        refine .inl ⟨n, ⟨s, hs, hn⟩, ?_⟩
        simp only [hfind]
        by_cases hhas : (target.names.lookup name).isSome = true
        · exact .inl (if_pos hhas)
        · exact .inr (if_neg hhas)
    | none =>
        rcases introduceIn_eq target b name span how with ⟨n, hn, heq⟩ | heq
        · exact .inr (.inl ⟨n, hn, by simp only [hfind, heq]; rfl⟩)
        · exact .inr (.inr (by simp only [hfind, heq]; rfl))

/-- Introducing a name as `var` does leaves the bindings, declares an old symbol again, or makes a
new one. -/
theorem introduceWide_bindings (name : String) (span : Span) (how : Introduction) (b : Bindings)
    (scopes : List OpenScope) :
    (introduceWide name span how b scopes).2 = b
      ∨ (∃ n, (introduceWide name span how b scopes).2 = again b span n)
      ∨ (introduceWide name span how b scopes).2 = withSymbol b name span how := by
  rcases introduceWide_cases name span how b scopes with
    ⟨-, heq⟩ | ⟨inner, target, outer, -, -, ⟨n, -, heq | heq⟩ | ⟨n, -, heq⟩ | heq⟩
  · exact .inl (by rw [heq])
  · exact .inr (.inl ⟨n, by rw [heq]⟩)
  · exact .inr (.inl ⟨n, by rw [heq]⟩)
  · exact .inr (.inl ⟨n, by rw [heq]⟩)
  · exact .inr (.inr (by rw [heq]))

-- ============================================================ steps

section Steps

variable {w : ScopeWalk} {name : String} {span : Span} {how : Introduction}

/-- A name with a wide reach goes up to the nearest wide scope. -/
theorem step_introduce_wide (h : how.reach = .wide) :
    step w (.introduce name span how)
      = ⟨(introduceWide name span how w.found w.opened).1,
          (introduceWide name span how w.found w.opened).2⟩ := by
  simp only [step, h]

/-- Any other name is introduced in the innermost scope. -/
theorem step_introduce_cons (h : how.reach ≠ .wide) {s : OpenScope} {outer : List OpenScope}
    (hw : w.opened = s :: outer) :
    step w (.introduce name span how)
      = ⟨(introduceIn s w.found name span how).1 :: outer,
          (introduceIn s w.found name span how).2.1⟩ := by
  cases hr : how.reach with
  | wide => exact absurd hr h
  | near => simp only [step, hr, hw]
  | own => simp only [step, hr, hw]

/-- Outside of all scopes it is introduced nowhere. -/
theorem step_introduce_nil (h : how.reach ≠ .wide) (hw : w.opened = []) :
    step w (.introduce name span how) = w := by
  cases hr : how.reach with
  | wide => exact absurd hr h
  | near => simp only [step, hr, hw]
  | own => simp only [step, hr, hw]

end Steps

-- ============================================================ symbols

/-- Marking a symbol as redeclared keeps what it was introduced as. -/
theorem origin_of_mem_redeclare {symbols : List Symbol} {n : Nat} {s : Symbol}
    (h : s ∈ redeclare symbols n) : ∃ s' ∈ symbols, s'.SameOrigin s := by
  unfold redeclare at h
  obtain ⟨i, hi, rfl⟩ := List.mem_iff_getElem.mp h
  rw [List.getElem_modify]
  have hi' : i < symbols.length := by simpa using hi
  refine ⟨symbols[i], List.getElem_mem hi', ?_⟩
  split
  · exact ⟨rfl, rfl, rfl⟩
  · exact ⟨rfl, rfl, rfl⟩

/-- A symbol is an earlier one, or comes from the introduction just met. -/
theorem origin_of_mem_step {w : ScopeWalk} {e : ScopeEvent} {s : Symbol}
    (h : s ∈ (step w e).found.symbols) :
    (∃ s' ∈ w.found.symbols, s'.SameOrigin s)
      ∨ ∃ how, e = .introduce s.name s.span how ∧ how.value = s.value := by
  cases e with
  | enter isWide => exact .inl ⟨s, h, rfl, rfl, rfl⟩
  | use name start isWrite =>
      refine .inl ⟨s, ?_, rfl, rfl, rfl⟩
      cases hw : w.opened with
      | nil => simpa [step, hw] using h
      | cons t outer => simpa [step, hw] using h
  | leave =>
      refine .inl ⟨s, ?_, rfl, rfl, rfl⟩
      cases hw : w.opened with
      | nil => simpa [step, hw] using h
      | cons t outer =>
          cases outer with
          | nil => simpa [step, hw] using h
          | cons u outer => simpa [step, hw] using h
  | introduce name span how =>
      -- only the bindings matter, and they change in one of three ways
      have hfound : (step w (.introduce name span how)).found = w.found
          ∨ (∃ n, (step w (.introduce name span how)).found = again w.found span n)
          ∨ (step w (.introduce name span how)).found = withSymbol w.found name span how := by
        by_cases hreach : how.reach = .wide
        · rw [step_introduce_wide hreach]
          exact introduceWide_bindings name span how w.found w.opened
        · cases hw : w.opened with
          | nil => exact .inl (by rw [step_introduce_nil hreach hw])
          | cons t outer =>
              rw [step_introduce_cons hreach hw]
              rcases introduceIn_eq t w.found name span how with ⟨n, -, heq⟩ | heq
              · exact .inr (.inl ⟨n, by rw [heq]⟩)
              · exact .inr (.inr (by rw [heq]))
      rcases hfound with heq | ⟨n, heq⟩ | heq
      · exact .inl ⟨s, heq ▸ h, rfl, rfl, rfl⟩
      · rw [heq] at h
        exact .inl (origin_of_mem_redeclare h)
      · rw [heq] at h
        obtain hold | hnew := List.mem_append.mp h
        · exact .inl ⟨s, hold, rfl, rfl, rfl⟩
        · obtain rfl := List.mem_singleton.mp hnew
          exact .inr ⟨how, rfl, rfl⟩

/-- Along a walk that starts with no symbols, every one comes from an introduction. -/
theorem origin_of_mem_walk {events : List ScopeEvent} {w : ScopeWalk} {s : Symbol}
    (h : s ∈ (events.foldl step w).found.symbols) :
    (∃ s' ∈ w.found.symbols, s'.SameOrigin s)
      ∨ ∃ how, .introduce s.name s.span how ∈ events ∧ how.value = s.value := by
  induction events generalizing w with
  | nil => exact .inl ⟨s, h, rfl, rfl, rfl⟩
  | cons e events ih =>
      rcases ih h with ⟨s', hs', hname, hspan, hvalue⟩ | ⟨how, hmem, hvalue⟩
      · rcases origin_of_mem_step hs' with ⟨s'', hs'', hsame⟩ | ⟨how, rfl, hvalue'⟩
        · exact .inl ⟨s'', hs'', hsame.1.trans hname, hsame.2.1.trans hspan,
            hsame.2.2.trans hvalue⟩
        · rw [hname, hspan]
          exact .inr ⟨how, List.mem_cons_self, hvalue'.trans hvalue⟩
      · exact .inr ⟨how, List.mem_cons_of_mem _ hmem, hvalue⟩

end ScopeWalk

namespace Bindings

/-- The initial value of a symbol of a program is that of a declarator, in whose pattern the symbol
was first declared. -/
theorem initializes_of_value {tree : Node} {s : Symbol} {v : Node}
    (hs : s ∈ (ofProgram tree).symbols) (hv : s.value = some v) :
    tree.Initializes s.name s.span v := by
  rcases ScopeWalk.origin_of_mem_walk hs with ⟨s', hs', -⟩ | ⟨how, hmem, hvalue⟩
  · exact absurd hs' List.not_mem_nil
  · rcases ScopeEvent.initializes_of_introduce hmem (hvalue.trans hv) with ⟨h, -⟩ | h
    · cases h
    · exact h

/-- The initial value of a symbol of a program is a part of the program. -/
theorem value_mem_parts {tree : Node} {s : Symbol} {v : Node}
    (hs : s ∈ (ofProgram tree).symbols) (hv : s.value = some v) : v ∈ tree.parts := by
  obtain ⟨own, pattern, hmem, -⟩ := initializes_of_value hs hv
  refine Node.mem_parts_trans ?_ hmem
  exact Node.mem_parts_node.mpr (.inr ⟨v, by simp, Node.self_mem_parts v⟩)

end Bindings

end Graft
