import Graft.Proofs.Tree.Parts
/-!
How the events of a node are put together.

The rules for events tell many forms of node apart, but they build only two kinds of row: a use or
an introduction of the node's own, and the events of all children, one after the other, the last
ones possibly inside a scope (`ScopeEvent.algebra_layers`). What holds of every event, of the uses
in order or of the names introduced is read off that one fact.
-/
namespace Graft

namespace ScopeEvent

/-- A child with the way in which its names are introduced. -/
abbrev Told := Child Meaning × Introduction

/-- The events of some children, one after the other. -/
def told (children : List Told) : List ScopeEvent := children.flatMap fun p => p.1.2 p.2

/-- Whether the way in which a child's names are introduced brings no value but that of the node
itself or, in the pattern of a declarator, the initial value. -/
def Told.IsFrom (form : Form) (how : Introduction) (children : List (Child Meaning)) (p : Told) :
    Prop :=
  p.2.value = none ∨ p.2.value = how.value
    ∨ ∃ value, form = .declarator ∧ children = [p.1, value] ∧ value.1.isAbsent = false
        ∧ p.2.value = some value.1

/-- The two ways in which the events of the children follow each other. -/
def Layered (form : Form) (how : Introduction) (children : List (Child Meaning))
    (events : List ScopeEvent) : Prop :=
  ∃ before inside : List Told,
    children = (before ++ inside).map Prod.fst
      ∧ (∀ p ∈ before ++ inside, p.IsFrom form how children)
      ∧ ((inside = [] ∧ events = told before)
        ∨ ∃ isWide, events = told before ++ inScope isWide (told inside))

theorem all_eq_told (children : List (Child Meaning)) (how : Introduction) :
    all children how = told (children.map fun c => (c, how)) := by
  simp [all, told, List.flatMap_map]

theorem map_fst_alike (children : List (Child Meaning)) (how : Introduction) :
    (children.map fun c => ((c, how) : Told)).map Prod.fst = children := by
  simp [Function.comp_def]

/-- Children that are all told the same, with no scope around them. -/
theorem layered_all {form : Form} {how how' : Introduction} {children : List (Child Meaning)}
    (hv : how'.value = none ∨ how'.value = how.value) :
    Layered form how children (all children how') := by
  refine ⟨children.map fun c => (c, how'), [], ?_, ?_, .inl ⟨rfl, all_eq_told ..⟩⟩
  · rw [List.append_nil, map_fst_alike]
  · intro p hp
    simp only [List.append_nil, List.mem_map] at hp
    obtain ⟨c, -, rfl⟩ := hp
    rcases hv with h | h
    · exact .inl h
    · exact .inr (.inl h)

/-- Children in a scope, told to introduce names plainly. -/
theorem layered_inScope {form : Form} {how : Introduction} {children : List (Child Meaning)}
    {isWide : Bool} : Layered form how children (inScope isWide (all children (plain .near))) := by
  refine ⟨[], children.map fun c => (c, plain .near), ?_, ?_, .inr ⟨isWide, ?_⟩⟩
  · rw [List.nil_append, map_fst_alike]
  · intro p hp
    simp only [List.nil_append, List.mem_map] at hp
    obtain ⟨c, -, rfl⟩ := hp
    exact .inl rfl
  · rw [all_eq_told]
    rfl

/-- One child before a scope with the others. -/
theorem layered_head_inScope {form : Form} {how how' : Introduction} {c : Child Meaning}
    {rest : List (Child Meaning)} {isWide : Bool}
    (hv : how'.value = none ∨ how'.value = how.value) :
    Layered form how (c :: rest) (c.2 how' ++ inScope isWide (all rest (plain .near))) := by
  refine ⟨[(c, how')], rest.map fun c => (c, plain .near), ?_, ?_, .inr ⟨isWide, ?_⟩⟩
  · rw [List.map_append, map_fst_alike]
    rfl
  · intro p hp
    simp only [List.singleton_append, List.mem_cons, List.mem_map] at hp
    rcases hp with rfl | ⟨d, -, rfl⟩
    · rcases hv with h | h
      · exact .inl h
      · exact .inr (.inl h)
    · exact .inl rfl
  · rw [all_eq_told]
    simp [told]

/-- How the events of a node are put together. -/
theorem algebra_layers (form : Form) (span : Span) (children : List (Child Meaning))
    (how : Introduction) :
    (∃ name, form = .identifier name
        ∧ algebra form span children how = [.use name span.start false])
      ∨ (∃ name target, form = .place ∧ children = [target] ∧ target.1.form = .identifier name
          ∧ algebra form span children how = [.use name target.1.span.start true])
      ∨ (∃ name, form = .binding name
          ∧ algebra form span children how = [.introduce name span how])
      ∨ Layered form how children (algebra form span children how) := by
  unfold algebra
  split
  case h_1 => exact .inl ⟨_, rfl, rfl⟩
  case h_2 target inner =>
    split
    case h_1 name heq => exact .inr (.inl ⟨name, _, rfl, rfl, heq, rfl⟩)
    case h_2 =>
      refine .inr (.inr (.inr ?_))
      have h : Layered .place how [(target, inner)] (all [(target, inner)] how) :=
        layered_all (.inr rfl)
      simpa [all] using h
  case h_3 => exact .inr (.inr (.inl ⟨_, rfl, rfl⟩))
  -- a function bears its name inside of its own scope
  case h_4 name rest =>
    refine .inr (.inr (.inr ⟨[], (name, plain .own) :: rest.map fun c => (c, plain .near),
      ?_, ?_, .inr ⟨true, ?_⟩⟩))
    · rw [List.nil_append, List.map_cons, map_fst_alike]
    · intro p hp
      simp only [List.nil_append, List.mem_cons, List.mem_map] at hp
      rcases hp with rfl | ⟨c, -, rfl⟩
      · exact .inl rfl
      · exact .inl rfl
    · rw [all_eq_told]
      simp [told]
  case h_5 => exact .inr (.inr (.inr (layered_head_inScope (.inl rfl))))
  case h_7 => exact .inr (.inr (.inr (layered_head_inScope (.inr rfl))))
  case h_10 => exact .inr (.inr (.inr (layered_head_inScope (.inl rfl))))
  case h_17 => exact .inr (.inr (.inr (layered_head_inScope (.inr rfl))))
  case h_18 kind => exact .inr (.inr (.inr (layered_all (.inl rfl))))
  -- only the pattern of a declarator is told its initial value
  case h_19 pattern value =>
    refine .inr (.inr (.inr ⟨[(pattern, ⟨how.reach, if value.1.isAbsent then none else
      some value.1⟩), (value, plain .near)], [], rfl, ?_, .inl ⟨rfl, ?_⟩⟩))
    · intro p hp
      simp only [List.append_nil, List.mem_cons, List.not_mem_nil, or_false] at hp
      rcases hp with rfl | rfl
      · by_cases h : value.1.isAbsent = true
        · exact .inl (if_pos h)
        · exact .inr (.inr ⟨value, rfl, rfl, eq_false_of_ne_true h, if_neg h⟩)
      · exact .inl rfl
    · simp [told]
  case h_20 => exact .inr (.inr (.inr (layered_all (.inl rfl))))
  case h_21 => exact .inr (.inr (.inr (layered_all (.inr rfl))))
  -- all other forms open a scope around their last children, or none
  all_goals exact .inr (.inr (.inr layered_inScope))

end ScopeEvent

end Graft
