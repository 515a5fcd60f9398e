import Graft.Proofs.Scope.Segment
/-!
Statements at the end of a program that declare nothing.

When the last statement of a program is over, the scope of the program is still open, and it alone
(`ScopeWalk.exists_scope`). What follows and only reads names adds uses that wait in that scope, so
the program with it has the symbols and declarations of the program without it, and more uses that
read (`Bindings.readsMore_of_append`).
-/
namespace Graft

namespace ScopeWalk

/-- The scopes that are open after an event. -/
theorem map_isWide_step {w : ScopeWalk} {e : ScopeEvent} {fs : List Bool}
    (h : ScopeEvent.flags (w.opened.map (·.isWide)) e = some fs) :
    (step w e).opened.map (·.isWide) = fs := by
  -- what the flags say of each event is what the step does to the open scopes
  cases e with
  | enter isWide => exact Option.some.inj h
  | use name start isWrite =>
      cases hw : w.opened with
      | nil =>
          rw [step_use_nil hw, hw]
          rw [hw] at h
          exact Option.some.inj h
      | cons s outer =>
          rw [step_use_cons hw]
          rw [hw] at h
          exact Option.some.inj h
  | leave =>
      -- a scope is left for the one around it; the outermost is never left
      match hw : w.opened with
      | [] =>
          rw [hw] at h
          cases h
      | [s] =>
          rw [step_leave_last hw]
          rw [hw] at h
          exact Option.some.inj h
      | s :: t :: outer =>
          rw [step_leave_cons hw]
          rw [hw] at h
          exact Option.some.inj h
  | introduce name span how =>
      simp only [ScopeEvent.flags] at h
      split at h
      -- an introduction touches the nearest scopes only, and keeps their shape
      case isTrue hfits =>
        obtain ⟨near, n, hopened, hshape, -⟩ := step_introduce_of_fits name span
          (List.append_nil w.opened).symm hfits
        rw [hopened, List.append_nil]
        have hflags : near.map (·.isWide) = w.opened.map (·.isWide) := by
          have := congrArg (List.map Prod.fst) hshape
          simpa [shape, Function.comp_def] using this
        exact hflags.trans (Option.some.inj h)
      case isFalse => cases h

/-- After a row of events the scopes that are open are as wide as the events say. -/
theorem map_isWide_walk {events : List ScopeEvent} {w : ScopeWalk} {fs : List Bool}
    (h : events.foldlM ScopeEvent.flags (w.opened.map (·.isWide)) = some fs) :
    (events.foldl step w).opened.map (·.isWide) = fs := by
  induction events generalizing w with
  | nil => exact Option.some.inj h
  | cons e events ih =>
      obtain ⟨fs₁, he, hes⟩ := Option.bind_eq_some_iff.mp h
      refine ih ?_
      rw [map_isWide_step he]
      exact hes

/-- After all statements of a program only the scope of the program is open. -/
theorem exists_scope (children : List Node) :
    ∃ s found, (ScopeEvent.all (children.map fun k => (k, k.fold ScopeEvent.algebra))
        (ScopeEvent.plain .near)).foldl step (step start (.enter true)) = ⟨[s], found⟩ := by
  have hflags := map_isWide_walk (w := step start (.enter true))
    (ScopeEvent.encloses_wide_all [] children (ScopeEvent.plain .near))
  generalize (ScopeEvent.all (children.map fun k => (k, k.fold ScopeEvent.algebra))
    (ScopeEvent.plain .near)).foldl step (step start (.enter true)) = w at hflags
  obtain ⟨opened, found⟩ := w
  obtain ⟨s, rfl, -⟩ := List.map_eq_singleton_iff.mp hflags
  exact ⟨s, found, rfl⟩

/-- What settles and what moves of two rows of uses. -/
theorem settle_append (s : OpenScope) (us vs : List WaitingUse) :
    (settle { s with waiting := us ++ vs }).1
        = (settle { s with waiting := us }).1 ++ (settle { s with waiting := vs }).1
      ∧ (settle { s with waiting := us ++ vs }).2
        = (settle { s with waiting := us }).2 ++ (settle { s with waiting := vs }).2 :=
  ⟨List.filterMap_append, List.filter_append us vs⟩

end ScopeWalk

namespace Bindings

/-- Whether bindings are those of another program but for some uses at some offsets that only
read. -/
structure ReadsMore (b b' : Bindings) (starts : List Nat) : Prop where
  symbols : b'.symbols = b.symbols
  declared : b'.declared = b.declared
  uses : ∃ us vs more more', b.uses = us ++ vs ∧ b'.uses = (more ++ us) ++ (more' ++ vs)
    ∧ (∀ u ∈ more ++ more', u.start ∈ starts) ∧ ∀ u ∈ more ++ more', u.isWrite = false

section

variable {b b' : Bindings} {starts : List Nat} (h : ReadsMore b b' starts)
include h

/-- What is used elsewhere is what it was. -/
theorem ReadsMore.useAt?_eq {start : Nat} (hstart : start ∉ starts) :
    b'.useAt? start = b.useAt? start := by
  obtain ⟨us, vs, more, more', hb, hb', hstarts, -⟩ := h.uses
  have hnone : ∀ us : List Use, us ⊆ more ++ more' →
      us.find? (fun u => u.start == start) = none := fun us hsub =>
    List.find?_eq_none.mpr fun u hu heq =>
      hstart (beq_iff_eq.mp heq ▸ hstarts u (hsub hu))
  simp only [useAt?, hb, hb', List.find?_append, hnone more (List.subset_append_left ..),
    hnone more' (List.subset_append_right ..), Option.none_or]

/-- A program that is read more is written no more. -/
theorem ReadsMore.isWritten_eq (n : Nat) : b'.isWritten n = b.isWritten n := by
  obtain ⟨us, vs, more, more', hb, hb', -, hreads⟩ := h.uses
  have hnone : ∀ us : List Use, us ⊆ more ++ more' →
      us.any (fun u => u.symbol == some n && u.isWrite) = false := fun us hsub =>
    List.any_eq_false.mpr fun u hu => by simp [hreads u (hsub hu)]
  simp only [isWritten, hb, hb', List.any_append, hnone more (List.subset_append_left ..),
    hnone more' (List.subset_append_right ..), Bool.false_or]

/-- What is read more is used at least as often. -/
theorem ReadsMore.useCount_le (n : Nat) : b.useCount n ≤ b'.useCount n := by
  obtain ⟨us, vs, more, more', hb, hb', -, -⟩ := h.uses
  simp only [useCount, hb, hb', List.countP_append]
  omega

end

/-- Statements that only read add uses to a program and nothing else. `news` are the uses that wait
when they are over. -/
theorem readsMore_of_append {line line' : Option String} {span span' : Span}
    {children more : List Node} {news : List WaitingUse}
    (hmore : ∀ (s : OpenScope) (found : Bindings),
      (ScopeEvent.all (more.map fun k => (k, k.fold ScopeEvent.algebra))
        (ScopeEvent.plain .near)).foldl ScopeWalk.step ⟨[s], found⟩
        = ⟨[{ s with waiting := news ++ s.waiting }], found⟩)
    (hreads : ∀ u ∈ news, u.isWrite = false) :
    ReadsMore (ofProgram (.node (.program line) span children))
      (ofProgram (.node (.program line') span' (children ++ more)))
      (news.map WaitingUse.start) := by
  have hevents : ∀ (line : Option String) span children,
      ScopeEvent.ofProgram (.node (.program line) span children)
        = .enter true :: (ScopeEvent.all (children.map fun k => (k, k.fold ScopeEvent.algebra))
            (ScopeEvent.plain .near) ++ [.leave]) := by
    intro line span children
    rw [ScopeEvent.ofProgram, Node.fold_node]
    rfl
  obtain ⟨s, found, hscope⟩ := ScopeWalk.exists_scope children
  have hold : ofProgram (.node (.program line) span children)
      = (ScopeWalk.step ⟨[s], found⟩ .leave).found := by
    rw [ofProgram, hevents, List.foldl_cons, List.foldl_append, hscope]
    rfl
  have hnew : ofProgram (.node (.program line') span' (children ++ more))
      = (ScopeWalk.step ⟨[{ s with waiting := news ++ s.waiting }], found⟩ .leave).found := by
    have hall : ScopeEvent.all ((children ++ more).map fun k => (k, k.fold ScopeEvent.algebra))
        (ScopeEvent.plain .near)
        = ScopeEvent.all (children.map fun k => (k, k.fold ScopeEvent.algebra))
            (ScopeEvent.plain .near)
          ++ ScopeEvent.all (more.map fun k => (k, k.fold ScopeEvent.algebra))
            (ScopeEvent.plain .near) := by
      simp [ScopeEvent.all]
    rw [ofProgram, hevents, List.foldl_cons, hall, List.foldl_append, List.foldl_append, hscope,
      hmore]
    rfl
  rw [hold, hnew, ScopeWalk.step_leave_last rfl, ScopeWalk.step_leave_last rfl]
  -- the new uses settle or move by themselves, ahead of those that waited before
  obtain ⟨hsettled, hmoving⟩ := ScopeWalk.settle_append s news s.waiting
  let global : WaitingUse → Use := fun u => ⟨u.start, u.isWrite, none⟩
  refine ⟨rfl, rfl, (ScopeWalk.settle s).2.map global, (ScopeWalk.settle s).1 ++ found.uses,
    (ScopeWalk.settle { s with waiting := news }).2.map global,
    (ScopeWalk.settle { s with waiting := news }).1, ?_, ?_, ?_, ?_⟩
  · exact List.append_assoc ..
  · rw [hsettled, hmoving, List.map_append]
    simp only [List.append_assoc]
    rfl
  all_goals
    intro u hu
    have hnews : ∃ a ∈ news, u.start = a.start ∧ u.isWrite = a.isWrite := by
      rcases List.mem_append.mp hu with hu | hu
      · obtain ⟨a, ha, rfl⟩ := List.mem_map.mp hu
        exact ⟨a, (List.mem_filter.mp ha).1, rfl, rfl⟩
      · obtain ⟨a, ha, hlookup⟩ := List.mem_filterMap.mp hu
        obtain ⟨n, -, rfl⟩ := Option.map_eq_some_iff.mp hlookup
        exact ⟨a, ha, rfl, rfl⟩
    obtain ⟨a, ha, hstart, hwrite⟩ := hnews
  · exact hstart ▸ List.mem_map_of_mem ha
  · exact hwrite.trans (hreads a ha)

end Bindings

end Graft
