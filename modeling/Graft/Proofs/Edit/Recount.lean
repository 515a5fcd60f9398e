import Graft.Proofs.Edit.Elision
/-!
The counts of the first walk and those of the program without the statements that it removes.

The first walk lowers the counts of a program for every use that goes away with a statement, and the
second walk goes by what is left of them. That is as good as counting anew: every name that stands
outside of the statements is used in the program without them as often as its count says
(`planEdits_recounted`).

- The uses that a statement gives up are those that its segment of the events takes along
  (`released_eq`), so what is left are the uses among the events of the rest.
- They are all different, for no statement that goes away stands inside of another. So no count is
  lowered that is at zero already (`released_positive`), and lowering by one is taking one
  away.
- A name that stands outside of the statements has a symbol that stays, and the walk along the rest
  uses that symbol where the walk along the whole did, but for the uses that are gone
  (`exists_count_eq`).
-/
namespace Graft

namespace EditPlan

open Node

variable {p : EditPlan} {plugin : String} {tree : Node}

/-- The symbols that lose a use with the statements that go away, one for every such use. -/
def released (p : EditPlan) (tree : Node) : List Nat :=
  ((p.elided tree).flatMap Survey.usesIn).filterMap (Bindings.ofProgram tree).symbolOfUse?

/-- Some counts are what a program without the statements that a plan removes would count. -/
structure Recounted (p : EditPlan) (plugin : String) (tree : Node) (l : Liveness) : Prop where
  /-- The statements that go away are those that the plan names, the last one first. -/
  recorded : p.removedStatements = ((p.elided tree).map (·.span)).reverse
  /-- No statement is named twice. -/
  once : p.removedStatements.Nodup
  /-- The counts are lowered by one for every use that goes away. -/
  lowered : l = (p.released tree).foldl Liveness.release
    (Liveness.ofBindings (Bindings.ofProgram tree))
  /-- Whenever a count is lowered, it is not at zero. -/
  positive : ∀ before n after, p.released tree = before ++ n :: after →
    0 < (before.foldl Liveness.release (Liveness.ofBindings (Bindings.ofProgram tree))).count n
  /-- A name that stands in no statement that goes away declares a symbol of the rest, and the count
  of its symbol is the number of uses that the rest has of that. -/
  counts : ∀ name ∈ tree.bindings, (∀ st ∈ p.elided tree, name ∉ st.parts) →
    ∀ n, (Bindings.ofProgram tree).symbolOfName? name.span.start = some n →
      ∃ n', (Bindings.ofProgram (p.elisions.apply plugin tree).1).symbolOfName? name.span.start
          = some n'
        ∧ (Liveness.ofBindings (Bindings.ofProgram (p.elisions.apply plugin tree).1)).count n'
          = l.count n

/-- Statements that go away have different spans. -/
theorem pairwise_elided (ht : tree.WellPlaced) :
    (p.elided tree).Pairwise fun m n => m.span ≠ n.span :=
  ht.pairwise_span_ne (fun n h => isBare_eq_false_of_form (by rw [form_of_isRemoved h]; rfl))
    fun n h => by rw [form_of_isRemoved h]

/-- Statements that a plan names are all the statements that it removes. -/
theorem elided_eq {sts : List Node} (ht : tree.WellPlaced) (hsub : sts.Sublist tree.parts)
    (hform : ∀ st ∈ sts, st.form = .expressionStatement)
    (hp : p.removedStatements = (sts.map (·.span)).reverse) : p.elided tree = sts := by
  have hbare : ∀ {n : Node}, n.form = .expressionStatement → n.isBare = false := fun h =>
    isBare_eq_false_of_form (by rw [h]; rfl)
  have hremoved : ∀ st ∈ sts, p.isRemoved st = true := by
    intro st hst
    rw [isRemoved, hform st hst, hp]
    simpa using ⟨st, hst, rfl⟩
  have hle : sts.Sublist (p.elided tree) := by
    have := hsub.filter p.isRemoved
    rwa [List.filter_eq_self.mpr hremoved] at this
  have hnodup : (p.elided tree).Nodup := (pairwise_elided ht).imp fun h heq => h (by rw [heq])
  refine (hle.eq_of_length_le (hnodup.length_le_of_subset fun m hm => ?_)).symm
  -- a statement with the span of one of the list is that one
  obtain ⟨hmt, hmgoes⟩ := List.mem_filter.mp hm
  have hmform := form_of_isRemoved hmgoes
  rw [isRemoved, Bool.and_eq_true, List.contains_iff_mem, hp, List.mem_reverse] at hmgoes
  obtain ⟨st, hst, hspan⟩ := List.mem_map.mp hmgoes.2
  have hsame := ht.eq_of_span_eq (hsub.subset hst) hmt (hbare (hform st hst)) (hbare hmform) hspan
    (by rw [hform st hst, hmform])
  exact hsame ▸ hst

/-- A name of a program that stands in none of some parts starts where none of their names does. -/
theorem start_not_mem {sts : List Node} (ht : tree.WellPlaced) (hsts : ∀ st ∈ sts, st ∈ tree.parts)
    {name : Node} (hname : name ∈ tree.bindings) (houtside : ∀ st ∈ sts, name ∉ st.parts) :
    name.span.start ∉ sts.flatMap nameStarts := by
  intro hmem
  obtain ⟨st, hst, hstart⟩ := List.mem_flatMap.mp hmem
  obtain ⟨m, hm, hsame⟩ := mem_nameStarts.mp hstart
  obtain ⟨hmst, hmname⟩ := List.mem_filter.mp hm
  have hmt : m ∈ tree.bindings :=
    List.mem_filter.mpr ⟨mem_parts_trans hmst (hsts st hst), hmname⟩
  have heq := List.inj_on_of_nodup_map ht.nodup_nameStarts hmt hname hsame
  exact houtside st hst (heq ▸ hmst)

end EditPlan

open EditPlan Node

section

variable {config : TransformConfig} {plugin : String} {tree : Node}

/-- The first walk gives up the statements that go away, as the plan names them. -/
theorem planEdits_gives (config : TransformConfig) (plugin : String) (ht : tree.WellPlaced) :
    (planEdits config plugin tree).1.removedStatements
        = (((planEdits config plugin tree).1.elided tree).map (·.span)).reverse
      ∧ Survey.Gives (Bindings.ofProgram tree) [tree]
          { liveness := Liveness.ofBindings (Bindings.ofProgram tree) }
          (firstDecisions config plugin tree) ((planEdits config plugin tree).1.elided tree) := by
  obtain ⟨sts, hgives⟩ := exists_given config plugin ht
  have hrecorded : (planEdits config plugin tree).1.removedStatements
      = (sts.map (·.span)).reverse := by
    rw [planEdits_fst, (Survey.morePatterns_visitPatterns tree false _).statements]
    exact hgives.statements.trans (List.append_nil _)
  have hwithin : sts.Sublist tree.parts := by
    have := hgives.within
    rwa [List.flatMap_singleton] at this
  rw [elided_eq ht hwithin hgives.form hrecorded]
  exact ⟨hrecorded, hgives⟩

/-- What the statements that go away give up is what they use. -/
theorem released_eq {p : EditPlan} (ht : tree.WellPlaced) : p.released tree
    = ((p.elided tree).flatMap useStarts).filterMap (Bindings.ofProgram tree).symbolOfUse? := by
  have huses : ∀ st ∈ p.elided tree, Survey.usesIn st = st.useStarts := fun st hst =>
    Survey.usesIn_eq (ht.part (List.mem_filter.mp hst).1)
  rw [released, List.flatMap_def, List.flatMap_def, List.map_congr_left huses]

/-- Of the uses that are given up, each is still counted when its turn comes. -/
theorem released_positive {p : EditPlan} (ht : tree.WellPlaced)
    (hnodup : ((p.elided tree).flatMap useStarts).Nodup) {before after : List Nat} {n : Nat}
    (h : p.released tree = before ++ n :: after) :
    0 < (before.foldl Liveness.release (Liveness.ofBindings (Bindings.ofProgram tree))).count n := by
  rw [released_eq ht] at h
  have hmem : n ∈ ((p.elided tree).flatMap useStarts).filterMap
      (Bindings.ofProgram tree).symbolOfUse? := by
    rw [h]
    exact List.mem_append_right _ List.mem_cons_self
  obtain ⟨start, -, hsymbol⟩ := List.mem_filterMap.mp hmem
  have huses := Bindings.useCount_eq (Bindings.nodup_uses ht) hnodup n
  rw [h, List.count_append, List.count_cons_self] at huses
  rw [Liveness.count_releases, Liveness.count_ofBindings (Bindings.lt_of_symbolOfUse? hsymbol)]
  omega

/-- A symbol that is declared outside of the statements that go away is used in the rest as often
as the first walk counts in the end. -/
theorem exists_count_eq (ht : tree.WellPlaced) (hform : ∃ hashbang, tree.form = .program hashbang)
    {name : Node} (hname : name ∈ tree.bindings)
    (houtside : ∀ st ∈ (planEdits config plugin tree).1.elided tree, name ∉ st.parts) {n : Nat}
    (hn : (Bindings.ofProgram tree).symbolOfName? name.span.start = some n) :
    ∃ n', (Bindings.ofProgram ((planEdits config plugin tree).1.elisions.apply plugin
          tree).1).symbolOfName? name.span.start = some n'
      ∧ (Liveness.ofBindings (Bindings.ofProgram ((planEdits config plugin tree).1.elisions.apply
          plugin tree).1)).count n' = (firstDecisions config plugin tree).liveness.count n := by
  obtain ⟨-, hgives⟩ := planEdits_gives config plugin ht
  obtain ⟨gone, hcut, huses, hnames⟩ :=
    ((planEdits_madeFor config plugin ht hform).leaves_apply plugin).exists_cut
  have hstays : name.span.start ∉ gone.filterMap ScopeEvent.nameStart? := hnames ▸
    start_not_mem ht (fun st hst => (List.mem_filter.mp hst).1) hname houtside
  obtain ⟨hn', hkeeps⟩ := Bindings.symbolOfName?_of_cut ht hcut hstays hn
  have hlt : n < (Bindings.ofProgram tree).symbols.length :=
    (Bindings.valid_ofProgram tree).declared _ ((Bindings.symbolOfName?_eq_some ht).mp hn)
  have hlt' := (Bindings.left_of_cut ht hcut).1.length ▸ Cutting.number_lt hkeeps hlt
  refine ⟨_, hn', ?_⟩
  rw [Liveness.count_ofBindings hlt', Bindings.useCount_of_cut ht hcut hkeeps, huses,
    hgives.count ht hlt]

end

/-- The counts at the end of the first walk over a program are those of the program without the
statements that go away: every such statement gives up its uses once, no count is lowered that is
at zero, and every symbol that is declared elsewhere counts the uses that stay. -/
theorem planEdits_recounted {config : TransformConfig} {plugin source : String} {p : Program}
    (hp : Program.parse? source = some p) :
    (planEdits config plugin p.tree).1.Recounted plugin p.tree
      (firstDecisions config plugin p.tree).liveness := by
  have ht := Program.wellPlaced_of_parse? hp
  obtain ⟨hrecorded, hgives⟩ := planEdits_gives config plugin ht
  constructor
  case recorded => exact hrecorded
  case once =>
    rw [hrecorded]
    exact List.nodup_reverse.mpr (List.pairwise_map.mpr (pairwise_elided ht))
  case lowered => rw [released_eq ht, hgives.liveness]
  case positive =>
    intro before n after h
    have hsub := hgives.uses
    rw [List.flatMap_singleton] at hsub
    exact released_positive ht (hsub.nodup ht.nodup_useStarts) h
  case counts =>
    intro name hname houtside n hn
    exact exists_count_eq ht (Program.form_of_parse? hp) hname houtside hn

/-- A statement that goes away with a function in it, which assigns to a parameter of its own that
has the name of a variable, and another one that uses the variable. -/
theorem planEdits_recounted_of_shadowing_parameter :
    ∃ p, Program.parse? ("let {m, x} = BdApi; if (m) BdApi.getModule(function f(x) "
        ++ "\x7b x = f; m(x); \x7d); BdApi.getModule(m, x); m(x);") = some p
      ∧ (planEdits .standard "p" p.tree).1.removedStatements.length = 2
      ∧ (planEdits .standard "p" p.tree).1.released p.tree = [3, 2, 0, 3, 0, 1]
      ∧ (Liveness.ofBindings (Bindings.ofProgram p.tree)).counts = [4, 2, 1, 2]
      ∧ (firstDecisions .standard "p" p.tree).liveness.counts = [2, 1, 0, 0]
      ∧ (planEdits .standard "p" p.tree).1.Recounted "p" p.tree
          (firstDecisions .standard "p" p.tree).liveness := by
  have h : (Program.parse? ("let {m, x} = BdApi; if (m) BdApi.getModule(function f(x) "
        ++ "\x7b x = f; m(x); \x7d); BdApi.getModule(m, x); m(x);")).any
      (fun p =>
        (planEdits .standard "p" p.tree).1.removedStatements.length == 2
        && (planEdits .standard "p" p.tree).1.released p.tree == [3, 2, 0, 3, 0, 1]
        && (Liveness.ofBindings (Bindings.ofProgram p.tree)).counts == [4, 2, 1, 2]
        && (firstDecisions .standard "p" p.tree).liveness.counts == [2, 1, 0, 0]) = true := by
    decide +kernel
  obtain ⟨p, hp, h⟩ := (Option.any_eq_true _ _).mp h
  simp only [Bool.and_eq_true, beq_iff_eq] at h
  obtain ⟨⟨⟨hremoved, hreleased⟩, hbefore⟩, hafter⟩ := h
  exact ⟨p, hp, hremoved, hreleased, hbefore, hafter, planEdits_recounted hp⟩

end Graft
