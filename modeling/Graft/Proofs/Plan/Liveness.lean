import Mathlib.Data.List.Nodup
import Graft.Proofs.Plan.Grounds
import Graft.Proofs.Scope.Words
/-!
What the counts of the first walk say.

The first walk gives up the uses in the statements that it removes, each of them once
(`Survey.visit_gives`): it goes no further into such a statement, so no statement that it removes is
inside of another. The counts start at the numbers of uses and are lowered by what is given up, so
they are the numbers of the uses that stand elsewhere (`Survey.Gives.count`).

It follows that a symbol that counts as unused has all its uses in statements that go away
(`planEdits_removes_use`). That is all that the second walk relies on when it takes a name out of a
pattern.
-/
namespace Graft

namespace Liveness

/-- To give up a use lowers the count of its symbol by one and leaves the others. -/
theorem count_release (l : Liveness) (m n : Nat) :
    (l.release m).count n = if m = n then l.count n - 1 else l.count n := by
  simp only [count, release, List.getElem?_modify]
  cases l.counts[n]? with
  | none => simp
  | some c => split <;> rfl

/-- Giving up some uses lowers the count of a symbol by the number of times it is among them. -/
theorem count_releases (l : Liveness) (ms : List Nat) (n : Nat) :
    (ms.foldl release l).count n = l.count n - ms.count n := by
  induction ms generalizing l with
  | nil => rfl
  | cons m ms ih =>
      rw [List.foldl_cons, ih, count_release, List.count_cons]
      by_cases h : m = n
      · simp [h]
        omega
      · simp [h]

/-- At the start a symbol counts its uses. -/
theorem count_ofBindings {b : Bindings} {n : Nat} (h : n < b.symbols.length) :
    (ofBindings b).count n = b.useCount n := by
  simp [count, ofBindings, h]

end Liveness

namespace Bindings

/-- The uses of a symbol at some offsets. -/
theorem count_symbolOfUse? {b : Bindings} (hb : (b.uses.map Use.start).Nodup) {starts : List Nat}
    (h : starts.Nodup) (n : Nat) : (starts.filterMap b.symbolOfUse?).count n
      = b.uses.countP fun u => u.symbol == some n && starts.contains u.start := by
  have hcount : (starts.filterMap b.symbolOfUse?).count n
      = (starts.filter fun start => b.symbolOfUse? start == some n).length := by
    rw [List.count, List.countP_filterMap, List.countP_eq_length_filter]
    congr 1
    refine List.filter_congr fun start _ => ?_
    cases b.symbolOfUse? start <;> rfl
  have hlength : (b.uses.countP fun u => u.symbol == some n && starts.contains u.start)
      = ((b.uses.filter fun u => u.symbol == some n && starts.contains u.start).map
          Use.start).length := by
    rw [List.countP_eq_length_filter, List.length_map]
  rw [hcount, hlength]
  -- both are lists of offsets without repetition, and have the same offsets
  refine List.Perm.length_eq ((List.perm_ext_iff_of_nodup (h.filter _)
    ((List.filter_sublist.map _).nodup hb)).mpr fun start => ?_)
  rw [List.mem_filter, List.mem_map]
  constructor
  · rintro ⟨hstart, hsymbol⟩
    obtain ⟨u, hu, hsome⟩ := Option.bind_eq_some_iff.mp (beq_iff_eq.mp hsymbol)
    have heq : u.start = start := by simpa using List.find?_some hu
    refine ⟨u, List.mem_filter.mpr ⟨List.mem_of_find?_eq_some hu, ?_⟩, heq⟩
    simp [hsome, heq, hstart]
  · rintro ⟨u, hu, rfl⟩
    obtain ⟨hmem, hboth⟩ := List.mem_filter.mp hu
    rw [Bool.and_eq_true, beq_iff_eq, List.contains_iff_mem] at hboth
    refine ⟨hboth.2, ?_⟩
    -- the use that is found at its offset is the use itself
    have hfind : b.useAt? u.start = some u := by
      cases hfound : b.useAt? u.start with
      | none =>
          have hnone := List.find?_eq_none.mp hfound u hmem
          simp at hnone
      | some u' =>
          have hstart : u'.start = u.start := by simpa using List.find?_some hfound
          exact congrArg some
            (List.inj_on_of_nodup_map hb (List.mem_of_find?_eq_some hfound) hmem hstart)
    rw [symbolOfUse?, hfind]
    simp [hboth.1]

/-- Of the uses of a symbol those at some offsets, and the others. -/
theorem useCount_eq {b : Bindings} (hb : (b.uses.map Use.start).Nodup) {starts : List Nat}
    (h : starts.Nodup) (n : Nat) : b.useCount n = (starts.filterMap b.symbolOfUse?).count n
      + b.uses.countP fun u => u.symbol == some n && !starts.contains u.start := by
  rw [count_symbolOfUse? hb h, useCount,
    List.countP_eq_countP_filter_add _ _ fun u => starts.contains u.start, List.countP_filter,
    List.countP_filter]

end Bindings

namespace Node

/-- The uses in the children are uses in the node. -/
theorem useStarts_node (form : Form) (span : Span) (children : List Node) :
    (children.flatMap useStarts).Sublist (node form span children).useStarts := by
  rw [useStarts, identifiers, parts_node, List.filter_cons, List.filter_flatMap]
  have heq : children.flatMap useStarts
      = (children.flatMap fun k => k.parts.filter isIdentifier).map (·.span.start) := by
    rw [List.map_flatMap]
    rfl
  rw [heq]
  split
  · exact List.sublist_cons_self ..
  · exact List.Sublist.refl _

end Node

namespace Survey

open Node

/-- What the first walk gives up on its way from `d` to `d'` over some nodes: some statements of
theirs, in order, with all uses in them, and no use twice. -/
structure Gives (b : Bindings) (nodes : List Node) (d d' : Decisions) (sts : List Node) : Prop where
  liveness : d'.liveness
    = ((sts.flatMap useStarts).filterMap b.symbolOfUse?).foldl Liveness.release d.liveness
  statements : d'.plan.removedStatements
    = (sts.map (·.span)).reverse ++ d.plan.removedStatements
  within : sts.Sublist (nodes.flatMap parts)
  uses : (sts.flatMap useStarts).Sublist (nodes.flatMap useStarts)
  form : ∀ st ∈ sts, st.form = .expressionStatement

/-- A step that removes no statement gives up nothing. -/
theorem Gives.nothing {b : Bindings} {nodes : List Node} {d d' : Decisions}
    (hl : d'.liveness = d.liveness)
    (hs : d'.plan.removedStatements = d.plan.removedStatements) : Gives b nodes d d' [] :=
  ⟨hl, hs, List.nil_sublist _, List.nil_sublist _, nofun⟩

/-- Two walks one after the other give up what the first gives up, then what the second does. -/
theorem Gives.append {b : Bindings} {ms ns : List Node} {d d' d'' : Decisions}
    {sts sts' : List Node} (h : Gives b ms d d' sts) (h' : Gives b ns d' d'' sts') :
    Gives b (ms ++ ns) d d'' (sts ++ sts') where
  liveness := by
    rw [h'.liveness, h.liveness, List.flatMap_append, List.filterMap_append, List.foldl_append]
  statements := by
    rw [h'.statements, h.statements, List.map_append, List.reverse_append, List.append_assoc]
  within := List.flatMap_append .. ▸ h.within.append h'.within
  uses := by
    rw [List.flatMap_append, List.flatMap_append]
    exact h.uses.append h'.uses
  form st hst := (List.mem_append.mp hst).elim (h.form st) (h'.form st)

/-- What is given up below a node is given up in the node. -/
theorem Gives.node {b : Bindings} {form : Form} {span : Span} {children : List Node}
    {d d' : Decisions} {sts : List Node} (h : Gives b children d d' sts) :
    Gives b [.node form span children] d d' sts where
  liveness := h.liveness
  statements := h.statements
  within := by
    rw [List.flatMap_singleton, parts_node]
    exact h.within.trans (List.sublist_cons_self ..)
  uses := by
    rw [List.flatMap_singleton]
    exact h.uses.trans (useStarts_node ..)
  form := h.form

/-- What changes neither the counts nor the statements that go away is of no account. -/
theorem Gives.from {b : Bindings} {nodes : List Node} {d₀ d d' : Decisions} {sts : List Node}
    (h : Gives b nodes d d' sts) (hl : d.liveness = d₀.liveness)
    (hs : d.plan.removedStatements = d₀.plan.removedStatements) : Gives b nodes d₀ d' sts :=
  ⟨hl ▸ h.liveness, hs ▸ h.statements, h.within, h.uses, h.form⟩

variable {v : Survey}

/-- Visits that give up statements of their own children make a visit that does. -/
theorem visitAll_gives {ks : List Node} {flag : Bool}
    (h : ∀ k ∈ ks, ∀ d, ∃ sts, Gives v.origin.bindings [k] d (k.fold v.visit flag d) sts) :
    ∀ d, ∃ sts, Gives v.origin.bindings ks d
      (visitAll (ks.map fun k => (k, k.fold v.visit)) flag d) sts := by
  induction ks with
  | nil => exact fun d => ⟨[], .nothing rfl rfl⟩
  | cons k ks ih =>
      intro d
      obtain ⟨sts, hk⟩ := h k List.mem_cons_self d
      obtain ⟨sts', hks⟩ := ih (fun k' hk' => h k' (List.mem_cons_of_mem _ hk'))
        (k.fold v.visit flag d)
      exact ⟨sts ++ sts', hk.append hks⟩

/-- The names that a value uses are what a removed statement gives up. -/
theorem usesIn_eq {n : Node} (hn : n.WellPlaced) : usesIn n = n.useStarts := by
  rw [← ScopeEvent.useStarts_fold hn (ScopeEvent.plain .near)]
  rfl

/-- The first walk gives up uses in the statements that it removes, and every use once. -/
theorem visit_gives {t : Node} (ht : t.WellPlaced) :
    ∀ isValue d, ∃ sts, Gives v.origin.bindings [t] d (t.fold v.visit isValue d) sts := by
  induction t with
  | node form span children ih =>
      intro isValue d
      cases ht with
      | node fits parts =>
      have hall : ∀ flag d, ∃ sts, Gives v.origin.bindings [.node form span children] d
          (visitAll (children.map fun k => (k, k.fold v.visit)) flag d) sts := by
        intro flag d
        obtain ⟨sts, h⟩ := visitAll_gives (fun k hk d => ih k hk (parts k hk) flag d) d
        exact ⟨sts, h.node⟩
      rw [fold_node]
      rcases visit_cases v form span (children.map fun k => (k, k.fold v.visit)) isValue d with
        ⟨c, rfl, hc, -, heq⟩ | ⟨_, _, callee, arguments, chain, -, -, -, heq⟩
          | ⟨_, _, callee, arguments, -, -, -, heq⟩ | ⟨_, name, c, -, -, -, -, -, -, heq⟩ | ⟨-, heq⟩
      · obtain ⟨value, rfl, rfl⟩ := List.map_eq_singleton_iff.mp hc
        -- all names of the statement stand in its value
        have huses : (Node.node .expressionStatement span [value]).useStarts = usesIn value := by
          rw [usesIn_eq (parts value List.mem_cons_self), useStarts, useStarts, identifiers,
            parts_node, List.flatMap_singleton]
          rfl
        refine ⟨[.node .expressionStatement span [value]], ?_⟩
        rw [heq]
        refine ⟨?_, rfl, ?_, List.Sublist.refl _, ?_⟩
        · rw [List.flatMap_singleton, huses]
          rfl
        · rw [List.flatMap_singleton, List.singleton_sublist]
          exact self_mem_parts _
        · exact fun st hst => List.mem_singleton.mp hst ▸ rfl
      · exact ⟨[], heq ▸ .nothing rfl rfl⟩
      · obtain ⟨sts, h⟩ := hall true
          (d.remember (v.boundTarget? callee.1 (arguments.map Prod.fst)))
        refine ⟨sts, heq ▸ h.from ?_ (by rw [Decisions.remember_plan])⟩
        unfold Decisions.remember
        split <;> rfl
      · exact ⟨[], heq ▸ .nothing rfl rfl⟩
      · rw [heq]
        exact hall form.holdsValues d

end Survey

section

variable {config : TransformConfig} {plugin : String} {tree : Node}

/-- What the first walk over a program gives up. -/
theorem exists_given (config : TransformConfig) (plugin : String) (ht : tree.WellPlaced) :
    ∃ sts, Survey.Gives (Bindings.ofProgram tree) [tree]
    { liveness := Liveness.ofBindings (Bindings.ofProgram tree) }
    (firstDecisions config plugin tree) sts :=
  Survey.visit_gives (v := Survey.onProgram config plugin tree) ht true _

/-- The counts at the end of the first walk are those of the uses that are not given up. -/
theorem Survey.Gives.count {sts : List Node} (ht : tree.WellPlaced)
    (h : Survey.Gives (Bindings.ofProgram tree) [tree]
      { liveness := Liveness.ofBindings (Bindings.ofProgram tree) }
      (firstDecisions config plugin tree) sts) {n : Nat}
    (hn : n < (Bindings.ofProgram tree).symbols.length) :
    (firstDecisions config plugin tree).liveness.count n
      = (Bindings.ofProgram tree).uses.countP fun u =>
          u.symbol == some n && !(sts.flatMap Node.useStarts).contains u.start := by
  have hsublist : (sts.flatMap Node.useStarts).Sublist tree.useStarts := by
    have := h.uses
    rwa [List.flatMap_singleton] at this
  have huses := Bindings.useCount_eq (Bindings.nodup_uses ht)
    (hsublist.nodup ht.nodup_useStarts) n
  rw [h.liveness, Liveness.count_releases, Liveness.count_ofBindings hn, huses]
  omega

/-- A symbol that counts as unused is used in statements only that go away. -/
theorem planEdits_removes_use {n : Node} {s : Nat} (ht : tree.WellPlaced)
    (hn : n ∈ tree.identifiers)
    (huse : (Bindings.ofProgram tree).symbolOfUse? n.span.start = some s)
    (hunused : (firstDecisions config plugin tree).liveness.isUnused s = true) :
    ∃ st ∈ tree.parts, st.form = .expressionStatement
      ∧ st.span ∈ (planEdits config plugin tree).1.removedStatements ∧ n ∈ st.identifiers := by
  obtain ⟨sts, hgives⟩ := exists_given config plugin ht
  -- the use is one of those that were given up, or the count would not be nothing
  have hmem : n.span.start ∈ sts.flatMap Node.useStarts := by
    have hcount := hgives.count ht (Bindings.lt_of_symbolOfUse? huse)
    rw [show _ = 0 from beq_iff_eq.mp hunused, eq_comm, List.countP_eq_zero] at hcount
    obtain ⟨u, hu, hsymbol⟩ := Option.bind_eq_some_iff.mp huse
    have hstart : u.start = n.span.start := by simpa using List.find?_some hu
    have hnot := hcount u (List.mem_of_find?_eq_some hu)
    rw [hsymbol, hstart] at hnot
    simpa using hnot
  obtain ⟨st, hst, hstart⟩ := List.mem_flatMap.mp hmem
  have hstparts : st ∈ tree.parts := by
    have := hgives.within.subset hst
    rwa [List.flatMap_singleton] at this
  obtain ⟨m, hm, heq⟩ := Node.mem_useStarts.mp hstart
  obtain ⟨hmparts, hmid⟩ := List.mem_filter.mp hm
  have hmt : m ∈ tree.identifiers :=
    List.mem_filter.mpr ⟨Node.mem_parts_trans hmparts hstparts, hmid⟩
  refine ⟨st, hstparts, hgives.form st hst, ?_, ht.identifier_eq hmt hn heq ▸ hm⟩
  rw [planEdits_fst, (Survey.morePatterns_visitPatterns tree false _).statements]
  rw [hgives.statements, List.append_nil, List.mem_reverse]
  exact List.mem_map_of_mem hst

end

end Graft
