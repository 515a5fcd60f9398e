import Graft.Proofs.Origin.Gate
import Graft.Proofs.Plan.Alike
import Graft.Proofs.Scope.Append
/-!
Statements at the end of a program that give the planner nothing to do.

A statement that declares nothing and assigns to no name only adds uses to those of the program
before it. If in itself it gives the planner nothing to decide (`Node.Bystander`), then the planner
has nothing to do in the program with it where it has nothing to do in the program without it: what
is used was used before, and no more names are unused (`isEmpty_planEdits_append`).
-/
namespace Graft

namespace Survey

open Node

/-- A program of which another one only reads more is echoed by it, node by node. -/
theorem echo_of_readsMore {t u : Node} {starts : List Nat}
    (h : Bindings.ReadsMore (.ofProgram t) (.ofProgram u) starts)
    (hapart : ∀ n ∈ t.parts, n.isIdentifier = true → n.span.start ∉ starts)
    (config : TransformConfig) (plugin : String) :
    Echo (onProgram config plugin t) (onProgram config plugin u)
      (fun m n => m = n ∧ m ∈ t.parts) where
  form hE := congrArg (fun n => n.form.mapText id) hE.1
  children {m n} hE := by
    obtain ⟨rfl, hm⟩ := hE
    exact List.forall₂_same.mpr fun k hk => ⟨rfl, mem_parts_trans (child_mem_parts hk) hm⟩
  config := rfl
  plugin := rfl
  host := rfl
  -- an identifier of the first tree starts at none of the new places, so its use is the same one
  use {m n} hE hname := by
    obtain ⟨rfl, hm⟩ := hE
    exact congrArg (Option.bind · Use.symbol) (h.useAt?_eq (hapart m hm hname))
  isGlobal {m n} hE hname := by
    obtain ⟨rfl, hm⟩ := hE
    exact congrArg (Option.any fun u => u.symbol.isNone) (h.useAt?_eq (hapart m hm hname))
  name {m n} hE _ := by
    obtain ⟨rfl, -⟩ := hE
    exact congrArg (List.lookup m.span.start) h.declared
  access hE hE' _ _ := by
    obtain ⟨rfl, -⟩ := hE
    obtain ⟨rfl, -⟩ := hE'
    exact Iff.rfl
  length := congrArg List.length h.symbols
  -- the symbols and the writes are shared, and with them every value that lasts
  value k := by
    have hsame : Origin.lastingValue? ⟨config.host, .ofProgram u⟩ k
        = Origin.lastingValue? ⟨config.host, .ofProgram t⟩ k := by
      simp only [Origin.lastingValue?, h.symbols, h.isWritten_eq]
    show Option.Rel _ (Origin.lastingValue? ⟨config.host, .ofProgram t⟩ k)
      (Origin.lastingValue? ⟨config.host, .ofProgram u⟩ k)
    rw [hsame]
    cases hvalue : Origin.lastingValue? ⟨config.host, .ofProgram t⟩ k with
    | none => exact .none
    | some value =>
        exact .some ⟨rfl, Origin.lastingValue_mem_parts (Origin.staysIn_ofProgram _ t) hvalue⟩
  count := h.useCount_le

end Survey

namespace Node

/-- A statement that only reads names, and that gives the planner nothing to decide. -/
structure Bystander (n : Node) : Prop where
  /-- What it uses waits in the scope around it. -/
  waits : ∃ news : List WaitingUse,
    (∀ (s : OpenScope) (found : Bindings),
      (n.fold ScopeEvent.algebra (ScopeEvent.plain .near)).foldl ScopeWalk.step ⟨[s], found⟩
        = ⟨[{ s with waiting := news ++ s.waiting }], found⟩)
    ∧ ∀ u ∈ news, u.isWrite = false ∧ ∃ k ∈ n.parts, k.key? = some (.use u.start)
  inert : ∀ w : Survey, w.Inert n

/-- The keys in a program are those of its statements. -/
theorem keyed_program {line : Option String} {span : Span} {ks : List Node} :
    (node (.program line) span ks).Keyed ↔ ((ks.flatMap parts).filterMap key?).Nodup := by
  rw [Keyed, parts_node, List.filterMap_cons_none rfl]

end Node

open Node in
/-- Where the planner has nothing to do, it has nothing to do with a bystander at the end. -/
theorem isEmpty_planEdits_append {config : TransformConfig} {plugin : String}
    {line line' : Option String} {span span' : Span} {ks : List Node} {n : Node}
    (hkeyed : (node (.program line') span' (ks ++ [n])).Keyed) (hn : n.Bystander)
    (hidle : (planEdits config plugin (.node (.program line) span ks)).1.isEmpty = true) :
    (planEdits config plugin (.node (.program line') span' (ks ++ [n]))).1.isEmpty = true := by
  obtain ⟨news, hwaits, hnews⟩ := hn.waits
  have hmore : Bindings.ReadsMore (.ofProgram (node (.program line) span ks))
      (.ofProgram (node (.program line') span' (ks ++ [n]))) (news.map WaitingUse.start) :=
    Bindings.readsMore_of_append
      (fun s found => by rw [← hwaits s found]; exact congrArg _ (List.append_nil _))
      fun u hu => (hnews u hu).1
  -- a use of the new statement is at no place of the others
  rw [keyed_program, List.flatMap_append, List.filterMap_append, List.nodup_append] at hkeyed
  have hapart : ∀ m ∈ (node (.program line) span ks).parts, m.isIdentifier = true →
      m.span.start ∉ news.map WaitingUse.start := by
    intro m hm hname hstart
    obtain ⟨u, hu, heq⟩ := List.mem_map.mp hstart
    obtain ⟨-, k, hk, hkey⟩ := hnews u hu
    have hkeym := key?_of_isIdentifier hname
    rw [parts_node] at hm
    rcases List.mem_cons.mp hm with rfl | hm
    · cases hname
    · refine hkeyed.2.2 _ (List.mem_filterMap.mpr ⟨m, hm, hkeym⟩) _
        (List.mem_filterMap.mpr ⟨k, List.mem_flatMap.mpr ⟨n, List.mem_singleton.mpr rfl, hk⟩,
          hkey⟩) ?_
      rw [heq]
  refine (Survey.echo_of_readsMore hmore hapart config plugin).isEmpty_planEdits
    (List.forall₂_same.mpr fun k hk => ⟨rfl, ?_⟩) (fun k hk => ?_) hidle
  · rw [parts_node]
    exact List.mem_cons_of_mem _ (List.mem_flatMap.mpr ⟨k, hk, self_mem_parts k⟩)
  · obtain rfl := List.mem_singleton.mp hk
    exact hn.inert _

open Node in
/-- Where the planner has nothing to do, it has nothing to do in a program that is alike. -/
theorem isEmpty_planEdits_alike {config : TransformConfig} {plugin : String}
    {line line' : Option String} {span span' : Span} {ks js : List Node}
    (ht : (node (.program line) span ks).Keyed) (hu : (node (.program line') span' js).Keyed)
    (h : (node (.program line) span ks).Alike (node (.program line') span' js))
    (hidle : (planEdits config plugin (.node (.program line) span ks)).1.isEmpty = true) :
    (planEdits config plugin (.node (.program line') span' js)).1.isEmpty = true := by
  have hecho := Survey.echo_of_alike ht hu h config plugin
  rw [← List.append_nil js] at hecho ⊢
  refine hecho.isEmpty_planEdits ?_ (fun k hk => absurd hk List.not_mem_nil) hidle
  rw [List.append_nil]
  exact (SamePlace.self ht hu (alikeBy_id_iff.mpr h)).children

end Graft
