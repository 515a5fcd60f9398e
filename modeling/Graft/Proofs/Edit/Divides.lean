import Graft.Layout.Program
import Graft.Proofs.Edit.Counts
import Graft.Proofs.Edit.Patterns
/-!
Declarators that take values apart, after an edit.

An edit takes entries out of the patterns of declarators, and moves entries into declarators of
their own. It leaves the declarators of a program as they have to be (`planEdits_destructures`):

- Every name that is still used stands after the edit where it stood, or in a declarator directly
  after the one that it moved out of, where it is given the method of its key in the same value,
  bound to the plugin. It stands there once, and nowhere else (`EditPlan.MadeFor.survives`).
- An entry that may do something of its own, with a computed key or a default, stays in place.
- A pattern whose rest element stays keeps all its properties.
- A pattern whose declarator does not have the host for its value keeps every entry.

# The argument

A name that is still used stands in nothing that goes away (`planEdits_keeps_used`): a statement
takes along only names that are used in it, and an entry only names that count as unused. What is
put in place of such a declarator is therefore found among the declarators of the result
(`EditPlan.MadeFor.divides_of_outside`), and what it is put together from is told by the pattern:
what stays of it holds a name at the end of the way that led to it before
(`EditPlan.MadeFor.survives_inPlace`), and what moves out is the value of an entry of the pattern
itself (`EditPlan.MadeFor.survives_moved`). That the name stands nowhere else is a matter of
counting (`EditPlan.MadeFor.count_eq_one`).
-/
namespace Graft

namespace EditPlan

open Node Survey

-- ============================================================ what is to be shown

/-- Whether some use of the symbol of a name stands outside of the statements that go away. -/
def StaysUsed (p : EditPlan) (v : Survey) (tree b : Node) : Prop :=
  ∃ n ∈ tree.identifiers, (∃ s, v.origin.bindings.symbolOfUse? n.span.start = some s
      ∧ v.origin.bindings.symbolOfName? b.span.start = some s)
    ∧ ∀ st ∈ tree.parts, p.isRemoved st = true → n ∉ st.parts

/-- The declarators for names that moved out of the pattern of a declarator, each the access to its
method in a value, bound to the plugin. -/
def boundDeclarators (plugin : String) (value : Node) (moved : List (String × Node)) : List Node :=
  moved.map fun m => Node.made .declarator [m.2, (value.access m.1).boundTo plugin]

/-- Whether a declarator stands in an edited program as `front`, that is with what is left of its
pattern or not at all, and directly after it the declarators for the names that moved, with the
value as the same edit rewrote it. -/
structure Divides (p : EditPlan) (plugin : String) (tree : Node) (span : Span) (value : Node)
    (front : List Node) (moved : List (String × Node)) : Prop where
  remains : front = [] ∨ ∃ pattern' value', front = [.node .declarator span [pattern', value']]
  stands : ∃ kind own before after,
    .node (.variableDeclaration kind) own (before
        ++ (front ++ boundDeclarators plugin (p.remake plugin true value).result moved) ++ after)
      ∈ (p.apply plugin tree).1.parts

/-- How a name that stood in a pattern at the end of a way survives: in what is left of the pattern
at the end of the same way, or among the names that moved, if it was the value of a property of the
pattern itself, and the value of the declarator is a row of names that traces to the host. -/
inductive Survives (v : Survey) (span : Span) (value : Node) (path : List PatternStep) (b : Node)
    (front : List Node) (moved : List (String × Node)) : Prop
  | inPlace {pattern' value' : Node} (hfront : front = [.node .declarator span [pattern', value']])
      (h : pattern'.Holds path b)
  | moved {key : Node} {method : String} (hpath : path = [.key key]) (hkey : key.form = .key method)
      (htrace : v.origin.traces value = true) (hstatic : value.isStaticChain = true)
      (hmem : (method, b) ∈ moved)

/-- What an edit does to the declarators of a program that take values apart. -/
structure Destructures (p : EditPlan) (plugin : String) (v : Survey) (tree : Node) : Prop where
  /-- A name that is still used survives exactly once. -/
  names : ∀ {span pattern value path b}, .node .declarator span [pattern, value] ∈ tree.parts →
    pattern.Holds path b → b.isBinding = true → p.StaysUsed v tree b →
      (p.apply plugin tree).1.bindings.count b = 1
        ∧ ∃ front moved, p.Divides plugin tree span value front moved
          ∧ Survives v span value path b front moved
  /-- Every pattern of properties keeps the entries that have to stay. -/
  entries : ∀ {role span ks}, .node (.objectPattern role) span ks ∈ tree.parts →
    ∃ ks', p.KeepsEntries ks ks'
      ∧ (∀ above, p.performed plugin (.node (.objectPattern role) span ks) above
          = [.node (.objectPattern role) span ks'])
      ∧ (ks' ≠ [] → (∀ m ∈ tree.parts, .node (.objectPattern role) span ks ∈ m.parts →
            p.isRemoved m = false ∧ p.isPruned m = false) →
          .node (.objectPattern role) span ks' ∈ (p.apply plugin tree).1.parts)
  /-- A pattern keeps every entry if the value does not trace to the host. -/
  others : ∀ {span pattern value path q}, .node .declarator span [pattern, value] ∈ tree.parts →
    v.origin.traces value = false → pattern.Holds path q →
      ∀ k ∈ q.children, p.isPruned k = false ∧ p.isMoved k = false

variable {v : Survey} {l : Liveness} {tree : Node} {p : EditPlan} {span : Span}
  {pattern value b : Node} {path : List PatternStep}

namespace MadeFor

-- ============================================================ declarators in the result

/-- The value that is copied is the value as it is rewritten, for then it is a row of names. -/
theorem copies_eq (h : MadeFor v l tree p) (plugin : String) {value' : Node}
    (hd : .node .declarator span [pattern, value] ∈ tree.parts)
    (hvalue : p.performed plugin value .declarator = [value']) :
    boundDeclarators plugin value' (p.movedFrom (.node .declarator span [pattern, value]))
      = boundDeclarators plugin (p.remake plugin true value).result
        (p.movedFrom (.node .declarator span [pattern, value])) := by
  refine List.map_congr_left fun m hm => ?_
  have hstatic := h.isStaticChain_of_movedFrom hd hm
  have hstays : p.isRemoved value = false := by
    refine isRemoved_eq_false fun heq => ?_
    rcases form_of_isStaticChain hstatic with ⟨_, hform⟩ | ⟨_, _, hform⟩
    · rw [heq] at hform
      cases hform
    · rw [heq] at hform
      cases hform
  rw [h.performed_value hd hstays] at hvalue
  rw [(List.cons.inj hvalue).1]

/-- What stands in place of a declarator: itself with what is left of its pattern, unless that is
empty and the declarator goes away, and the names that move. -/
theorem performed_declarator (h : MadeFor v l tree p) (plugin : String)
    (hd : .node .declarator span [pattern, value] ∈ tree.parts) {pattern' : Node}
    (hpattern : p.performed plugin pattern .declarator = [pattern']) (above : Form) :
    ∃ front value', p.performed plugin (.node .declarator span [pattern, value]) above
        = front ++ boundDeclarators plugin (p.remake plugin true value).result
          (p.movedFrom (.node .declarator span [pattern, value]))
      ∧ (front = [.node .declarator span [pattern', value']]
        ∨ front = [] ∧ ∃ role own, pattern' = .node (.objectPattern role) own []) := by
  have hvalue : value ∈ (node .declarator span [pattern, value]).children :=
    List.mem_cons_of_mem _ List.mem_cons_self
  obtain ⟨value', hvalue'⟩ := h.exists_performed plugin hd hvalue
    (h.not_pruned_of_parent hd hvalue rfl) (h.not_moved_of_value hd).1 rfl rfl
  have hvalue' : p.performed plugin value .declarator = [value'] := hvalue'
  have hplain : Form.declarator ≠ .expressionStatement := nofun
  have hparts : Form.declarator.askAll ([pattern, value].map (p.performed plugin))
      = [pattern', value'] := by
    simp only [Form.askAll, List.map_cons, List.map_nil, List.flatMap_cons, List.flatMap_nil,
      hpattern, hvalue']
    rfl
  rw [performed_of_plain hplain rfl, hparts]
  show ∃ front value'', p.dividedInto plugin _ _ = _ ∧ _
  unfold dividedInto
  split
  case h_1 role own properties value'' heq =>
    obtain ⟨hobject, heq⟩ := List.cons.inj heq
    obtain ⟨rfl, -⟩ := List.cons.inj heq
    refine ⟨_, value', congrArg (_ ++ ·) (h.copies_eq plugin hd hvalue'), ?_⟩
    split
    case isTrue hdrops =>
      rw [Bool.and_eq_true, List.isEmpty_iff] at hdrops
      exact .inr ⟨rfl, role, own, by rw [hobject, hdrops.2]⟩
    case isFalse => exact .inl rfl
  case h_2 hno =>
    -- a pattern of properties stays one, so it was none
    have hnone : p.movedFrom (.node .declarator span [pattern, value]) = [] := by
      refine movedFrom_of_shape fun role own ks value heq => ?_
      obtain ⟨rfl, -⟩ := List.cons.inj heq
      rw [performed_objectPattern] at hpattern
      obtain ⟨rfl, -⟩ := List.cons.inj hpattern
      exact hno _ _ _ _ rfl
    rw [hnone]
    exact ⟨_, value', (List.append_nil _).symm, .inl rfl⟩

/-- A declarator that stands in nothing that goes away is divided in the result, and every
declarator that it is divided into stands there. -/
theorem divides_of_outside (h : MadeFor v l tree p) (plugin : String)
    (hd : .node .declarator span [pattern, value] ∈ tree.parts) {pattern' : Node}
    (hpattern : p.performed plugin pattern .declarator = [pattern'])
    (hout : ∀ m ∈ tree.parts, .node .declarator span [pattern, value] ∈ m.parts →
      p.isRemoved m = false ∧ p.isPruned m = false) :
    ∃ front value', (front = [.node .declarator span [pattern', value']]
        ∨ front = [] ∧ ∃ role own, pattern' = .node (.objectPattern role) own [])
      ∧ ∀ x ∈ front ++ boundDeclarators plugin (p.remake plugin true value).result
          (p.movedFrom (.node .declarator span [pattern, value])),
        p.Divides plugin tree span value front
            (p.movedFrom (.node .declarator span [pattern, value]))
          ∧ x ∈ (p.apply plugin tree).1.parts := by
  obtain ⟨kind, hstands⟩ := h.mem_declaration plugin hd hout
  obtain ⟨front, value', hparts, hfront⟩ := h.performed_declarator plugin hd hpattern
    (.variableDeclaration kind)
  refine ⟨front, value', hfront, fun x hx => ?_⟩
  rw [hparts] at hstands
  obtain ⟨own, before, after, hmem⟩ := hstands (List.ne_nil_of_mem hx)
  refine ⟨⟨?_, kind, own, before, after, hmem⟩, ?_⟩
  · rcases hfront with hfront | ⟨hfront, -⟩
    · exact .inr ⟨_, _, hfront⟩
    · exact .inl hfront
  · have hchild := List.mem_append_left after (List.mem_append_right before hx)
    exact mem_parts_trans (mem_parts_of_child hchild (self_mem_parts x)) hmem

/-- A name of the program that the result introduces is introduced there once. -/
theorem count_eq_one (h : MadeFor v l tree p) (plugin : String) (hb : b ∈ tree.bindings)
    (hmem : b ∈ (p.apply plugin tree).1.parts) :
    (p.apply plugin tree).1.bindings.count b = 1 := by
  have hle := h.count_apply_le plugin b
  have honce : tree.bindings.count b ≤ 1 :=
    List.nodup_iff_count_le_one.mp (List.Nodup.of_map _ h.wellPlaced.nodup_nameStarts) b
  have hpos : 0 < (p.apply plugin tree).1.bindings.count b :=
    List.count_pos_iff.mpr (List.mem_filter.mpr ⟨hmem, (List.mem_filter.mp hb).2⟩)
  omega

/-- A property that moves out of the pattern of a declarator is the way to the name in it. -/
theorem moved_of_holds (h : MadeFor v l tree p) (hholds : pattern.Holds path b)
    (hd : .node .declarator span [pattern, value] ∈ tree.parts) (hb : b.isBinding = true) {k : Node}
    (hk : k ∈ pattern.children) (hbk : b ∈ k.parts) {s : PropertySplit} (hs : p.split? k = some s) :
    ∃ key, path = [.key key] ∧ key.form = .key s.method ∧ v.origin.traces value = true
      ∧ value.isStaticChain = true
      ∧ (s.method, b) ∈ p.movedFrom (.node .declarator span [pattern, value]) := by
  obtain ⟨hentry, htrace, hstatic⟩ := h.of_split? hd hk hs
  obtain ⟨isShorthand, key, name, rfl, hkey, ⟨text, hname⟩, -⟩ := hentry.kind
  obtain ⟨role, hrole⟩ := hentry.pattern
  have hpw := h.wellPlaced.part (mem_parts_trans (child_mem_parts List.mem_cons_self) hd)
  have hbare := isBare_eq_false_of_isBinding hb
  have hword : name.form.isWord = true := by rw [hname]; rfl
  cases hholds with
  | self =>
      obtain ⟨text, hform⟩ := exists_name_of_isBinding hb
      rw [hrole] at hform
      cases hform
  | key hk' hvalue =>
      obtain ⟨-, -, hsame⟩ := Node.node.inj
        (hpw.child_eq hk' hk (mem_parts_of_value hvalue.mem_parts) hbk hbare)
      obtain ⟨heq, hsame⟩ := List.cons.inj hsame
      obtain ⟨rfl, -⟩ := List.cons.inj hsame
      obtain ⟨rfl, rfl⟩ := hvalue.of_isWord hword
      refine ⟨_, rfl, heq ▸ hkey, htrace, hstatic, List.mem_filterMap.mpr ⟨_, hk, ?_⟩⟩
      simp only [movedOut?, hs, Option.map_some]
  | computed hk' hvalue =>
      cases hpw.child_eq hk' hk (mem_parts_of_value hvalue.mem_parts) hbk hbare
  | element => cases hrole
  | rest hform hk' hinner =>
      cases hpw.child_eq hk' hk (mem_parts_of_first hinner.mem_parts) hbk hbare
  | defaulted => cases hrole

/-- A name that moves out of its pattern survives in a declarator of its own. -/
theorem survives_moved (h : MadeFor v l tree p) (plugin : String)
    (hd : .node .declarator span [pattern, value] ∈ tree.parts) (hholds : pattern.Holds path b)
    (hb : b.isBinding = true) {k : Node} (hk : k ∈ pattern.children) (hbk : b ∈ k.parts)
    (hmoved : p.isMoved k = true)
    (hout : ∀ m ∈ tree.parts, .node .declarator span [pattern, value] ∈ m.parts →
      p.isRemoved m = false ∧ p.isPruned m = false) :
    b ∈ (p.apply plugin tree).1.parts
      ∧ ∃ front moved, p.Divides plugin tree span value front moved
        ∧ Survives v span value path b front moved := by
  obtain ⟨s, hs⟩ := Option.isSome_iff_exists.mp hmoved
  obtain ⟨key, hpath, hkey, htrace, hstatic, hmem⟩ := h.moved_of_holds hholds hd hb hk hbk hs
  obtain ⟨role, hrole⟩ := (h.of_split? hd hk hs).1.pattern
  obtain ⟨pattern', hpattern⟩ : ∃ x, p.performed plugin pattern .declarator = [x] := by
    cases pattern with
    | node form own ks =>
        obtain rfl : form = .objectPattern role := hrole
        exact ⟨_, performed_objectPattern role own ks _⟩
  obtain ⟨front, value', -, hstands⟩ := h.divides_of_outside plugin hd hpattern hout
  obtain ⟨hdivides, hmade⟩ := hstands _ (List.mem_append_right _ (List.mem_map_of_mem hmem))
  exact ⟨mem_parts_trans (mem_parts_of_first (self_mem_parts b)) hmade, front, _, hdivides,
    .moved hpath hkey htrace hstatic hmem⟩

/-- A name that does not move out of its pattern survives where it stands. -/
theorem survives_inPlace (h : MadeFor v l tree p) (hwhole : TakesWhole v l tree p) (plugin : String)
    (hd : .node .declarator span [pattern, value] ∈ tree.parts) (hholds : pattern.Holds path b)
    (hb : b.isBinding = true)
    (hout : ∀ m ∈ tree.parts, b ∈ m.parts → p.isRemoved m = false ∧ p.isPruned m = false)
    (hunmoved : ∀ k ∈ pattern.children, b ∈ k.parts → p.isMoved k = false) :
    b ∈ (p.apply plugin tree).1.parts
      ∧ ∃ front moved, p.Divides plugin tree span value front moved
        ∧ Survives v span value path b front moved := by
  have hpt := mem_parts_trans (child_mem_parts List.mem_cons_self) hd
  have hbd : b ∈ (node .declarator span [pattern, value]).parts :=
    mem_parts_of_first hholds.mem_parts
  obtain ⟨pattern', hpattern, hholds'⟩ := h.performed_of_holds hwhole plugin hholds hpt hb
    (fun m hm hbm => (hout m (mem_parts_trans hm hpt) hbm).2) hunmoved .declarator
  obtain ⟨front, value', hfront, hstands⟩ := h.divides_of_outside plugin hd hpattern
    fun m hm hdm => hout m hm (mem_parts_trans hbd hdm)
  -- the pattern still introduces the name, so it is not empty
  have hfront : front = [.node .declarator span [pattern', value']] := by
    refine hfront.resolve_right ?_
    rintro ⟨-, role, own, rfl⟩
    obtain ⟨k, hk, -⟩ := mem_bindings_node (by intro _ heq; cases heq)
      (List.mem_filter.mpr ⟨hholds'.mem_parts, hb⟩)
    cases hk
  obtain ⟨hdivides, hself⟩ := hstands (.node .declarator span [pattern', value'])
    (List.mem_append_left _ (hfront ▸ List.mem_singleton_self _))
  exact ⟨mem_parts_trans (mem_parts_of_first hholds'.mem_parts) hself, front, _, hdivides,
    .inPlace hfront hholds'⟩

/-- A name that stands in nothing that goes away survives exactly once. -/
theorem survives (h : MadeFor v l tree p) (hwhole : TakesWhole v l tree p) (plugin : String)
    (hd : .node .declarator span [pattern, value] ∈ tree.parts) (hholds : pattern.Holds path b)
    (hb : b.isBinding = true)
    (hout : ∀ m ∈ tree.parts, b ∈ m.parts → p.isRemoved m = false ∧ p.isPruned m = false) :
    (p.apply plugin tree).1.bindings.count b = 1
      ∧ ∃ front moved, p.Divides plugin tree span value front moved
        ∧ Survives v span value path b front moved := by
  have hbd : b ∈ (node .declarator span [pattern, value]).parts :=
    mem_parts_of_first hholds.mem_parts
  have hsurvives : b ∈ (p.apply plugin tree).1.parts
      ∧ ∃ front moved, p.Divides plugin tree span value front moved
        ∧ Survives v span value path b front moved := by
    by_cases hmoves : ∃ k ∈ pattern.children, b ∈ k.parts ∧ p.isMoved k = true
    · obtain ⟨k, hk, hbk, hmoved⟩ := hmoves
      exact h.survives_moved plugin hd hholds hb hk hbk hmoved fun m hm hdm =>
        hout m hm (mem_parts_trans hbd hdm)
    · exact h.survives_inPlace hwhole plugin hd hholds hb hout fun k hk hbk =>
        eq_false_of_ne_true fun hmoved => hmoves ⟨k, hk, hbk, hmoved⟩
  exact ⟨h.count_eq_one plugin (List.mem_filter.mpr ⟨mem_parts_trans hbd hd, hb⟩) hsurvives.1,
    hsurvives.2⟩

end MadeFor

end EditPlan

-- ============================================================ the plan of a program

open Node EditPlan

/-- A name that is still used stands in nothing that goes away. -/
theorem planEdits_keeps_used {config : TransformConfig} {plugin : String} {tree b m : Node}
    (ht : tree.WellPlaced) (hroot : ∃ line, tree.form = .program line) (hb : b ∈ tree.bindings)
    (hused : (planEdits config plugin tree).1.StaysUsed (Survey.onProgram config plugin tree) tree b)
    (hm : m ∈ tree.parts) (hbm : b ∈ m.parts) :
    (planEdits config plugin tree).1.isRemoved m = false
      ∧ (planEdits config plugin tree).1.isPruned m = false := by
  have h := planEdits_madeFor config plugin ht hroot
  obtain ⟨n, hn, ⟨s, huse, hname⟩, hout⟩ := hused
  have hbinding := (List.mem_filter.mp hb).2
  have hbmb : b ∈ m.bindings := List.mem_filter.mpr ⟨hbm, hbinding⟩
  refine ⟨eq_false_of_ne_true fun hgoes => ?_, eq_false_of_ne_true fun hgoes => ?_⟩
  · exact hout m hm hgoes (use_mem_of_isRemoved ht hm hgoes hbmb hname hn huse)
  · obtain ⟨_, _, _, _, -, -, hspare⟩ := h.pruned hm hgoes
    obtain ⟨st, hst, hgoes, hin⟩ :=
      planEdits_removes_use_of_name ht hbinding (hspare.spare.unused b hbmb) hname hn huse
    exact hout st hst hgoes hin

/-- An edit keeps every name that patterns introduce and that is still used, in its place or in a
declarator of its own, and keeps every pattern as it has to stay. -/
theorem planEdits_destructures {config : TransformConfig} {plugin source : String} {p : Program}
    (hp : Program.parse? source = some p) :
    (planEdits config plugin p.tree).1.Destructures plugin (Survey.onProgram config plugin p.tree)
      p.tree := by
  have ht := Program.wellPlaced_of_parse? hp
  have hroot := Program.form_of_parse? hp
  have h := planEdits_madeFor config plugin ht hroot
  have hwhole := planEdits_takesWhole config plugin p.tree
  refine ⟨fun hd hholds hb hused => ?_, fun hq => ?_, fun hd htrace hholds k hk => ?_⟩
  · have hbt := List.mem_filter.mpr
      ⟨mem_parts_trans (mem_parts_of_first hholds.mem_parts) hd, hb⟩
    exact h.survives hwhole plugin hd hholds hb fun m hm hbm =>
      planEdits_keeps_used ht hroot hbt hused hm hbm
  · refine ⟨_, h.keepsEntries hwhole plugin hq, EditPlan.performed_objectPattern _ _ _,
      fun hne hout => ?_⟩
    obtain ⟨a, ha⟩ := MadeFor.reached_of_outside hq hout .absent
    refine h.mem_apply ha ?_ rfl hne
    rw [EditPlan.performed_objectPattern]
    exact List.mem_singleton_self _
  · exact h.keeps_of_no_host hd htrace hholds hk

/-- Two declarators: of the first one a name moves out and an unused rest element goes away, beside
a computed key and a rest element in use, and the second one goes away as a whole. The name that
moves out gets its own declarator directly behind. -/
theorem planEdits_destructures_for_each_entry :
    ∃ p, Program.parse? ("const {saveData, [k()]: a, x: {y, ...r}, z: [w], ...o} = BdApi;"
        ++ "const {u, getModule, t: {s}} = BdApi.Data; saveData(a, r, w); getModule(u);") = some p
      ∧ (planEdits .standard "p" p.tree).1.removedPatterns.length = 5
      ∧ ((planEdits .standard "p" p.tree).1.splits.flatMap Prod.snd).length = 1
      ∧ ((planEdits .standard "p" p.tree).1.apply "p" p.tree).1.render p.comments
        = "const { [k()]: a, x: { y, ...r }, z: [w] } = BdApi, "
          ++ "saveData = BdApi.saveData.bind(null, \"p\");\nsaveData(a, r, w);\n"
      ∧ (planEdits .standard "p" p.tree).1.Destructures "p"
          (Survey.onProgram .standard "p" p.tree) p.tree := by
  have h : (Program.parse? ("const {saveData, [k()]: a, x: {y, ...r}, z: [w], ...o} = BdApi;"
        ++ "const {u, getModule, t: {s}} = BdApi.Data; saveData(a, r, w); getModule(u);")).any
      (fun p =>
        (planEdits .standard "p" p.tree).1.removedPatterns.length == 5
        && ((planEdits .standard "p" p.tree).1.splits.flatMap Prod.snd).length == 1
        && ((planEdits .standard "p" p.tree).1.apply "p" p.tree).1.render p.comments
          == "const { [k()]: a, x: { y, ...r }, z: [w] } = BdApi, "
            ++ "saveData = BdApi.saveData.bind(null, \"p\");\nsaveData(a, r, w);\n") = true := by
    decide +kernel
  obtain ⟨p, hp, h⟩ := (Option.any_eq_true _ _).mp h
  simp only [Bool.and_eq_true, beq_iff_eq] at h
  obtain ⟨⟨hpatterns, hmoved⟩, htext⟩ := h
  exact ⟨p, hp, hpatterns, hmoved, htext, planEdits_destructures hp⟩

end Graft
