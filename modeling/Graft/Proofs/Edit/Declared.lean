import Graft.Proofs.Edit.Kept
import Graft.Proofs.Grammar.Program
import Graft.Proofs.Plan.Liveness
import Graft.Proofs.Plan.Pruning
import Graft.Proofs.Scope.Segment
/-!
The liveness gate.

Whatever use survives an edit, the declarations of its symbol survive too
(`planEdits_keeps_declarations`).

# What is lost

A declaration is lost in an edit only with a statement that goes away or with an entry that is taken
out of a pattern (`EditPlan.Lost`). Everything else that an edit does keeps it:

- a node that is put together again introduces what its children do;
- to divide a declarator moves names, and loses none (`EditPlan.mem_of_splitDeclarator`);
- a value that is dropped, because it is replaced or because its declarator goes away, is a row of
  names or a call of a loader with a string, and these introduce nothing
  (`EditPlan.bindings_of_isStaticChain`, `EditPlan.GroundedIn.bindings_of_substituted`).

`EditPlan.lost_or_mem_remake` says so for every part of a program, by induction on the part.

# Why no use is left behind

- What a statement declares is used in the statement only, for the statement is closed
  (`use_mem_of_isRemoved`), so no use of it survives.
- What goes away with an entry counts as unused. The counts leave out just the uses in statements
  that go away, so all uses of the name go away in the same edit (`planEdits_removes_use_of_name`).

A surviving use stood in no statement that goes away (`EditPlan.not_mem_of_survives`), so its symbol
is neither of the first kind nor of the second, and its declarations are not lost.
-/
namespace Graft

namespace EditPlan

open Node

variable {p : EditPlan} {plugin : String} {v : Survey} {l : Liveness} {tree : Node}

-- ============================================================ rebuilt nodes

/-- Whether an edit makes nodes of a form anew at the place of others. -/
def isMadeAnew : Form → Bool
  | .identifier _ | .member .. | .call .. => true
  | _ => false

/-- What has a form that is not made anew had it before the edit. -/
theorem of_remake_eq {n : Node} {isValue : Bool} {form : Form} {span : Span} {ks : List Node}
    (h : (p.remake plugin isValue n).result = .node form span ks)
    (hform : isMadeAnew form = false) :
    ∃ children parts, n = .node form span children
      ∧ AllBecome p plugin form children parts ∧ parts.result = ks := by
  cases n with
  | node form' span' children =>
      obtain ⟨parts, hall, houtcome⟩ := p.remake_outcome plugin form' span' children isValue
      generalize p.remake plugin isValue (.node form' span' children) = out at h houtcome
      cases houtcome with
      | substituted _ _ hchain =>
          dsimp only at h
          subst h
          rcases form_of_isStaticChain (isStaticChain_ofChain hchain).1 with
            ⟨name, heq⟩ | ⟨isOptional, name, heq⟩
          · rw [show form = .identifier name from heq] at hform
            cases hform
          · rw [show form = .member isOptional name from heq] at hform
            cases hform
      | bound =>
          obtain ⟨rfl, -, -⟩ := Node.node.inj h
          cases hform
      | kept =>
          obtain ⟨rfl, rfl, rfl⟩ := Node.node.inj h
          exact ⟨children, parts, rfl, hall, rfl⟩

/-- Whatever becomes of a child is among what becomes of all children. -/
theorem AllBecome.exists_becomes {form : Form} {ks : List Node} {out : Edited (List Node)} {k : Node}
    (h : AllBecome p plugin form ks out) (hk : k ∈ ks) :
    ∃ o, Becomes p plugin form k o ∧ ∀ x ∈ o.result, x ∈ out.result := by
  induction h with
  | nil => cases hk
  | cons head tail ih =>
      rcases List.mem_cons.mp hk with rfl | hk
      · exact ⟨_, head, fun x hx => List.mem_append_left _ hx⟩
      · obtain ⟨o, ho, hsub⟩ := ih hk
        exact ⟨o, ho, fun x hx => List.mem_append_right _ (hsub x hx)⟩

/-- A name that the rebuilt form of a part introduces is a name that the part introduces. -/
theorem mem_bindings_of_remake {t b : Node} {isValue : Bool} (ht : t.WellPlaced)
    (hb : b ∈ (p.remake plugin isValue t).result.bindings) (hspan : b.span ≠ .none) :
    b ∈ t.bindings := by
  obtain ⟨hb, hname⟩ := List.mem_filter.mp hb
  rcases mem_kept_of_mem_remake ht (isWord_of_isBinding hname) hb with h | h
  · exact absurd h hspan
  · exact List.mem_filter.mpr ⟨kept_subset h, hname⟩

-- ============================================================ divided declarators

/-- The parts of a row of names are names and accesses. -/
theorem form_of_mem_isStaticChain {n m : Node} (hw : n.WellPlaced) (h : n.isStaticChain = true)
    (hm : m ∈ n.parts) : (∃ name, m.form = .identifier name)
      ∨ ∃ isOptional name, m.form = .member isOptional name := by
  induction n with
  | node form span children ih =>
      cases hw with
      | node fits parts =>
      rw [isStaticChain.eq_def] at h
      split at h
      case h_1 heq =>
        cases heq
        rw [fits.word rfl, parts_node, List.flatMap_nil, List.mem_singleton] at hm
        exact .inl ⟨_, by rw [hm]; rfl⟩
      case h_2 object heq =>
        cases heq
        rcases mem_parts_node.mp hm with rfl | ⟨k, hk, hmk⟩
        · exact .inr ⟨_, _, rfl⟩
        · obtain rfl := List.mem_singleton.mp hk
          exact ih k List.mem_cons_self (parts k List.mem_cons_self) h hmk
      case h_3 => cases h

/-- A row of names introduces none. -/
theorem bindings_of_isStaticChain {n : Node} (hw : n.WellPlaced) (h : n.isStaticChain = true) :
    n.bindings = [] := by
  refine List.filter_eq_nil_iff.mpr fun m hm hname => ?_
  obtain ⟨_, hform⟩ := exists_name_of_isBinding hname
  rcases form_of_mem_isStaticChain hw h hm with ⟨_, hname⟩ | ⟨_, _, hmember⟩
  · rw [hname] at hform
    cases hform
  · rw [hmember] at hform
    cases hform

/-- A name that a child introduces after the edit is one that it introduced before. -/
theorem mem_bindings_of_fixed {k b : Node} {isValue : Bool} (hk : k.WellPlaced)
    (hspan : b.span ≠ .none)
    (hb : b ∈ (if p.isRemoved k then made .empty []
      else (p.remake plugin isValue k).result).bindings) : b ∈ k.bindings := by
  split at hb
  · cases hb
  · exact mem_bindings_of_remake hk hb hspan

/-- An entry of a rebuilt pattern is a rebuilt entry of the pattern. -/
theorem AllBecome.entry {form : Form} {span : Span} {children : List Node}
    {out : Edited (List Node)} {x : Node} (h : AllBecome p plugin form children out)
    (hform : isPattern form = true) (fits : Fits form span children) (hx : x ∈ out.result) :
    ∃ k ∈ children, x = (p.remake plugin true k).result := by
  have hentries : form.holdsEntries = true ∧ form.holdsValues = true := by
    cases form <;> first | exact ⟨rfl, rfl⟩ | cases hform
  obtain ⟨k, hk, o, hbecomes, hxo⟩ := h.exists_of_mem hx
  cases hbecomes with
  | removed => cases hxo
  | emptied hremoved =>
      rw [isRemoved_of_entry fits (.inl hentries.1) hk] at hremoved
      cases hremoved
  | pruned => cases hxo
  | remade => exact ⟨k, hk, hentries.2 ▸ List.mem_singleton.mp hxo⟩
  | vanished => cases hxo
  | divided heq =>
      subst heq
      cases hform

/-- What a rebuilt property that moves out of its pattern introduces, its value introduces. -/
theorem mem_of_movedValue? (hp : GroundedIn v l tree p) (ht : tree.WellPlaced) {role : PatternRole}
    {span : Span} {properties : List Node} {isValue : Bool} {pattern k b : Node}
    (hpattern : pattern ∈ tree.parts)
    (heq : (p.remake plugin isValue pattern).result
      = .node (.objectPattern role) span properties)
    {e : Span × List PropertySplit} (he : e ∈ p.splits) (hk : k ∈ properties)
    {moved : String × Node} (hmoved : movedValue? e.2 k = some moved) (hb : b ∈ k.bindings)
    (hspan : b.span ≠ .none) : b ∈ moved.2.bindings := by
  obtain ⟨children, parts, rfl, hall, rfl⟩ := of_remake_eq heq rfl
  have hpatternw := ht.part hpattern
  cases hpatternw with
  | node fits hws =>
  obtain ⟨entry, hentry, rfl⟩ := hall.entry rfl fits hk
  have hentryw := hws entry hentry
  unfold movedValue? at hmoved
  split at hmoved
  case h_2 => cases hmoved
  case h_1 isComputed isShorthand own key' value' hremade =>
    obtain ⟨s, hfind, rfl⟩ := Option.map_eq_some_iff.mp hmoved
    obtain ⟨ks, parts', rfl, hall', hresult⟩ := of_remake_eq hremade rfl
    -- the key is a word, and a word is rebuilt into something that introduces nothing
    obtain ⟨isShorthand', hkeyed⟩ := hp.isKeyed ht hpattern rfl hentry (isBare_node ..) he
      (List.mem_of_find?_eq_some hfind) (by simpa [Node.span] using List.find?_some hfind)
    obtain ⟨rfl, rfl⟩ := Form.patternProperty.inj hkeyed
    cases hentryw with
    | node fits' hws' =>
    obtain ⟨key, value, rfl⟩ := fits'.shape
    rw [hall'.fixed rfl] at hresult
    simp only [List.map_cons, List.map_nil, List.cons.injEq, and_true] at hresult
    rw [hremade] at hb
    obtain ⟨x, hx, hbx⟩ := mem_bindings_node (by intro _ h; cases h) hb
    rcases List.mem_cons.mp hx with rfl | hx
    · rw [← hresult.1] at hbx
      have hbkey := mem_bindings_of_fixed (hws' key List.mem_cons_self) hspan hbx
      rw [bindings_of_isBare (fits'.key rfl key rfl)] at hbkey
      cases hbkey
    · exact List.mem_singleton.mp hx ▸ hbx

/-- A name that a declarator introduces is in one of the declarators that it is divided into, if it
is in the value of its property when that moves out, and not in the value of a declarator that may
go away. -/
theorem mem_splitDeclarator {splits : List PropertySplit} {isDroppable : Bool} {n b : Node}
    (hb : b ∈ n.bindings)
    (hparts : ∀ span role inner properties value,
      n = .node .declarator span [.node (.objectPattern role) inner properties, value] →
      (∀ k ∈ properties, ∀ moved, movedValue? splits k = some moved → b ∈ k.bindings →
        b ∈ moved.2.bindings) ∧ (isDroppable = true → b ∉ value.bindings)) :
    ∃ x ∈ (splitDeclarator plugin splits isDroppable n).result, b ∈ x.bindings := by
  unfold splitDeclarator
  split
  case h_2 => exact ⟨_, List.mem_singleton_self _, hb⟩
  case h_1 span role inner properties value =>
    obtain ⟨hmoves, hvalue⟩ := hparts span role inner properties value rfl
    dsimp only
    generalize hstaying : (properties.filter fun k => (movedValue? splits k).isNone) = staying
    -- the declarator with what stays of its pattern
    have hrest : b ∈ (node (.objectPattern role) inner staying).bindings ∨ b ∈ value.bindings →
        (isDroppable && staying.isEmpty) = false →
        ∃ x ∈ (if isDroppable && staying.isEmpty then [] else
            [Node.node .declarator span [.node (.objectPattern role) inner staying, value]])
          ++ (properties.filterMap (movedValue? splits)).map fun m =>
            Node.made .declarator [m.2, (value.access m.1).boundTo plugin], b ∈ x.bindings := by
      intro h hstays
      rw [hstays]
      refine ⟨_, List.mem_cons_self, ?_⟩
      rcases h with h | h
      · exact mem_bindings_of_child List.mem_cons_self h
      · exact mem_bindings_of_child (List.mem_cons_of_mem _ List.mem_cons_self) h
    obtain ⟨k, hk, hbk⟩ := mem_bindings_node (by intro _ h; cases h) hb
    simp only [List.mem_cons, List.not_mem_nil, or_false] at hk
    rcases hk with rfl | rfl
    · obtain ⟨property, hproperty, hbp⟩ := mem_bindings_node (by intro _ h; cases h) hbk
      cases hmoved : movedValue? splits property with
      | some moved =>
          refine ⟨_, List.mem_append_right _ (List.mem_map.mpr
            ⟨moved, List.mem_filterMap.mpr ⟨property, hproperty, hmoved⟩, rfl⟩), ?_⟩
          exact mem_bindings_of_child List.mem_cons_self (hmoves property hproperty moved hmoved hbp)
      | none =>
          have hstays : property ∈ staying :=
            hstaying ▸ List.mem_filter.mpr ⟨hproperty, by rw [hmoved]; rfl⟩
          refine hrest (.inl (mem_bindings_of_child hstays hbp)) ?_
          cases staying with
          | nil => cases hstays
          | cons => exact Bool.and_false _
    · refine hrest (.inr hbk) ?_
      cases isDroppable with
      | false => rfl
      | true => exact absurd hbk (hvalue rfl)

/-- Declarators that a plan divides lose none of the names that they introduce. -/
theorem mem_of_splitDeclarator (hp : GroundedIn v l tree p) (ht : tree.WellPlaced) {k b : Node}
    (hk : k ∈ tree.parts) (hspan : b.span ≠ .none)
    (hb : b ∈ (p.remake plugin true k).result.bindings) :
    ∃ x ∈ (splitDeclarator plugin ((p.splits.lookup k.span).getD [])
      (p.droppable.contains k.span) (p.remake plugin true k).result).result, b ∈ x.bindings := by
  refine mem_splitDeclarator hb fun span role inner properties value heq => ?_
  obtain ⟨children, parts, rfl, hall, hresult⟩ := of_remake_eq heq rfl
  -- both children are rebuilt, and the pattern is what it was
  rw [hall.fixed rfl] at hresult
  obtain ⟨pattern, rest, rfl, hpattern, hrest⟩ := List.map_eq_cons_iff.mp hresult
  obtain ⟨init, rfl, hinit⟩ := List.map_eq_singleton_iff.mp hrest
  refine ⟨fun property hproperty moved hmoved hbp => ?_, fun hdroppable hbv => ?_⟩
  · have hpatterntree : pattern ∈ tree.parts :=
      mem_parts_trans (mem_parts_of_child List.mem_cons_self (self_mem_parts _)) hk
    have hremade : (p.remake plugin true pattern).result
        = .node (.objectPattern role) inner properties := by
      split at hpattern
      · cases hpattern
      · exact hpattern
    cases hlookup : p.splits.lookup (node .declarator span [pattern, init]).span with
    | some splits =>
        rw [hlookup] at hmoved
        exact mem_of_movedValue? hp ht hpatterntree hremade (mem_of_lookup hlookup) hproperty
          hmoved hbp hspan
    | none =>
        -- nothing moves out of a pattern of which the plan says nothing
        rw [hlookup] at hmoved
        unfold movedValue? at hmoved
        split at hmoved <;> cases hmoved
  · -- the value of a declarator that may go away is a row of names
    obtain ⟨pattern', init', hdeclarator, -, hstatic⟩ :=
      hp.droppable _ (List.contains_iff_mem.mp hdroppable)
    obtain ⟨-, -, hsame⟩ := Node.node.inj
      (ht.eq_of_span_eq hk hdeclarator (isBare_node ..) (isBare_node ..) rfl rfl)
    obtain ⟨-, hsame⟩ := List.cons.inj hsame
    obtain ⟨rfl, -⟩ := List.cons.inj hsame
    have hinitw : init.WellPlaced := (ht.part hk).part
      (mem_parts_of_child (List.mem_cons_of_mem _ List.mem_cons_self) (self_mem_parts _))
    rw [← hinit] at hbv
    have hbi := mem_bindings_of_fixed hinitw hspan hbv
    rw [bindings_of_isStaticChain hinitw hstatic] at hbi
    cases hbi

-- ============================================================ what is lost

/-- Whether a part of a tree goes away with a statement or with an entry of a pattern. -/
inductive Lost (p : EditPlan) (t b : Node) : Prop
  | statement {st : Node} (hst : st ∈ t.parts) (h : p.isRemoved st = true) (hb : b ∈ st.bindings)
  | entry {q entry : Node} (hq : q ∈ t.parts) (hform : isPattern q.form = true)
      (hentry : entry ∈ q.children) (h : entry.span ∈ p.removedPatterns) (hb : b ∈ entry.bindings)

/-- What is lost with a part is lost in the whole. -/
theorem Lost.mono {t k b : Node} (h : p.Lost k b) (hk : k ∈ t.parts) : p.Lost t b := by
  cases h with
  | statement hst h hb => exact .statement (mem_parts_trans hst hk) h hb
  | entry hq hform hentry h hb => exact .entry (mem_parts_trans hq hk) hform hentry h hb

/-- What is introduced in a child is lost or introduced in what becomes of the child. -/
theorem Becomes.binding (hp : GroundedIn v l tree p) (ht : tree.WellPlaced) {n k b : Node}
    {out : Edited (List Node)} (hn : n ∈ tree.parts) (hk : k ∈ n.children)
    (h : Becomes p plugin n.form k out) (hb : b ∈ k.bindings) (hspan : b.span ≠ .none)
    (ih : ∀ isValue, p.Lost k b ∨ b ∈ (p.remake plugin isValue k).result.bindings) :
    p.Lost n b ∨ ∃ x ∈ out.result, b ∈ x.bindings := by
  have hkn := child_mem_parts hk
  have hlost : p.Lost k b → p.Lost n b := fun h => h.mono hkn
  cases h with
  | removed _ hremoved => exact .inl (.statement hkn hremoved hb)
  | emptied hremoved => exact .inl (.statement hkn hremoved hb)
  | pruned hform hremoved =>
      exact .inl (.entry (self_mem_parts n) hform hk (List.contains_iff_mem.mp hremoved) hb)
  | remade =>
      exact (ih _).imp hlost fun h => ⟨_, List.mem_singleton_self _, h⟩
  | vanished _ _ hempty =>
      refine (ih true).imp hlost fun h => ?_
      -- a declaration without declarators introduces nothing
      unfold declaresNothing at hempty
      split at hempty
      case h_1 heq => rw [heq] at h; cases h
      case h_2 => cases hempty
  | divided _ hparts =>
      refine (ih true).imp hlost fun h => ?_
      rw [hparts]
      exact mem_of_splitDeclarator hp ht (mem_parts_trans hkn hn) hspan h

/-- In a call that loads a module there is nothing but a name and a string. -/
theorem GroundedIn.leaf_of_substituted (hp : GroundedIn v l tree p) (ht : tree.WellPlaced)
    {isOptional isPure : Bool} {span : Span} {children : List Node}
    (hn : .node (.call isOptional isPure) span children ∈ tree.parts) {names : List String}
    (h : p.substitutions.lookup span = some names) : ∀ k ∈ children, k.children = []
      ∧ ((∃ name, k.form = .identifier name) ∨ ∃ units, k.form = .string units) := by
  obtain ⟨isOptional', isPure', callee, arguments, hcall, hsub⟩ :=
    hp.substitutions _ (mem_of_lookup h)
  obtain ⟨-, -, rfl⟩ := Node.node.inj
    (ht.eq_of_span_eq hn hcall (isBare_node ..) (isBare_node ..) rfl rfl)
  obtain ⟨argument, text, rfl, hcallee, -, htext, -⟩ := Survey.loads_of_substitutionFor? hsub
  intro k hk
  have hkw := (ht.part hcall).part (mem_parts_of_child hk (self_mem_parts k))
  rcases List.mem_cons.mp hk with rfl | hk
  · cases hkw with
    | @node form _ _ fits _ =>
      obtain rfl : form = .identifier v.config.host.loader := hcallee
      exact ⟨fits.word rfl, .inl ⟨_, rfl⟩⟩
  · obtain rfl := List.mem_singleton.mp hk
    unfold stringText? at htext
    split at htext
    case h_1 units heq =>
      cases hkw with
      | @node form _ _ fits _ =>
        obtain rfl : form = .string units := heq
        exact ⟨fits.shape, .inr ⟨_, rfl⟩⟩
    case h_2 => cases htext

/-- A call that loads a module introduces nothing. -/
theorem GroundedIn.bindings_of_substituted (hp : GroundedIn v l tree p) (ht : tree.WellPlaced)
    {isOptional isPure : Bool} {span : Span} {children : List Node}
    (hn : .node (.call isOptional isPure) span children ∈ tree.parts) {names : List String}
    (h : p.substitutions.lookup span = some names) : ∀ k ∈ children, k.bindings = [] := by
  intro k hk
  obtain ⟨hchildren, hform⟩ := hp.leaf_of_substituted ht hn h k hk
  cases k with
  | node form own ks =>
      obtain rfl : ks = [] := hchildren
      rcases hform with ⟨name, hform⟩ | ⟨units, hform⟩
      · obtain rfl : form = .identifier name := hform
        rfl
      · obtain rfl : form = .string units := hform
        rfl

/-- What a part introduces is lost, or the rebuilt part introduces it. -/
theorem lost_or_mem_remake (hp : GroundedIn v l tree p) (ht : tree.WellPlaced) {t b : Node}
    (htree : t ∈ tree.parts) (hb : b ∈ t.bindings) (hspan : b.span ≠ .none) :
    ∀ isValue, p.Lost t b ∨ b ∈ (p.remake plugin isValue t).result.bindings := by
  induction t with
  | node form span children ih =>
      intro isValue
      obtain ⟨parts, hall, houtcome⟩ := p.remake_outcome plugin form span children isValue
      have htw := ht.part htree
      cases htw with
      | node fits hws =>
      obtain ⟨hbparts, hname⟩ := List.mem_filter.mp hb
      rcases mem_parts_node.mp hbparts with rfl | ⟨k, hk, hbk⟩
      · -- a name has no children, and is not made anew
        obtain ⟨name, hform⟩ := exists_name_of_isBinding hname
        obtain rfl : form = .binding name := hform
        obtain rfl := fits.word rfl
        cases hall
        generalize p.remake plugin isValue (.node (.binding name) span []) = out at houtcome
        cases houtcome with
        | substituted hform => cases hform
        | bound hform => cases hform
        | kept => exact .inr hb
      · have hbk : b ∈ k.bindings := List.mem_filter.mpr ⟨hbk, hname⟩
        have hktree : k ∈ tree.parts := mem_parts_trans (mem_parts_of_child hk (self_mem_parts k)) htree
        obtain ⟨o, hbecomes, hsub⟩ := hall.exists_becomes hk
        rcases hbecomes.binding hp ht htree hk hbk hspan (ih k hk hktree hbk) with
          h | ⟨x, hx, hbx⟩
        · exact .inl h
        · have hnode : b ∈ (node form span parts.result).bindings :=
            mem_bindings_of_child (hsub x hx) hbx
          generalize p.remake plugin isValue (.node form span children) = out at houtcome
          cases houtcome with
          | substituted hform hlookup =>
              subst hform
              rw [hp.bindings_of_substituted ht htree hlookup k hk] at hbk
              cases hbk
          | bound =>
              refine .inr (mem_bindings_of_child (List.mem_cons_self) ?_)
              exact mem_bindings_of_child List.mem_cons_self hnode
          | kept => exact .inr hnode

end EditPlan

-- ============================================================ the gate

namespace EditPlan

open Node

/-- What a statement that goes away introduces stays in it. -/
theorem isClosed_of_isRemoved {p : EditPlan} {st : Node} (hw : st.WellPlaced)
    (h : p.isRemoved st = true) : st.isClosed = true := by
  cases hw with
  | @node form span children fits _ =>
    obtain rfl : form = .expressionStatement := form_of_isRemoved h
    exact isClosed_of_all nofun (fits.statement rfl)

/-- A use that survives an edit stood in no statement that the edit removed. -/
theorem not_mem_of_survives {p : EditPlan} {plugin : String} {tree st n : Node}
    (ht : tree.WellPlaced) (hroot : ∃ line, tree.form = .program line) (hn : n ∈ tree.identifiers)
    (hsurvives : n ∈ (p.apply plugin tree).1.parts) (hst : st ∈ tree.parts)
    (hgoes : p.isRemoved st = true) : n ∉ st.parts := by
  obtain ⟨line, hroot⟩ := hroot
  obtain ⟨hparts, hname⟩ := List.mem_filter.mp hn
  have hbare := isBare_eq_false_of_isIdentifier hname
  have hne : n ≠ tree := by
    rintro rfl
    obtain ⟨name, hform⟩ := exists_name_of_isIdentifier hname
    rw [hform] at hroot
    cases hroot
  have hkept := (mem_kept_of_mem_remake ht (isWord_of_isIdentifier hname) hsurvives).resolve_left
    (ht.span_ne_none hparts hbare hne)
  refine not_mem_of_kept ht ?_ hkept hbare hst hgoes
  simp [isRemoved, hroot]

end EditPlan

section

variable {config : TransformConfig} {plugin : String} {tree : Node} {s : Nat}

/-- What a statement that goes away declares is used in the statement. -/
theorem use_mem_of_isRemoved {p : EditPlan} {st n b : Node} (ht : tree.WellPlaced)
    (hst : st ∈ tree.parts) (hgoes : p.isRemoved st = true) (hb : b ∈ st.bindings)
    (hname : (Bindings.ofProgram tree).symbolOfName? b.span.start = some s)
    (hn : n ∈ tree.identifiers)
    (huse : (Bindings.ofProgram tree).symbolOfUse? n.span.start = some s) : n ∈ st.parts := by
  have hword : st.isIdentifier = false := by
    rw [Node.isIdentifier, EditPlan.form_of_isRemoved hgoes]
  have hclosed := EditPlan.isClosed_of_isRemoved (ht.part hst) hgoes
  exact (List.mem_filter.mp (Bindings.mem_of_isClosed ht hst hword hclosed hb hname hn huse)).1

/-- What goes away for being unused is used in statements that go away too. -/
theorem planEdits_removes_use_of_name {n b : Node} (ht : tree.WellPlaced) (hb : b.isBinding = true)
    (hunused : (Survey.onProgram config plugin tree).isUnusedName
      (firstDecisions config plugin tree).liveness b = true)
    (hname : (Bindings.ofProgram tree).symbolOfName? b.span.start = some s)
    (hn : n ∈ tree.identifiers)
    (huse : (Bindings.ofProgram tree).symbolOfUse? n.span.start = some s) :
    ∃ st ∈ tree.parts, (planEdits config plugin tree).1.isRemoved st = true ∧ n ∈ st.parts := by
  obtain ⟨name, hform⟩ := Node.exists_name_of_isBinding hb
  rw [Survey.isUnusedName, hform] at hunused
  change ((Bindings.ofProgram tree).symbolOfName? b.span.start).any _ = true at hunused
  rw [hname] at hunused
  obtain ⟨st, hst, hexpression, hgoes, hin⟩ := planEdits_removes_use ht hn huse hunused
  refine ⟨st, hst, ?_, (List.mem_filter.mp hin).1⟩
  rw [EditPlan.isRemoved, hexpression, List.contains_iff_mem.mpr hgoes]
  rfl

/-- Whatever name of a program an edit leaves, it leaves every declaration of its symbol. -/
theorem planEdits_keeps_binding {n b : Node} (ht : tree.WellPlaced)
    (hroot : ∃ line, tree.form = .program line) (hn : n ∈ tree.identifiers)
    (hsurvives : n ∈ ((planEdits config plugin tree).1.apply plugin tree).1.parts)
    (huse : (Bindings.ofProgram tree).symbolOfUse? n.span.start = some s)
    (hb : b ∈ tree.bindings)
    (hname : (Bindings.ofProgram tree).symbolOfName? b.span.start = some s) :
    b ∈ ((planEdits config plugin tree).1.apply plugin tree).1.bindings := by
  have hp := planEdits_grounded config plugin tree
  have hout : ∀ st ∈ tree.parts, (planEdits config plugin tree).1.isRemoved st = true →
      n ∉ st.parts := fun st =>
    EditPlan.not_mem_of_survives ht hroot hn hsurvives
  obtain ⟨hbparts, hbname⟩ := List.mem_filter.mp hb
  have hspan : b.span ≠ .none := by
    refine ht.span_ne_none hbparts (Node.isBare_eq_false_of_isBinding hbname) ?_
    rintro rfl
    obtain ⟨line, hroot⟩ := hroot
    obtain ⟨name, hform⟩ := Node.exists_name_of_isBinding hbname
    rw [hform] at hroot
    cases hroot
  -- a binding that is not in the result was in a removed statement or in a pruned entry
  refine (EditPlan.lost_or_mem_remake hp ht (Node.self_mem_parts tree) hb hspan
    true).resolve_left fun hlost => ?_
  cases hlost with
  -- a statement that held the binding would hold its use as well
  | @statement st hst hgoes hbst =>
      exact hout st hst hgoes (use_mem_of_isRemoved ht hst hgoes hbst hname hn huse)
  | @entry q entry hq hform hentry hgoes hbe =>
      have hbare : entry.isBare = false := by
        refine eq_false_of_ne_true fun h => ?_
        rw [Node.bindings_of_isBare h] at hbe
        cases hbe
      -- an entry goes when nothing reads its names any more, so the use was in a removed statement
      have hunused := hp.isUnused ht hq hform hentry hbare hgoes b hbe
      obtain ⟨st, hst, hgoes, hin⟩ := planEdits_removes_use_of_name ht hbname hunused hname hn huse
      exact hout st hst hgoes hin

end

/-- No edit leaves a name without its declaration: if a use of a symbol of the program survives,
the symbol has declarations in the program, and all of them survive too. -/
theorem planEdits_keeps_declarations {config : TransformConfig} {plugin source : String}
    {p : Program} (hp : Program.parse? source = some p) {n : Node} {s : Nat}
    (hn : n ∈ p.tree.identifiers)
    (hsurvives : n ∈ ((planEdits config plugin p.tree).1.apply plugin p.tree).1.parts)
    (huse : (Bindings.ofProgram p.tree).symbolOfUse? n.span.start = some s) :
    (∃ b ∈ p.tree.bindings, (Bindings.ofProgram p.tree).symbolOfName? b.span.start = some s)
      ∧ ∀ b ∈ p.tree.bindings, (Bindings.ofProgram p.tree).symbolOfName? b.span.start = some s →
        b ∈ ((planEdits config plugin p.tree).1.apply plugin p.tree).1.bindings := by
  have ht := Program.wellPlaced_of_parse? hp
  refine ⟨Bindings.exists_binding ht (Bindings.lt_of_symbolOfUse? huse), fun b hb hname => ?_⟩
  exact planEdits_keeps_binding ht (Program.form_of_parse? hp) hn hsurvives huse hb hname

/-- A pattern of which one name goes away with its only use and another one moves into a declarator
of its own. -/
theorem planEdits_keeps_divided_pattern :
    ∃ p n, Program.parse?
        "const {after, Data, x: [y]} = BdApi; BdApi.findModule(Data); after(() => y);" = some p
      ∧ (∃ b ∈ p.tree.bindings,
          b ∉ ((planEdits .standard "p" p.tree).1.apply "p" p.tree).1.bindings)
      ∧ n ∈ p.tree.identifiers
      ∧ n ∈ ((planEdits .standard "p" p.tree).1.apply "p" p.tree).1.parts
      ∧ (Bindings.ofProgram p.tree).symbolOfUse? n.span.start = some 0
      ∧ (∃ b ∈ p.tree.bindings, (Bindings.ofProgram p.tree).symbolOfName? b.span.start = some 0)
      ∧ ∀ b ∈ p.tree.bindings, (Bindings.ofProgram p.tree).symbolOfName? b.span.start = some 0 →
        b ∈ ((planEdits .standard "p" p.tree).1.apply "p" p.tree).1.bindings := by
  have h : (Program.parse?
      "const {after, Data, x: [y]} = BdApi; BdApi.findModule(Data); after(() => y);").any
      (fun p =>
        (p.tree.bindings.any fun b =>
          !decide (b ∈ ((planEdits .standard "p" p.tree).1.apply "p" p.tree).1.bindings))
        && p.tree.identifiers.any fun n =>
          decide (n ∈ ((planEdits .standard "p" p.tree).1.apply "p" p.tree).1.parts)
          && (Bindings.ofProgram p.tree).symbolOfUse? n.span.start == some 0) = true := by
    decide +kernel
  obtain ⟨p, hp, h⟩ := (Option.any_eq_true _ _).mp h
  simp only [Bool.and_eq_true, List.any_eq_true, decide_eq_true_eq, beq_iff_eq,
    Bool.not_eq_true', decide_eq_false_iff_not] at h
  obtain ⟨hgone, n, hn, hsurvives, huse⟩ := h
  exact ⟨p, n, hp, hgone, hn, hsurvives, huse, planEdits_keeps_declarations hp hn hsurvives huse⟩

end Graft
