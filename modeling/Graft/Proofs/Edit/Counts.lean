import Graft.Proofs.Edit.Single
/-!
How often an edited program introduces a name.

No name that a program introduces is introduced by the result of an edit more often
(`EditPlan.MadeFor.count_performed_le`). What stands in place of a node is put together from three
kinds of things:

- what stands in place of its children, for which the claim holds by induction;
- what an edit adds, which are accesses and chains of names, and these introduce nothing
  (`Node.bindings_boundTo`, `Node.bindings_of_ofChain`);
- what an edit copies, which is the value of a declarator that is divided. That is a row of names,
  so copies of it introduce nothing either (`EditPlan.MadeFor.count_divided_le`).

What stays of a pattern and what moves out of it are parts of one list of entries, so together they
introduce what the pattern did, and no name twice (`EditPlan.MadeFor.count_entries_le`). It follows
that an edit introduces nothing that was not there (`planEdits_introduces_nothing`).
-/
namespace Graft

open Node Survey

-- ============================================================ names of nodes

namespace Node

/-- A node introduces what its children do, and its own name. -/
theorem bindings_node (form : Form) (span : Span) (children : List Node) :
    (node form span children).bindings
      = (if (node form span children).isBinding then [node form span children] else [])
        ++ children.flatMap bindings := by
  rw [bindings, parts_node, List.filter_cons, List.filter_flatMap]
  split
  · rfl
  · rfl

/-- What is no binding introduces what its children introduce. -/
theorem bindings_node_of_ne {form : Form} (hform : ∀ name, form ≠ .binding name) (span : Span)
    (children : List Node) : (node form span children).bindings = children.flatMap bindings := by
  rw [bindings_node, if_neg]
  · rfl
  · intro hbinding
    obtain ⟨name, hname⟩ := exists_name_of_isBinding hbinding
    exact hform name hname

theorem bindings_declarator (span : Span) (pattern value : Node) :
    (node .declarator span [pattern, value]).bindings = pattern.bindings ++ value.bindings := by
  rw [bindings_node_of_ne (by intro _ h; cases h), List.flatMap_cons, List.flatMap_singleton]

theorem bindings_objectPattern (role : PatternRole) (span : Span) (ks : List Node) :
    (node (.objectPattern role) span ks).bindings = ks.flatMap bindings :=
  bindings_node_of_ne (by intro _ h; cases h) span ks

theorem bindings_access (object : Node) (name : String) :
    (object.access name).bindings = object.bindings := by
  rw [access, made, bindings_node_of_ne (by intro _ h; cases h), List.flatMap_singleton]

/-- To bind an access introduces nothing. -/
theorem bindings_boundTo (target : Node) (plugin : String) :
    (target.boundTo plugin).bindings = target.bindings := by
  rw [boundTo, made, bindings_node_of_ne (by intro _ h; cases h)]
  simp only [List.flatMap_cons, List.flatMap_nil, bindings_access]
  exact List.append_nil _

/-- A name in a declarator of its own, for a method of a value. -/
theorem bindings_boundDeclarator (b value : Node) (method plugin : String) :
    (made .declarator [b, (value.access method).boundTo plugin]).bindings
      = b.bindings ++ value.bindings := by
  rw [made, bindings_declarator, bindings_boundTo, bindings_access]

/-- A chain of names introduces none. -/
theorem bindings_of_ofChain {names : List String} {chain : Node}
    (hchain : ofChain? names = some chain) : chain.bindings = [] := by
  cases names with
  | nil => cases hchain
  | cons first names =>
      obtain rfl := Option.some.inj hchain
      clear hchain
      have hfirst : (made (.identifier first) []).bindings = [] := rfl
      generalize made (.identifier first) [] = chain at hfirst ⊢
      induction names generalizing chain with
      | nil => exact hfirst
      | cons name names ih => exact ih _ ((bindings_access chain name).trans hfirst)

end Node

/-- What is asked of children introduces a name no more often than they do. -/
theorem Form.count_askAll_le {b : Node} {form : Form} {children : List Node}
    {f : Node → Form → List Node}
    (h : ∀ k ∈ children, ∀ above, ((f k above).flatMap bindings).count b ≤ k.bindings.count b) :
    ((form.askAll (children.map f)).flatMap bindings).count b
      ≤ (children.flatMap bindings).count b := by
  have hall : ∀ {ks : List Node}, (∀ k ∈ ks, k ∈ children) →
      (((ks.map f).flatMap (· form)).flatMap bindings).count b ≤ (ks.flatMap bindings).count b := by
    intro ks hks
    induction ks with
    | nil => exact Nat.le_refl _
    | cons k ks ih =>
        rw [List.map_cons, List.flatMap_cons, List.flatMap_append, List.flatMap_cons,
          List.count_append, List.count_append]
        exact Nat.add_le_add (h k (hks k List.mem_cons_self) form)
          (ih fun k' hk' => hks k' (List.mem_cons_of_mem _ hk'))
  cases form with
  | case =>
      cases children with
      | nil => exact Nat.le_refl _
      | cons test statements =>
          simp only [Form.askAll, List.map_cons, List.flatMap_append, List.flatMap_cons,
            List.count_append]
          exact Nat.add_le_add (h test List.mem_cons_self .switch)
            (hall fun k hk => List.mem_cons_of_mem _ hk)
  | _ => exact hall fun k hk => hk

namespace EditPlan

variable {v : Survey} {l : Liveness} {tree : Node} {p : EditPlan} {plugin : String}

namespace MadeFor

-- ============================================================ names of what is performed

/-- The entries of a pattern and the names that move out of it introduce a name no more often than
the pattern did. -/
theorem count_entries_le (h : MadeFor v l tree p) {b : Node} {role : PatternRole}
    {ks : List Node} (hks : ∀ k ∈ ks, k ∈ tree.parts)
    (ih : ∀ k ∈ ks, ((p.performed plugin k (.objectPattern role)).flatMap bindings).count b
      ≤ k.bindings.count b) :
    ((ks.flatMap (p.performed plugin · (.objectPattern role))).flatMap bindings).count b
        + ((ks.filterMap p.movedOut?).flatMap fun m => m.2.bindings).count b
      ≤ (ks.flatMap bindings).count b := by
  induction ks with
  | nil => exact Nat.le_refl _
  | cons k ks ihks =>
      have hrest := ihks (fun k' hk' => hks k' (List.mem_cons_of_mem _ hk'))
        fun k' hk' => ih k' (List.mem_cons_of_mem _ hk')
      have hk := ih k List.mem_cons_self
      rw [List.flatMap_cons, List.flatMap_append, List.flatMap_cons, List.count_append,
        List.count_append]
      cases hs : p.split? k with
      | none =>
          have hstays : p.isMoved k = false := by rw [isMoved, hs]; rfl
          rw [List.filterMap_cons_none (movedOut?_of_stays hstays)]
          omega
      | some s =>
          -- the property is gone, and its name stands alone
          obtain ⟨_, _, _, hmoves⟩ := h.moves (hks k List.mem_cons_self) hs
          obtain ⟨isShorthand, key, name, rfl, -⟩ := hmoves.entry.kind
          have hsome : p.movedOut? (.node (.patternProperty false isShorthand) s.property [key, name])
              = some (s.method, name) := by
            simp only [movedOut?, hs, Option.map_some]
          have hgone : p.performed plugin
              (.node (.patternProperty false isShorthand) s.property [key, name])
                (.objectPattern role) = [] := by
            rw [performed_node, isRemoved_eq_false (by intro heq; cases heq), if_neg Bool.false_ne_true,
              show p.isMoved _ = true from Option.isSome_iff_exists.mpr ⟨s, hs⟩, Bool.or_true,
              if_pos rfl]
          rw [List.filterMap_cons_some hsome, List.flatMap_cons, List.count_append, hgone,
            bindings_node_of_ne (by intro _ heq; cases heq)]
          simp only [List.flatMap_cons, List.flatMap_nil, List.count_append, List.count_nil]
          omega

/-- The declarators that a declarator of a pattern of properties is divided into. -/
theorem count_divided_le (h : MadeFor v l tree p) {b : Node} {span own : Span} {role : PatternRole}
    {ks : List Node} {value value' : Node}
    (hd : .node .declarator span [.node (.objectPattern role) own ks, value] ∈ tree.parts)
    (hvalue : value'.bindings.count b ≤ value.bindings.count b)
    (ih : ∀ k ∈ ks, ((p.performed plugin k (.objectPattern role)).flatMap bindings).count b
      ≤ k.bindings.count b) :
    ((p.dividedInto plugin (.node .declarator span [.node (.objectPattern role) own ks, value])
        [.node (.objectPattern role) own
          (ks.flatMap (p.performed plugin · (.objectPattern role))), value']).flatMap bindings).count b
      ≤ (node .declarator span [.node (.objectPattern role) own ks, value]).bindings.count b := by
  have hpt := mem_parts_trans (child_mem_parts List.mem_cons_self) hd
  have hkt : ∀ k ∈ ks, k ∈ tree.parts := fun k hk =>
    mem_parts_trans (mem_parts_of_child hk (self_mem_parts k)) hpt
  have hentries := h.count_entries_le hkt ih
  have hvw := h.wellPlaced.part
    (mem_parts_trans (child_mem_parts (List.mem_cons_of_mem _ List.mem_cons_self)) hd)
  have hmovedFrom : p.movedFrom (.node .declarator span [.node (.objectPattern role) own ks, value])
      = ks.filterMap p.movedOut? := rfl
  -- the value is copied only if it introduces nothing
  have hcopies : ((ks.filterMap p.movedOut?).flatMap fun m =>
        m.2.bindings ++ value'.bindings).count b
      = ((ks.filterMap p.movedOut?).flatMap fun m => m.2.bindings).count b := by
    rw [List.count_flatMap, List.count_flatMap]
    refine congrArg List.sum (List.map_congr_left fun m hm => ?_)
    have hstatic := h.isStaticChain_of_movedFrom hd (hmovedFrom ▸ hm)
    rw [bindings_of_isStaticChain hvw hstatic, List.count_nil] at hvalue
    simp only [Function.comp_apply, List.count_append]
    omega
  unfold dividedInto
  dsimp only
  rw [List.flatMap_append, List.count_append, List.flatMap_map, hmovedFrom]
  simp only [bindings_boundDeclarator]
  rw [hcopies]
  have hfront : ∀ {front : List Node}, front = [] ∨ front = [.node .declarator span
      [.node (.objectPattern role) own
        (ks.flatMap (p.performed plugin · (.objectPattern role))), value']] →
      (front.flatMap bindings).count b
        ≤ ((ks.flatMap (p.performed plugin · (.objectPattern role))).flatMap bindings).count b
          + value'.bindings.count b := by
    rintro front (rfl | rfl)
    · exact Nat.zero_le _
    · refine Nat.le_of_eq ?_
      rw [List.flatMap_singleton, bindings_declarator, bindings_objectPattern, List.count_append]
  rw [bindings_declarator, bindings_objectPattern, List.count_append]
  refine Nat.le_trans (Nat.add_le_add_right (hfront ?_) _) (by omega)
  split
  · exact .inl rfl
  · exact .inr rfl

/-- What a declarator becomes introduces a name no more often than the declarator, if what stands in
place of the parts of its children does not. -/
theorem count_dividedInto_le (h : MadeFor v l tree p) (plugin : String) {b : Node} {span : Span}
    {children : List Node} (hd : .node .declarator span children ∈ tree.parts)
    (ih : ∀ k ∈ children, ∀ m ∈ k.parts, ∀ above,
      ((p.performed plugin m above).flatMap bindings).count b ≤ m.bindings.count b)
    (hself : (node .declarator span
      (Form.declarator.askAll (children.map (p.performed plugin)))).bindings.count b
        ≤ (node .declarator span children).bindings.count b) :
    ((p.dividedInto plugin (.node .declarator span children)
        (Form.declarator.askAll (children.map (p.performed plugin)))).flatMap bindings).count b
      ≤ (node .declarator span children).bindings.count b := by
  have hone : (List.flatMap bindings [node .declarator span
      (Form.declarator.askAll (children.map (p.performed plugin)))]).count b
        ≤ (node .declarator span children).bindings.count b := by
    rwa [List.flatMap_singleton]
  -- entries move out only where an object pattern stands on the left
  by_cases hshape : ∃ role own ks value, children = [.node (.objectPattern role) own ks, value]
  · obtain ⟨role, own, ks, value, rfl⟩ := hshape
    have hvalue : value ∈ [node (.objectPattern role) own ks, value] :=
      List.mem_cons_of_mem _ List.mem_cons_self
    obtain ⟨value', hvalue'⟩ := h.exists_performed plugin hd hvalue
      (h.not_pruned_of_parent hd hvalue rfl) (h.not_moved_of_value hd).1 rfl rfl
    -- the value stays one node, and the pattern's entries keep their row
    have hvalue' : p.performed plugin value .declarator = [value'] := hvalue'
    have hparts : Form.declarator.askAll
        ([node (.objectPattern role) own ks, value].map (p.performed plugin))
        = [.node (.objectPattern role) own
            (ks.flatMap (p.performed plugin · (.objectPattern role))), value'] := by
      simp only [Form.askAll, List.map_cons, List.map_nil, List.flatMap_cons, List.flatMap_nil,
        performed_objectPattern, hvalue']
      rfl
    rw [hparts]
    refine h.count_divided_le hd ?_ fun k hk => ?_
    · have hle := ih value hvalue value (self_mem_parts value) .declarator
      rwa [hvalue', List.flatMap_singleton] at hle
    · exact ih _ List.mem_cons_self k (mem_parts_of_child hk (self_mem_parts k)) _
  · -- otherwise nothing is split off, and the declarator stays or is dropped whole
    have hnone : p.movedFrom (node .declarator span children) = [] :=
      movedFrom_of_shape fun role own ks value heq => hshape ⟨role, own, ks, value, heq⟩
    unfold dividedInto
    split
    case h_1 =>
      rw [hnone, List.map_nil, List.append_nil]
      split
      · exact Nat.zero_le _
      · exact hone
    case h_2 => exact hone

/-- What stands in place of a node introduces a name no more often than the node does. -/
theorem count_performed_le (h : MadeFor v l tree p) (plugin : String) {b : Node} (n : Node)
    (hn : n ∈ tree.parts) :
    ∀ m ∈ n.parts, ∀ above,
      ((p.performed plugin m above).flatMap bindings).count b ≤ m.bindings.count b := by
  induction n with
  | node form span children ih =>
      have hbelow : ∀ k ∈ children, ∀ m ∈ k.parts, ∀ above,
          ((p.performed plugin m above).flatMap bindings).count b ≤ m.bindings.count b := fun k hk =>
        ih k hk (mem_parts_trans (mem_parts_of_child hk (self_mem_parts k)) hn)
      intro m hm above
      rcases mem_parts_node.mp hm with rfl | ⟨k, hk, hmk⟩
      case inr => exact hbelow k hk m hmk above
      have hparts : ((form.askAll (children.map (p.performed plugin))).flatMap bindings).count b
          ≤ (children.flatMap bindings).count b :=
        Form.count_askAll_le fun k hk above => hbelow k hk k (self_mem_parts k) above
      rw [performed_node]
      split
      · split
        · exact Nat.zero_le _
        · exact Nat.zero_le _
      split
      · exact Nat.zero_le _
      -- a node is put together again from what stands in place of its children
      have hself : (node form span (form.askAll (children.map (p.performed plugin)))).bindings.count b
          ≤ (node form span children).bindings.count b := by
        by_cases hname : form.isWord = true
        · have hw := h.wellPlaced.part hn
          cases hw with
          | node fits =>
            obtain rfl := fits.word hname
            exact Nat.le_of_eq (by rw [List.map_nil, Form.askAll_nil])
        · have hne : ∀ name, form ≠ .binding name := by
            rintro name rfl
            exact hname rfl
          rw [bindings_node_of_ne hne, bindings_node_of_ne hne]
          exact hparts
      have hone : ∀ {x : Node}, x.bindings.count b ≤ (node form span children).bindings.count b →
          ([x].flatMap bindings).count b ≤ (node form span children).bindings.count b := fun hx => by
        rwa [List.flatMap_singleton]
      cases form with
      | call isOptional isPure =>
          unfold restored
          dsimp only
          split
          · exact hone hself
          · cases hchain : (p.substitutions.lookup span).bind ofChain? with
            | none => exact hone hself
            | some chain =>
                obtain ⟨names, -, hchain⟩ := Option.bind_eq_some_iff.mp hchain
                refine hone ?_
                rw [Option.getD_some, bindings_of_ofChain hchain]
                exact Nat.zero_le _
      | member isOptional name =>
          refine hone ?_
          split
          · rw [bindings_boundTo]
            exact hself
          · exact hself
      | variableDeclaration kind =>
          unfold restored
          dsimp only
          split
          · exact Nat.zero_le _
          · exact hone hself
      | declarator =>
          exact h.count_dividedInto_le plugin hn hbelow hself
      | _ => exact hone hself

/-- An edited program introduces a name no more often than the program. -/
theorem count_apply_le (h : MadeFor v l tree p) (plugin : String) (b : Node) :
    (p.apply plugin tree).1.bindings.count b ≤ tree.bindings.count b := by
  have hle := h.count_performed_le plugin (b := b) tree (self_mem_parts tree) tree
    (self_mem_parts tree) .absent
  rwa [h.performed_tree, List.flatMap_singleton] at hle

end MadeFor

end EditPlan

/-- An edit introduces no name. So nothing stands between a name that an edit puts in and the host
that the program did not put there itself. -/
theorem planEdits_introduces_nothing {config : TransformConfig} {plugin source : String}
    {p : Program} (hp : Program.parse? source = some p) (b : Node) :
    ((planEdits config plugin p.tree).1.apply plugin p.tree).1.bindings.count b
      ≤ p.tree.bindings.count b :=
  (planEdits_madeFor config plugin (Program.wellPlaced_of_parse? hp)
    (Program.form_of_parse? hp)).count_apply_le plugin b

end Graft
