import Graft.Proofs.Edit.Kinds
import Graft.Proofs.Edit.Standing
/-!
Whether an edited program is put together as a program is.

The rules of placement say what the children of a node may be (`Node.Suits`). An edit replaces
children by others, moves them and takes them away, and all it makes keeps these rules
(`EditPlan.MadeFor.suits_performed`), but for one thing: the value of an arrow function is a
statement in its tree, and if that statement goes away the arrow is left without a value
(`EditPlan.emptiesArrow`). So an edited program is put together as a program is if and only if this
happens nowhere (`planEdits_suited_iff`).

# Form by form

- A form that keeps each of its children asks of them what they keep too: their forms where these
  matter, and at most their rank (`EditPlan.MadeFor.suits_steady`).
- What is left of a pattern are entries of the pattern, with the rest element at the end
  (`EditPlan.MadeFor.suits_pattern`).
- A declaration asks for a declarator. If none is left the declaration goes away as well, and it
  can, for it stands among statements then (`EditPlan.MadeFor.suits_of_declaration`).
- A case asks for an expression as its test, and the test stands alone
  (`EditPlan.MadeFor.suits_of_case`).
-/
namespace Graft

namespace Node

-- ============================================================ suited trees

/-- Whether every node of a tree suits its children. -/
def Suited (t : Node) : Prop := ∀ n ∈ t.parts, Suits n.form n.children

/-- A tree is suited if its children suit its form and are suited themselves. -/
theorem suited_node {form : Form} {span : Span} {children : List Node} :
    (node form span children).Suited ↔ Suits form children ∧ ∀ k ∈ children, k.Suited := by
  constructor
  · intro h
    exact ⟨h _ (self_mem_parts _), fun k hk n hn => h n (mem_parts_of_child hk hn)⟩
  · rintro ⟨hsuits, hchildren⟩ n hn
    rcases mem_parts_node.mp hn with rfl | ⟨k, hk, hnk⟩
    · exact hsuits
    · exact hchildren k hk n hnk

/-- Well placed trees are suited. -/
theorem WellPlaced.suited {t : Node} (h : t.WellPlaced) : t.Suited := by
  intro n hn
  cases h.part hn with
  | node fits parts => exact fits.toSuits

theorem suited_access {object : Node} (h : object.Suited) (name : String) :
    (object.access name).Suited :=
  suited_node.mpr ⟨suits_of_isPlain rfl _, fun _ hk => List.mem_singleton.mp hk ▸ h⟩

/-- To bind something suited is suited. -/
theorem suited_boundTo {target : Node} (h : target.Suited) (plugin : String) :
    (target.boundTo plugin).Suited := by
  have hleaf : ∀ {form : Form}, form.isLeaf = true → (made form []).Suited := fun hform =>
    (wellPlaced_leaf hform).suited
  refine suited_node.mpr ⟨suits_of_isPlain rfl _, fun k hk => ?_⟩
  rcases List.mem_cons.mp hk with rfl | hk
  · exact suited_access h "bind"
  rcases List.mem_cons.mp hk with rfl | hk
  · exact hleaf rfl
  · exact List.mem_singleton.mp hk ▸ hleaf rfl

/-- A chain of names is suited if it does not start with a word of the language. -/
theorem suited_ofChain {names : List String} {chain : Node} (h : ofChain? names = some chain)
    (hname : ∀ first ∈ names.head?, Keyword.ofText? first.toList = none) : chain.Suited := by
  cases names with
  | nil => cases h
  | cons first names =>
      obtain rfl := Option.some.inj h
      have hfold : ∀ (names : List String) {n : Node}, n.Suited → (names.foldl access n).Suited := by
        intro names
        induction names with
        | nil => exact id
        | cons name names ih => exact fun hn => ih (suited_access hn name)
      exact hfold names (wellPlaced_identifier (hname first rfl)).suited

end Node

namespace EditPlan

open Node Survey

variable {v : Survey} {l : Liveness} {tree : Node} {p : EditPlan} {plugin : String} {n x : Node}
  {form above : Form} {span : Span} {children parts : List Node}

/-- Whether the plan takes the value of an arrow function away. -/
def emptiesArrow (p : EditPlan) (n : Node) : Bool :=
  match n with
  | .node (.arrow _ true _ _) _ [_, .node .functionBody _ [statement]] => p.isRemoved statement
  | _ => false

namespace MadeFor

-- ============================================================ what suits a form

/-- An arrow function that keeps its value has a value. -/
theorem hasShape_arrow (h : MadeFor v l tree p) {isAsync inert parenthesized : Bool} {f : Node → Node}
    (hn : .node (.arrow isAsync true inert parenthesized) span children ∈ tree.parts)
    (hkeeps : p.emptiesArrow (.node (.arrow isAsync true inert parenthesized) span children) = false)
    (hone : ∀ k ∈ children,
      p.performed plugin k (.arrow isAsync true inert parenthesized) = [f k]) :
    HasShape (.arrow isAsync true inert parenthesized) (children.map f) := by
  cases h.wellPlaced.part hn with
  | node fits parts =>
      obtain ⟨params, own, place, value, rfl⟩ := fits.shape
      have hstays : p.isRemoved (.node .expressionStatement place [value]) = false := hkeeps
      have hbody := mem_parts_trans (child_mem_parts (n := node _ span [params, _])
        (List.mem_cons_of_mem _ List.mem_cons_self)) hn
      have hstatement := mem_parts_trans (child_mem_parts List.mem_cons_self) hbody
      obtain ⟨g, -, hg⟩ := h.exists_map plugin hstatement rfl
      have hplain : Form.functionBody ≠ .expressionStatement := by simp
      have hkept := hone _ (List.mem_cons_of_mem _ List.mem_cons_self)
      rw [performed_of_plain hplain rfl] at hkept
      simp only [restored, Form.askAll, List.map_cons, List.map_nil, List.flatMap_cons,
        List.flatMap_nil, performed_statement hstays, List.append_nil, List.cons.injEq, and_true]
        at hkept
      refine ⟨f params, own, place, g value, ?_⟩
      rw [List.map_cons, List.map_cons, List.map_nil, ← hkept]
      exact congrArg (fun ks => [f params, node .functionBody own [node .expressionStatement place ks]])
        (hg value List.mem_cons_self)

/-- Nothing that is assigned to is rewritten. -/
theorem stays_of_isTarget (h : MadeFor v l tree p) (hplace : .node .place span children ∈ tree.parts)
    (hn : n ∈ children) (htarget : n.form.isTarget = true) :
    p.isRemoved n = false ∧ p.isRewritten n = false := by
  have hunbound : p.isBound n = false := eq_false_of_ne_true fun hbound => by
    cases h.holdsValues_of_isBound hplace hn hbound
  rw [isRewritten, hunbound, isSubstituted]
  cases n with
  | node form place ks =>
      change form.isTarget = true at htarget
      cases form <;> first | exact ⟨rfl, rfl⟩ | cases htarget

/-- The nodes that children become, one each, have the shape that the form asks for. -/
theorem hasShape_map (h : MadeFor v l tree p) {f : Node → Node}
    (hn : .node form span children ∈ tree.parts) (hsteady : form.isSteady = true)
    (hkeeps : p.emptiesArrow (.node form span children) = false)
    (hone : ∀ k ∈ children, p.performed plugin k form = [f k]) :
    HasShape form (children.map f) := by
  have hperformed : ∀ k ∈ children, f k ∈ p.performed plugin k form := fun k hk =>
    hone k hk ▸ List.mem_singleton_self _
  cases h.wellPlaced.part hn with
  | node fits parts =>
  have hshape := fits.shape
  cases form with
  | rest =>
      obtain ⟨pattern, rfl⟩ := hshape
      exact ⟨f pattern, rfl⟩
  | patternProperty isComputed isShorthand =>
      obtain ⟨key, value, rfl⟩ := hshape
      exact ⟨f key, f value, rfl⟩
  -- where a shape asks a form of the children, `f` keeps it: none of them changes its form
  | object =>
      intro x hx
      obtain ⟨k, hk, rfl⟩ := List.mem_map.mp hx
      have hentry : k.form.isObjectEntry = true := hshape k hk
      rw [form_performed (Form.isFirm_of hentry (fun _ _ => rfl) (fun _ _ => rfl) rfl)
        (hperformed k hk)]
      exact hentry
  | classValue =>
      intro x hx
      rw [List.head?_map] at hx
      obtain ⟨k, hk, rfl⟩ := Option.map_eq_some_iff.mp hx
      have hword : k.form.isWord = true := hshape k hk
      rw [form_performed (Form.isFirm_of hword (fun _ _ => rfl) (fun _ _ => rfl) rfl)
        (hperformed k (List.mem_of_mem_head? hk))]
      exact hword
  | string units =>
      obtain rfl : children = [] := hshape
      rfl
  -- nothing that is assigned to is rewritten, so a target stays a target
  | place =>
      intro x hx
      obtain ⟨k, hk, rfl⟩ := List.mem_map.mp hx
      have htarget : k.form.isTarget = true := hshape k hk
      obtain ⟨hstays, hsame⟩ := h.stays_of_isTarget hn hk htarget
      rw [form_of_stays hstays hsame (hperformed k hk)]
      exact htarget
  | arrow isAsync isExpression inert parenthesized =>
      cases isExpression with
      | false => trivial
      | true => exact h.hasShape_arrow hn hkeeps hone
  -- the forms that are not steady, whose rows may grow or shrink
  | objectPattern | variableDeclaration | case => cases hsteady
  | _ => trivial

/-- What stands in place of the children of a form that keeps each of them suits the form. -/
theorem suits_steady (h : MadeFor v l tree p) (plugin : String)
    (hn : .node form span children ∈ tree.parts) (hsteady : form.isSteady = true)
    (hkeeps : p.emptiesArrow (.node form span children) = false) :
    Suits form (form.askAll (children.map (p.performed plugin))) := by
  obtain ⟨f, hf, hone⟩ := h.exists_map plugin hn hsteady
  have hperformed : ∀ k ∈ children, f k ∈ p.performed plugin k form := fun k hk =>
    hone k hk ▸ List.mem_singleton_self _
  rw [hf]
  cases h.wellPlaced.part hn with
  | node fits parts =>
  refine ⟨fun hword => ?_, fits.name, fun hstatement x hx => ?_, fun hkeyed x hx => ?_,
    fun hentries x hx => ?_, fun hdeclaration => ?_, fun x hx => ?_,
    h.hasShape_map hn hsteady hkeeps hone⟩
  · rw [fits.word hword, List.map_nil]
  · obtain ⟨k, hk, rfl⟩ := List.mem_map.mp hx
    exact h.isClosed_performed (mem_parts_trans (mem_parts_of_child hk (self_mem_parts k)) hn)
      (fits.statement hstatement k hk) (hperformed k hk)
  · rw [List.head?_map] at hx
    obtain ⟨k, hk, rfl⟩ := Option.map_eq_some_iff.mp hx
    have hbare : k.isBare = true := fits.key hkeyed k hk
    have hsame := hone k (List.mem_of_mem_head? hk)
    rw [performed_of_isBare hbare, List.singleton_inj] at hsame
    exact hsame ▸ hbare
  · obtain ⟨k, hk, rfl⟩ := List.mem_map.mp hx
    exact Nat.le_trans (rank_performed (hperformed k hk)) (fits.entries hentries k hk)
  · rw [Form.isSteady, hdeclaration, Bool.not_true, Bool.and_false] at hsteady
    cases hsteady
  · rw [Form.targets_map] at hx
    obtain ⟨k, hk, rfl⟩ := List.mem_map.mp hx
    have htakes := fits.targets k hk
    rw [form_performed (Form.isFirm_of_takesValue htakes) (hperformed k (form.targets_subset _ hk))]
    exact htakes

/-- What is left of the entries of a pattern of properties: properties, and perhaps a rest element
at the end. -/
theorem hasShape_objectPattern {role : PatternRole} (hshape : HasShape (.objectPattern role) children) :
    HasShape (.objectPattern role)
      (children.flatMap (p.performed plugin · (.objectPattern role))) := by
  rcases List.eq_nil_or_concat children with rfl | ⟨front, last, rfl⟩
  · exact hshape
  -- all entries but the last are properties, and the last may be the rest
  obtain ⟨hfront, hlast⟩ := hshape
  rw [List.concat_eq_append, List.dropLast_concat] at hfront
  rw [List.concat_eq_append, List.getLast?_concat] at hlast
  have hproperties : ∀ x ∈ front.flatMap (p.performed plugin · (.objectPattern role)),
      x.form.isPatternProperty = true := by
    intro x hx
    obtain ⟨k, hk, hx⟩ := List.mem_flatMap.mp hx
    have hproperty := hfront k hk
    -- an entry keeps its form wherever it stays
    rw [form_performed (Form.isFirm_of_takesValue ?_) hx]
    · exact hproperty
    · obtain ⟨_, _, hform⟩ := Form.exists_of_isPatternProperty hproperty
      rw [hform]
      rfl
  have hentry : last.form.isEntry = true := by
    rcases hlast last rfl with hproperty | hrest
    · exact isEntry_of_isPatternProperty hproperty
    · rw [hrest]
      rfl
  rw [List.concat_eq_append, List.flatMap_append, List.flatMap_singleton]
  -- the last one goes or stays; where it goes, the row of properties that is left is a shape too
  have hleft : p.performed plugin last (.objectPattern role) = []
      ∨ ∃ ks, p.performed plugin last (.objectPattern role) = [.node last.form last.span ks] :=
    performed_entry hentry
  rcases hleft with hgone | ⟨ks, hkept⟩
  · rw [hgone, List.append_nil]
    exact ⟨fun k hk => hproperties k (List.mem_of_mem_dropLast hk),
      fun k hk => .inl (hproperties k (List.mem_of_getLast? hk))⟩
  · rw [hkept]
    refine ⟨?_, ?_⟩
    · rw [List.dropLast_concat]
      exact hproperties
    · intro k hk
      rw [List.getLast?_concat] at hk
      obtain rfl := Option.some.inj hk
      exact hlast last rfl

/-- What is left of the entries of a pattern suits a pattern. -/
theorem suits_pattern (h : MadeFor v l tree p) (plugin : String)
    (hn : .node form span children ∈ tree.parts) (hpattern : isPattern form = true) :
    Suits form (form.askAll (children.map (p.performed plugin))) := by
  cases h.wellPlaced.part hn with
  | node fits parts =>
  have hrank : form.holdsEntries = true → ∀ x ∈ form.askAll (children.map (p.performed plugin)),
      x.form.rank ≤ 3 := by
    intro hentries x hx
    obtain ⟨k, hk, a, -, hx, -⟩ := Form.exists_of_mem_askAll hx
    exact Nat.le_trans (rank_performed hx) (fits.entries hentries k hk)
  cases form with
  | objectPattern role =>
      refine suits_of_entries rfl (hrank rfl) (by simp [Form.targets]) ?_
      rw [show Form.askAll (.objectPattern role) (children.map (p.performed plugin))
        = children.flatMap (p.performed plugin · (.objectPattern role)) from List.flatMap_map ..]
      exact hasShape_objectPattern fits.shape
  | arrayPattern role =>
      refine suits_of_entries rfl (hrank rfl) (fun x htarget => ?_) trivial
      have hmem := Form.targets_subset (.arrayPattern role) _ htarget
      obtain ⟨k, hk, a, -, hx, -⟩ := Form.exists_of_mem_askAll hmem
      have htakes := fits.targets k hk
      rw [form_performed (Form.isFirm_of_takesValue htakes) hx]
      exact htakes
  | _ => cases hpattern

/-- A declarator of which nothing is left may go away. -/
theorem droppable_of_performed
    (hgone : p.performed plugin (.node .declarator span children) above = []) :
    span ∈ p.droppable := by
  have hplain : Form.declarator ≠ .expressionStatement := by simp
  rw [performed_of_plain hplain rfl] at hgone
  change p.dividedInto plugin _ _ = [] at hgone
  unfold dividedInto at hgone
  split at hgone
  case h_2 => cases hgone
  case h_1 =>
    have hnone := (List.append_eq_nil_iff.mp hgone).1
    split at hnone
    case isFalse => cases hnone
    case isTrue hdrops => exact List.contains_iff_mem.mp (Bool.and_eq_true_iff.mp hdrops).1

/-- What is left of the declarators of a declaration suits one, unless nothing is left; then the
declaration stands among statements and goes away. -/
theorem suits_of_declaration (h : MadeFor v l tree p) (hlists : ListsDroppable tree p) (plugin : String)
    {kind : VariableKind} (hn : .node (.variableDeclaration kind) span children ∈ tree.parts) :
    Suits (.variableDeclaration kind)
        (Form.askAll (.variableDeclaration kind) (children.map (p.performed plugin)))
      ∨ Form.askAll (.variableDeclaration kind) (children.map (p.performed plugin)) = []
        ∧ AmongStatements tree (.node (.variableDeclaration kind) span children) := by
  cases h.wellPlaced.part hn with
  | node fits parts =>
  have hform : ∀ k ∈ children, k.form = .declarator := fun k hk =>
    form_of_rank (fits.declarators rfl k hk)
  by_cases hsome : Form.askAll (.variableDeclaration kind) (children.map (p.performed plugin)) = []
  · refine .inr ⟨hsome, ?_⟩
    obtain ⟨k, hk⟩ := List.exists_mem_of_ne_nil children fits.shape
    obtain ⟨a, -, hsub⟩ := Form.exists_subset_askAll (.variableDeclaration kind) (p.performed plugin) hk
    rw [hsome] at hsub
    have hkt := mem_parts_trans (mem_parts_of_child hk (self_mem_parts k)) hn
    have hkform := hform k hk
    obtain ⟨form', place, ks⟩ := k
    obtain rfl : form' = .declarator := hkform
    -- the declarator that goes away is listed, and it stands in no other declaration
    obtain ⟨d, hd, hdform, hspan, q, hq, hdq, -, hamong⟩ :=
      hlists place (droppable_of_performed (List.subset_nil.mp hsub))
    have hdb : d.isBare = false := isBare_eq_false_of_form (by rw [hdform]; rfl)
    obtain rfl := h.wellPlaced.eq_of_span_eq hd hkt hdb (isBare_node ..) hspan (by rw [hdform]; rfl)
    exact h.wellPlaced.parent_eq hn hq hk hdq hdb ▸ hamong
  · refine .inl (suits_declaration (fun x hx => ?_) hsome)
    obtain ⟨k, hk, a, -, hx, -⟩ := Form.exists_of_mem_askAll hx
    rw [form_performed (by rw [hform k hk]; rfl) hx, hform k hk]

/-- What is left of a case suits one: its test becomes one node. -/
theorem suits_of_case (h : MadeFor v l tree p) (plugin : String)
    (hn : .node .case span children ∈ tree.parts) :
    Suits .case (Form.askAll .case (children.map (p.performed plugin))) := by
  cases h.wellPlaced.part hn with
  | node fits parts =>
  cases children with
  | nil => exact fits.toSuits
  | cons test statements =>
      have htest : test ∈ (node .case span (test :: statements)).children := List.mem_cons_self
      obtain ⟨x, hx⟩ := h.exists_performed_under plugin hn htest (.inr ⟨rfl, rfl⟩)
        (h.not_pruned_of_parent hn htest rfl) (h.not_moved_of_parent hn htest (by simp [Node.form]))
        rfl rfl
      change Suits .case (p.performed plugin test .switch ++ _)
      rw [hx]
      exact suits_case (Nat.le_trans (rank_performed (hx ▸ List.mem_singleton_self x))
        (fits.shape test rfl))

-- ============================================================ the whole tree

/-- What stands among statements is told so, if it is a declaration. -/
theorem told_of_declaration (h : MadeFor v l tree p) (hn : .node form span children ∈ tree.parts)
    {k : Node} {a : Form} (hk : k ∈ children) (ha : form.AsksOf children k a)
    (hdeclaration : k.form.isDeclaration = true) (hamong : AmongStatements tree k) :
    isStatementList a = true := by
  obtain ⟨kind, hkind⟩ := Form.exists_of_isDeclaration hdeclaration
  obtain ⟨r, hr, hkr, hlist⟩ := hamong
  obtain rfl := h.wellPlaced.parent_eq hn hr hk hkr (isBare_eq_false_of_form (by rw [hkind]; rfl))
  rcases ha with rfl | ⟨rfl, -, hhead⟩
  · exact hlist
  · -- no declaration is the test of a case
    cases h.wellPlaced.part hn with
    | node fits parts =>
        have hrank := fits.shape k hhead
        rw [hkind] at hrank
        exact absurd hrank (by simp [Form.rank])

/-- What stands in place of the children of a node suits the node, unless nothing is left of a
declaration. -/
theorem suits_performed (h : MadeFor v l tree p) (hlists : ListsDroppable tree p) (plugin : String)
    (hn : .node form span children ∈ tree.parts)
    (hkeeps : p.emptiesArrow (.node form span children) = false) :
    Suits form (form.askAll (children.map (p.performed plugin)))
      ∨ form.isDeclaration = true ∧ form.askAll (children.map (p.performed plugin)) = []
        ∧ AmongStatements tree (.node form span children) := by
  by_cases hdeclaration : form.isDeclaration = true
  · obtain ⟨kind, rfl⟩ := Form.exists_of_isDeclaration hdeclaration
    exact (h.suits_of_declaration hlists plugin hn).imp_right fun hgone => ⟨rfl, hgone⟩
  refine .inl ?_
  by_cases hpattern : isPattern form = true
  · exact h.suits_pattern plugin hn hpattern
  by_cases hlist : isStatementList form = true
  · cases form with
    | case => exact h.suits_of_case plugin hn
    | program | functionBody | block | staticBlock => exact suits_of_isPlain rfl _
    | _ => cases hlist
  · exact h.suits_steady plugin hn (by simp [Form.isSteady, hdeclaration, hpattern, hlist]) hkeeps

/-- If no arrow function loses its value, what stands in place of a node is put together as a
program is. -/
theorem suited_performed (h : MadeFor v l tree p) (hlists : ListsDroppable tree p)
    (hnames : ∀ e ∈ p.substitutions, ∀ first ∈ e.2.head?, Keyword.ofText? first.toList = none)
    (hkeeps : ∀ m ∈ tree.parts, p.emptiesArrow m = false) (hn : n ∈ tree.parts)
    (habove : n.form.isDeclaration = true → AmongStatements tree n → isStatementList above = true)
    (hx : x ∈ p.performed plugin n above) : x.Suited := by
  induction n generalizing above x with
  | node form span children ih =>
      have hparts : ∀ y ∈ form.askAll (children.map (p.performed plugin)), y.Suited := by
        intro y hy
        obtain ⟨k, hk, a, ha, hy, -⟩ := Form.exists_of_mem_askAll hy
        have hkt := mem_parts_trans (mem_parts_of_child hk (self_mem_parts k)) hn
        exact ih k hk hkt (h.told_of_declaration hn hk ha) hy
      have hsuits := h.suits_performed hlists plugin hn (hkeeps _ hn)
      cases performs_of_mem hx with
      | emptied => exact (wellPlaced_leaf rfl).suited
      | substituted _ hlookup hchain =>
          exact suited_ofChain hchain (hnames _ (mem_of_lookup hlookup))
      | bound hbound =>
          obtain ⟨_, _, heq⟩ := exists_form_of_isMember (Bool.and_eq_true_iff.mp hbound).1
          obtain rfl : form = _ := heq
          exact suited_boundTo (suited_node.mpr ⟨suits_of_isPlain rfl _, hparts⟩) plugin
      | @moved m value hform hmoved hvalue =>
          refine suited_node.mpr ⟨suits_of_isPlain rfl _, fun k hk => ?_⟩
          rcases List.mem_cons.mp hk with rfl | hk
          · exact (h.wellPlaced.part (mem_parts_trans (mem_parts_of_movedFrom hmoved) hn)).suited
          · exact List.mem_singleton.mp hk ▸
              suited_boundTo (suited_access (hparts value hvalue) m.1) plugin
      | kept _ hsome =>
          refine suited_node.mpr ⟨hsuits.resolve_right ?_, hparts⟩
          rintro ⟨hdeclaration, hnone, hamong⟩
          have hlist := habove hdeclaration hamong
          rw [hsome hdeclaration hnone] at hlist
          cases hlist

/-- An arrow function that loses its value is left without one. -/
theorem performed_emptied (h : MadeFor v l tree p) (plugin : String)
    {isAsync inert parenthesized : Bool} {own : Span} {params statement : Node}
    (hn : .node (.arrow isAsync true inert parenthesized) span
      [params, .node .functionBody own [statement]] ∈ tree.parts)
    (hgoes : p.isRemoved statement = true) (above : Form) :
    ∃ params', p.performed plugin (.node (.arrow isAsync true inert parenthesized) span
        [params, .node .functionBody own [statement]]) above
      = [.node (.arrow isAsync true inert parenthesized) span
          [params', .node .functionBody own []]] := by
  obtain ⟨f, hf, hone⟩ := h.exists_map plugin hn rfl
  have hbody : p.performed plugin (.node .functionBody own [statement])
      (.arrow isAsync true inert parenthesized) = [.node .functionBody own []] := by
    have hplain : Form.functionBody ≠ .expressionStatement := by simp
    have hgone : p.performed plugin statement .functionBody = [] := by
      cases statement with
      | node form place ks =>
          rw [performed_node, if_pos hgoes]
          rfl
    rw [performed_of_plain hplain rfl]
    simp only [restored, Form.askAll, List.map_cons, List.map_nil, List.flatMap_cons,
      List.flatMap_nil, hgone, List.append_nil]
  have hsame := hone _ (List.mem_cons_of_mem _ List.mem_cons_self)
  rw [hbody, List.singleton_inj] at hsame
  have hplain : Form.arrow isAsync true inert parenthesized ≠ .expressionStatement := by simp
  refine ⟨f params, ?_⟩
  rw [performed_of_plain hplain rfl, hf, List.map_cons, List.map_cons, List.map_nil, ← hsame]
  rfl

/-- If an arrow function loses its value, the result is not put together as a program is. -/
theorem not_suited_of_emptiesArrow (h : MadeFor v l tree p) (plugin : String) (hn : n ∈ tree.parts)
    (hempties : p.emptiesArrow n = true) : ¬ (p.apply plugin tree).1.Suited := by
  unfold emptiesArrow at hempties
  split at hempties
  case h_2 => cases hempties
  case h_1 isAsync inert parenthesized span params own statement =>
  have hform := form_of_isRemoved hempties
  have hinside : statement ∈ (node (.arrow isAsync true inert parenthesized) span
      [params, .node .functionBody own [statement]]).parts :=
    mem_parts_of_child (List.mem_cons_of_mem _ List.mem_cons_self) (child_mem_parts List.mem_cons_self)
  -- nothing around the arrow goes away, for the plan names a statement in it
  have hout : ∀ m ∈ tree.parts, .node (.arrow isAsync true inert parenthesized) span
      [params, .node .functionBody own [statement]] ∈ m.parts →
        p.isRemoved m = false ∧ p.isPruned m = false := by
    intro m hm hin
    refine h.stays_around hm (mem_parts_trans hinside hin) ?_ (by simp [plans, hempties])
      (by rw [isPruned, hform]; rfl)
    rintro rfl
    rw [eq_of_mem_parts hinside hin] at hform
    cases hform
  obtain ⟨a, ha⟩ := reached_of_outside hn hout .absent
  obtain ⟨params', hperformed⟩ := h.performed_emptied plugin hn hempties a
  intro hsuited
  have hmem : .node (.arrow isAsync true inert parenthesized) span
      [params', .node .functionBody own []] ∈ (p.apply plugin tree).1.parts :=
    h.mem_apply ha (hperformed ▸ List.mem_singleton_self _) rfl (by simp [Node.children])
  obtain ⟨_, _, _, _, heq⟩ := (hsuited _ hmem).shape
  cases heq

end MadeFor

end EditPlan

open Node EditPlan

/-- If no module is replaced by a chain that starts with a keyword, an edited program is put
together as a program is, exactly if no arrow function loses its value. -/
theorem planEdits_suited_iff {config : TransformConfig} {plugin source : String} {p : Program}
    (hnames : ∀ r ∈ config.replacements, ∀ first ∈ r.chain.head?, Keyword.ofText? first.toList = none)
    (hp : Program.parse? source = some p) :
    ((planEdits config plugin p.tree).1.apply plugin p.tree).1.Suited
      ↔ ∀ n ∈ p.tree.parts, (planEdits config plugin p.tree).1.emptiesArrow n = false := by
  have hw := Program.wellPlaced_of_parse? hp
  have h := planEdits_madeFor config plugin hw (Program.form_of_parse? hp)
  constructor
  · intro hsuited n hn
    exact eq_false_of_ne_true fun hempties => h.not_suited_of_emptiesArrow plugin hn hempties hsuited
  · intro hkeeps
    have hchains : ∀ e ∈ (planEdits config plugin p.tree).1.substitutions, ∀ first ∈ e.2.head?,
        Keyword.ofText? first.toList = none := by
      intro e he
      obtain ⟨_, _, _, _, -, hsubstitutes⟩ := h.grounded.substitutions e he
      obtain ⟨_, _, -, -, -, -, hreplacement⟩ := Survey.loads_of_substitutionFor? hsubstitutes
      obtain ⟨r, hr, hchain⟩ := Option.map_eq_some_iff.mp hreplacement
      exact hchain ▸ hnames r (List.mem_of_find?_eq_some hr)
    have hmem : ((planEdits config plugin p.tree).1.apply plugin p.tree).1
        ∈ (planEdits config plugin p.tree).1.performed plugin p.tree .absent :=
      h.performed_tree .absent ▸ List.mem_singleton_self _
    refine h.suited_performed (planEdits_lists config plugin hw) hchains hkeeps
      (self_mem_parts p.tree) (fun hform => ?_) hmem
    obtain ⟨_, hprogram⟩ := h.program
    rw [hprogram] at hform
    cases hform

/-- An arrow function that only calls a pure method of the host loses its value. -/
example : (Program.parse? "var f = () => BdApi.getModule(x);").any (fun p =>
    p.tree.parts.any (planEdits .standard "p" p.tree).1.emptiesArrow) = true := by
  decide +kernel

end Graft
