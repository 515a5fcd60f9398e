import Graft.Proofs.Tree.Parts
import Graft.Token.Lexeme
/-!
Where the nodes of a program stand in its text.

A span tells the nodes of a program apart, although many spans are shared: a statement without a
semicolon covers what its value covers, and so does a name under its declarator. What makes
spans identities all the same are two local rules (`Node.Fits`). The children of a node stand in
it one after the other; and where a child covers the whole node, it is of lower rank than the node
(`Form.rank`). A tree that keeps the rules everywhere is `Node.WellPlaced`.

A few children are no help in this: the key of a shorthand property stands where its value
stands, and what is said about how to read a module stands after the names taken from it. They
hold nothing but words and strings (`Form.aside`), so nothing is lost without them.

The rules also say what may be a child of what, as far as the edits depend on it: a declarator
stands in a declaration and nowhere else, what is assigned to is a place, a pattern or a
declaration, and no call stands in a place.
-/
namespace Graft

namespace Form

/-- Of a node and a child that covers the same text, the child has the lower rank. No declaration is
covered by a declarator, so declarators can have a rank that nothing else has. -/
def rank : Form → Nat
  | .absent => 0
  | .program _ => 6
  | .functionBody => 5
  | .expressionStatement | .variableDeclaration _ => 4
  | .declarator => 7
  | .parameters | .patternProperty .. | .property .. | .defaultedProperty | .importDefault
  | .importNamed | .exportName | .field .. => 3
  | .chain | .place | .defaulted => 2
  | _ => 1

/-- The children of a form that stand in it one after the other. -/
def placed (form : Form) (children : List Node) : List Node :=
  match form, children with
  | .property _ true, _ :: others | .patternProperty _ true, _ :: others
  | .importNamed, _ :: others | .importFrom .., _ :: others | .exportNames _, _ :: others => others
  | .exportName, first :: _ => [first]
  | .exportAll _, _ => []
  | _, _ => children

/-- The other children. -/
def aside (form : Form) (children : List Node) : List Node :=
  match form, children with
  | .property _ true, first :: _ | .patternProperty _ true, first :: _ | .importNamed, first :: _
  | .importFrom .., first :: _ | .exportNames _, first :: _ => [first]
  | .exportName, _ :: others => others
  | .exportAll _, _ => children
  | _, _ => []

/-- The children that have places are among the children, in order. -/
theorem placed_sublist (form : Form) (children : List Node) :
    (form.placed children).Sublist children := by
  unfold placed
  split
  case h_6 first others => exact List.singleton_sublist.mpr List.mem_cons_self
  case h_7 => exact List.nil_sublist _
  case h_8 => exact List.Sublist.refl _
  all_goals exact List.sublist_cons_self ..

/-- The children that stand aside are among the children, in order. -/
theorem aside_sublist (form : Form) (children : List Node) :
    (form.aside children).Sublist children := by
  unfold aside
  split
  case h_6 first others => exact List.sublist_cons_self ..
  case h_7 => exact List.Sublist.refl _
  case h_8 => exact List.nil_sublist _
  all_goals exact List.singleton_sublist.mpr List.mem_cons_self

/-- A child has a place or stands aside. -/
theorem mem_placed_or_aside (form : Form) {children : List Node} {k : Node} (h : k ∈ children) :
    k ∈ form.placed children ∨ k ∈ form.aside children := by
  unfold placed aside
  split
  case h_6 first others =>
    rcases List.mem_cons.mp h with rfl | h
    · exact .inl List.mem_cons_self
    · exact .inr h
  case h_7 => exact .inr h
  case h_8 => exact .inl h
  all_goals
    rcases List.mem_cons.mp h with rfl | h
    · exact .inr List.mem_cons_self
    · exact .inl h

/-- Whether a form is a single word, or nothing. -/
def isWord : Form → Bool
  | .absent | .identifier _ | .binding _ | .key _ => true
  | _ => false

/-- Whether a node of the form can only hold words and strings. -/
def isBare : Form → Bool
  | .absent | .key _ | .string _ | .number _ | .bigint _ | .attributes _ | .attributeEntry => true
  | _ => false

/-- Whether all that matters about the places of the children is that they stand in a form one
after the other. -/
def isWhole : Form → Bool
  | .property _ isShorthand | .patternProperty _ isShorthand => !isShorthand
  | .importNamed | .importFrom .. | .exportNames _ | .exportName | .exportAll _
  | .defaultedProperty => false
  | _ => true

/-- Whether the children of a form are the entries of a list in brackets or braces. -/
def holdsEntries : Form → Bool
  | .array | .object | .arrayPattern _ | .objectPattern _ => true
  | _ => false

/-- Whether the children of a form are declarators. -/
def isDeclaration : Form → Bool
  | .variableDeclaration _ => true
  | _ => false

/-- Whether a form names something that can be assigned to. -/
def isTarget : Form → Bool
  | .identifier _ | .member .. | .index _ | .privateMember .. => true
  | _ => false

/-- Whether a form can be given a value: a place, a pattern, or a declaration in the head of a
loop. -/
def takesValue : Form → Bool
  | .absent | .binding _ | .place | .objectPattern _ | .arrayPattern _ | .patternProperty ..
  | .defaulted | .rest | .variableDeclaration _ => true
  | _ => false

/-- The children of a form that something is assigned to. -/
def targets (form : Form) (children : List Node) : List Node :=
  match form with
  | .update .. | .arrayPattern _ | .rest => children
  | .assign _ | .defaulted | .forIn | .forOf _ => children.take 1
  | .patternProperty .. => children.drop 1
  | _ => []

/-- What is assigned to is a child. -/
theorem targets_subset (form : Form) (children : List Node) : form.targets children ⊆ children := by
  unfold targets
  split
  case h_8 => exact fun _ h => List.mem_of_mem_drop h
  case h_9 => exact List.nil_subset _
  case h_1 | h_2 | h_3 => exact List.Subset.refl _
  all_goals exact fun _ h => List.mem_of_mem_take h

/-- Whether something is assigned to a child of a form that says nothing else about its
children. -/
def isAssigning : Form → Bool
  | .update .. | .assign _ | .defaulted | .forIn | .forOf _ => true
  | _ => false

/-- Whether the first child of a form is a key that is not computed. -/
def isKeyed : Form → Bool
  | .property isComputed _ | .patternProperty isComputed _ => !isComputed
  | _ => false

/-- Whether a form is a member of an object. -/
def isObjectEntry : Form → Bool
  | .property .. | .defaultedProperty | .method .. | .spread => true
  | _ => false

/-- Whether a form is a property of a pattern. -/
def isPatternProperty : Form → Bool
  | .patternProperty .. => true
  | _ => false

/-- A property of a pattern is of one of the pattern-property forms. -/
theorem exists_of_isPatternProperty {form : Form} (h : form.isPatternProperty = true) :
    ∃ isComputed isShorthand, form = .patternProperty isComputed isShorthand := by
  unfold isPatternProperty at h
  split at h
  case h_1 => exact ⟨_, _, rfl⟩
  case h_2 => cases h

/-- A declaration is of one of the kinds of declarations. -/
theorem exists_of_isDeclaration {form : Form} (h : form.isDeclaration = true) :
    ∃ kind, form = .variableDeclaration kind := by
  unfold isDeclaration at h
  split at h
  case h_1 => exact ⟨_, rfl⟩
  case h_2 => cases h

/-- Whether a form says how many children it has, or of which kinds they are. -/
def isShaped : Form → Bool
  | .rest | .patternProperty .. | .objectPattern _ | .object | .classValue | .string _
  | .place | .variableDeclaration _ | .case => true
  | .arrow _ isExpression _ _ => isExpression
  | _ => false

/-- Whether a form says nothing about what its children are. -/
def isPlain (form : Form) : Bool :=
  !form.isWord && form != .expressionStatement && !form.isKeyed && !form.holdsEntries
    && !form.isDeclaration && !form.isAssigning && !form.isShaped

/-- A plain form assigns to nothing. -/
theorem targets_of_isPlain {form : Form} (h : form.isPlain = true) (children : List Node) :
    form.targets children = [] := by
  unfold targets
  split
  case h_8 => simp [isPlain, isShaped] at h
  case h_9 => rfl
  all_goals cases h

/-- Whether a form may have no children and say nothing else. -/
def isLeaf : Form → Bool
  | .identifier _ | .rest | .patternProperty .. | .arrow .. | .variableDeclaration _ => false
  | _ => true

/-- Whether a form keeps all names inside that its children introduce, by what is known of them. -/
def encloses (form : Form) (children : List Bool) : Bool :=
  match form, children with
  | .binding _, _ => false
  | .function .., _ | .arrow .., _ | .staticBlock, _ => true
  | .method .., first :: _ => first
  | .classValue, _ :: others => others.all id
  | _, _ => children.all id

end Form

namespace Node

/-- Whether a tree holds nothing but words and strings. -/
def isBare : Node → Bool :=
  fold fun form _ children => form.isBare && children.all Prod.snd

/-- Whether every name that a tree introduces stays inside it: it belongs to a function in the
tree, or is the name that a class of the tree bears. -/
def isClosed : Node → Bool :=
  fold fun form _ children => form.encloses (children.map Prod.snd)

-- ============================================================ rows of nodes

/-- Whether a node covers text between two offsets. -/
def Sits (lo hi : Nat) (n : Node) : Prop :=
  lo ≤ n.span.start ∧ n.span.start < n.span.stop ∧ n.span.stop ≤ hi

/-- Nodes that stand one after the other between two offsets; some may be missing. -/
structure Row (lo hi : Nat) (ns : List Node) : Prop where
  sits : ∀ n ∈ ns, n.isAbsent = false → n.Sits lo hi
  apart : ns.Pairwise fun m n =>
    m.isAbsent = false → n.isAbsent = false → m.span.stop ≤ n.span.start

theorem row_nil (lo hi : Nat) : Row lo hi [] where
  sits _ h := absurd h List.not_mem_nil
  apart := .nil

/-- A missing node is a row anywhere. -/
theorem row_absent (lo hi : Nat) : Row lo hi [absent] where
  sits n hn hp := by
    obtain rfl := List.mem_singleton.mp hn
    cases hp
  apart := List.pairwise_singleton ..

theorem row_singleton {lo hi : Nat} {n : Node} (h : n.Sits lo hi) : Row lo hi [n] where
  sits _ hm _ := List.mem_singleton.mp hm ▸ h
  apart := List.pairwise_singleton ..

/-- What a row asks of a node. -/
def place (n : Node) : Span × Bool := (n.span, n.isAbsent)

/-- Nodes in the places of the nodes of a row are a row. -/
theorem Row.congr {lo hi : Nat} {ms ns : List Node} (h : Row lo hi ms)
    (hplace : ns.map place = ms.map place) : Row lo hi ns where
  sits n hn hp := by
    have hmem : n.place ∈ ms.map place := hplace ▸ List.mem_map_of_mem hn
    obtain ⟨m, hm, heq⟩ := List.mem_map.mp hmem
    obtain ⟨hspan, habsent⟩ := Prod.mk.inj heq
    have hsits := h.sits m hm (habsent.trans hp)
    rw [Sits, hspan] at hsits
    exact hsits
  apart := by
    have hms : (ms.map place).Pairwise fun p q : Span × Bool =>
        p.2 = false → q.2 = false → p.1.stop ≤ q.1.start := List.pairwise_map.mpr h.apart
    rw [← hplace] at hms
    exact List.pairwise_map.mp hms

/-- A row between two offsets is one between wider offsets. -/
theorem Row.mono {lo hi lo' hi' : Nat} {ns : List Node} (h : Row lo hi ns) (hlo : lo' ≤ lo)
    (hhi : hi ≤ hi') : Row lo' hi' ns where
  sits n hn hp := by
    obtain ⟨h₁, h₂, h₃⟩ := h.sits n hn hp
    exact ⟨by omega, h₂, by omega⟩
  apart := h.apart

/-- Two rows of which the second one begins where the first one has ended. -/
theorem Row.append {lo mid mid' hi : Nat} {ms ns : List Node} (hm : Row lo mid ms)
    (hn : Row mid' hi ns) (hlo : lo ≤ mid') (hmid : mid ≤ mid') (hhi : mid ≤ hi) :
    Row lo hi (ms ++ ns) where
  sits n h hp := by
    rcases List.mem_append.mp h with h | h
    · obtain ⟨h₁, h₂, h₃⟩ := hm.sits n h hp
      exact ⟨h₁, h₂, by omega⟩
    · obtain ⟨h₁, h₂, h₃⟩ := hn.sits n h hp
      exact ⟨by omega, h₂, h₃⟩
  apart := by
    refine List.pairwise_append.mpr ⟨hm.apart, hn.apart, ?_⟩
    intro _ hmmem n hnmem hpm hpn
    obtain ⟨-, -, h₁⟩ := hm.sits _ hmmem hpm
    obtain ⟨h₂, -, -⟩ := hn.sits n hnmem hpn
    omega

-- ============================================================ the local rules

/-- What the shaped forms say about their children. -/
def HasShape (form : Form) (children : List Node) : Prop :=
  match form with
  | .rest => ∃ pattern, children = [pattern]
  | .patternProperty .. => ∃ key value, children = [key, value]
  | .objectPattern _ => (∀ k ∈ children.dropLast, k.form.isPatternProperty = true)
      ∧ ∀ k ∈ children.getLast?, k.form.isPatternProperty = true ∨ k.form = .rest
  | .object => ∀ k ∈ children, k.form.isObjectEntry = true
  | .classValue => ∀ k ∈ children.head?, k.form.isWord = true
  | .string _ => children = []
  | .place => ∀ k ∈ children, k.form.isTarget = true
  | .variableDeclaration _ => children ≠ []
  | .case => ∀ k ∈ children.head?, k.form.rank ≤ 2
  | .arrow _ true _ _ => ∃ params own span value,
      children = [params, .node .functionBody own [.node .expressionStatement span [value]]]
  | _ => True

/-- What a form says about what its children are. -/
structure Suits (form : Form) (children : List Node) : Prop where
  word : form.isWord = true → children = []
  /-- No keyword is read as a name. -/
  name : ∀ name, form = .identifier name → Keyword.ofText? name.toList = none
  /-- A statement that is a value introduces nothing. -/
  statement : form = .expressionStatement → ∀ k ∈ children, k.isClosed = true
  /-- A key that is not computed is a word, a number or a string. -/
  key : form.isKeyed = true → ∀ k ∈ children.head?, k.isBare = true
  /-- Statements do not stand among entries. -/
  entries : form.holdsEntries = true → ∀ k ∈ children, k.form.rank ≤ 3
  declarators : form.isDeclaration = true → ∀ k ∈ children, k.form.rank = Form.rank .declarator
  /-- What is assigned to can be given a value. -/
  targets : ∀ k ∈ form.targets children, k.form.takesValue = true
  shape : HasShape form children

/-- What a node says about its children. -/
structure Fits (form : Form) (span : Span) (children : List Node) : Prop extends
    Suits form children where
  row : Row span.start span.stop (form.placed children)
  /-- A child that covers the whole node is of lower rank. -/
  inner : ∀ k ∈ form.placed children, k.isAbsent = false → k.span = span →
    k.form.rank < form.rank
  aside : ∀ k ∈ form.aside children, k.isBare = true
  /-- What has a default instead of a key is a name, and the default does not cover it. -/
  default : form = .defaultedProperty →
    (∀ k ∈ children.head?, ∃ name, k.form = .identifier name)
      ∧ ∀ k ∈ children, k.isAbsent = false → k.span ≠ span
  /-- Declarators stand in declarations only. -/
  free : form.isDeclaration = false → ∀ k ∈ children, k.form.rank < Form.rank .declarator

/-- A tree that keeps the rules everywhere. -/
inductive WellPlaced : Node → Prop
  | node {form : Form} {span : Span} {children : List Node} (fits : Fits form span children)
      (parts : ∀ k ∈ children, k.WellPlaced) : WellPlaced (.node form span children)

/-- A form that is not shaped allows any children. -/
theorem hasShape_of_not_isShaped {form : Form} (h : form.isShaped = false)
    (children : List Node) : HasShape form children := by
  unfold HasShape
  split <;> trivial

/-- A plain form allows any children, in all respects. -/
theorem suits_of_isPlain {form : Form} (h : form.isPlain = true) (children : List Node) :
    Suits form children := by
  have htargets := Form.targets_of_isPlain h children
  simp only [Form.isPlain, Bool.and_eq_true, Bool.not_eq_true', bne_iff_ne] at h
  obtain ⟨⟨⟨⟨⟨⟨hword, hstatement⟩, hkeyed⟩, hentries⟩, hdeclaration⟩, -⟩, hshape⟩ := h
  refine ⟨fun hw => ?_, fun name hf => ?_, fun hf => absurd hf hstatement, fun hk => ?_,
    fun he => ?_, fun hd => ?_, by simp [htargets], hasShape_of_not_isShaped hshape children⟩
  · rw [hword] at hw
    cases hw
  · subst hf
    cases hword
  · rw [hkeyed] at hk
    cases hk
  · rw [hentries] at he
    cases he
  · rw [hdeclaration] at hd
    cases hd

/-- A form that only assigns asks for targets that take values. -/
theorem suits_of_isAssigning {form : Form} {children : List Node} (hform : form.isAssigning = true)
    (h : ∀ k ∈ form.targets children, k.form.takesValue = true) : Suits form children where
  word hw := by
    cases form <;>
      first | exact absurd hform Bool.false_ne_true | exact absurd hw Bool.false_ne_true
  name _ hf := by subst hf; cases hform
  statement hf := by subst hf; cases hform
  key hk := by
    cases form <;>
      first | exact absurd hform Bool.false_ne_true | exact absurd hk Bool.false_ne_true
  entries he := by
    cases form <;>
      first | exact absurd hform Bool.false_ne_true | exact absurd he Bool.false_ne_true
  declarators hd := by
    cases form <;>
      first | exact absurd hform Bool.false_ne_true | exact absurd hd Bool.false_ne_true
  targets := h
  shape := by
    unfold HasShape
    split
    case h_11 => trivial
    all_goals cases hform

/-- A pattern or an object asks this of its entries. -/
theorem suits_of_entries {form : Form} {children : List Node} (hform : form.holdsEntries = true)
    (h : ∀ k ∈ children, k.form.rank ≤ 3)
    (htargets : ∀ k ∈ form.targets children, k.form.takesValue = true)
    (hshape : HasShape form children) : Suits form children where
  word hw := by
    cases form <;>
      first | exact absurd hform Bool.false_ne_true | exact absurd hw Bool.false_ne_true
  name _ hf := by subst hf; cases hform
  statement hf := by subst hf; cases hform
  key hk := by
    cases form <;>
      first | exact absurd hform Bool.false_ne_true | exact absurd hk Bool.false_ne_true
  entries _ := h
  declarators hd := by
    cases form <;>
      first | exact absurd hform Bool.false_ne_true | exact absurd hd Bool.false_ne_true
  targets := htargets
  shape := hshape

/-- A declaration asks for at least one declarator, and nothing else. -/
theorem suits_declaration {kind : VariableKind} {children : List Node}
    (h : ∀ k ∈ children, k.form.rank = Form.rank .declarator) (hsome : children ≠ []) :
    Suits (.variableDeclaration kind) children where
  word h := by cases h
  name _ h := by cases h
  statement h := by cases h
  key h := by cases h
  entries h := by cases h
  declarators _ := h
  targets := nofun
  shape := hsome

/-- A place asks for something that can be assigned to. -/
theorem suits_place {target : Node} (h : target.form.isTarget = true) : Suits .place [target] where
  word h := by cases h
  name _ h := by cases h
  statement h := by cases h
  key h := by cases h
  entries h := by cases h
  declarators h := by cases h
  targets := nofun
  shape _ hk := List.mem_singleton.mp hk ▸ h

/-- An arrow function. Its body is a value or is read as one of a function. -/
theorem suits_arrow {isAsync isExpression inert parenthesized : Bool} {children : List Node}
    (h : HasShape (.arrow isAsync isExpression inert parenthesized) children) :
    Suits (.arrow isAsync isExpression inert parenthesized) children where
  word h := by cases h
  name _ h := by cases h
  statement h := by cases h
  key h := by cases h
  entries h := by cases h
  declarators h := by cases h
  targets := nofun
  shape := h

/-- In a whole form all children have places. -/
theorem placed_of_isWhole {form : Form} (h : form.isWhole = true) (children : List Node) :
    form.placed children = children := by
  unfold Form.placed
  split <;> first | rfl | cases h

/-- In a whole form no child stands aside. -/
theorem aside_of_isWhole {form : Form} (h : form.isWhole = true) (children : List Node) :
    form.aside children = [] := by
  unfold Form.aside
  split <;> first | rfl | cases h

/-- A whole form needs its children in a row, and none as large as itself. -/
theorem fits_of_isWhole {form : Form} {span : Span} {children : List Node}
    (h : form.isWhole = true) (hsuits : Suits form children)
    (hfree : form.isDeclaration = false → ∀ k ∈ children, k.form.rank < Form.rank .declarator)
    (hrow : Row span.start span.stop children)
    (hinner : ∀ k ∈ children, k.isAbsent = false → k.span = span → k.form.rank < form.rank) :
    Fits form span children where
  toSuits := hsuits
  free := hfree
  row := (placed_of_isWhole h children).symm ▸ hrow
  inner := (placed_of_isWhole h children).symm ▸ hinner
  aside := by simp [aside_of_isWhole h]
  default hf := by subst hf; cases h

/-- Only a missing node has the form of one. -/
theorem form_of_isAbsent {n : Node} (h : n.isAbsent = true) : n.form = .absent := by
  unfold isAbsent at h
  split at h
  case h_1 hform => exact hform
  case h_2 => cases h

/-- A node that is there has a rank. -/
theorem rank_pos {n : Node} (h : n.isAbsent = false) : 0 < n.form.rank := by
  unfold isAbsent at h
  split at h
  · cases h
  case h_2 hform =>
    cases hf : n.form with
    | absent => exact absurd hf hform
    | _ => simp [Form.rank]

/-- What has a rank is there. -/
theorem isAbsent_eq_false {n : Node} (h : 0 < n.form.rank) : n.isAbsent = false := by
  unfold isAbsent
  split
  case h_1 heq =>
    rw [heq] at h
    cases h
  case h_2 => rfl

/-- In a node of the lowest rank no child covers the node. -/
theorem Fits.span_ne {form : Form} {span : Span} {children : List Node}
    (h : Fits form span children) (hrank : form.rank = 1) :
    ∀ k ∈ form.placed children, k.isAbsent = false → k.span ≠ span := by
  intro k hk hp heq
  have h₁ := h.inner k hk hp heq
  have h₂ := rank_pos hp
  omega

/-- A leaf has the shape of one. -/
theorem hasShape_nil {form : Form} (h : form.isLeaf = true) : HasShape form [] := by
  unfold HasShape
  split
  case h_1 => cases h
  case h_2 => cases h
  case h_3 => exact ⟨nofun, nofun⟩
  case h_4 => exact nofun
  case h_5 => exact nofun
  case h_6 => rfl
  case h_7 => exact nofun
  case h_8 => cases h
  case h_9 => exact nofun
  case h_10 => cases h
  case h_11 => trivial

/-- A node without children keeps the rules, if its form can do without and is no keyword for a
name. -/
theorem fits_nil {form : Form} {span : Span} (hshape : HasShape form [])
    (hname : ∀ name, form = .identifier name → Keyword.ofText? name.toList = none) :
    Fits form span [] := by
  have hplaced : form.placed [] = [] := List.sublist_nil.mp (form.placed_sublist [])
  have haside : form.aside [] = [] := List.sublist_nil.mp (form.aside_sublist [])
  have htargets : form.targets [] = [] := List.subset_nil.mp (form.targets_subset [])
  exact
    { row := hplaced.symm ▸ row_nil ..
      inner := by simp [hplaced]
      aside := by simp [haside]
      word := fun _ => rfl
      name := hname
      statement := by simp
      key := by simp
      entries := by simp
      declarators := by simp
      targets := by simp [htargets]
      shape := hshape
      default := by simp
      free := by simp }

-- ============================================================ laid out nodes

/-- A row of well placed trees. -/
structure Laid (lo hi : Nat) (ns : List Node) : Prop where
  row : Row lo hi ns
  wellPlaced : ∀ n ∈ ns, n.WellPlaced

/-- A leaf is well placed anywhere. -/
theorem wellPlaced_leaf {form : Form} {span : Span} (h : form.isLeaf = true) :
    WellPlaced (.node form span []) :=
  .node (fits_nil (hasShape_nil h) fun _ hf => by
      subst hf
      cases h)
    fun _ h => absurd h List.not_mem_nil

/-- A name that is no keyword is well placed anywhere. -/
theorem wellPlaced_identifier {name : String} {span : Span}
    (h : Keyword.ofText? name.toList = none) : WellPlaced (.node (.identifier name) span []) :=
  .node (fits_nil trivial fun _ hf => by
      cases hf
      exact h)
    fun _ h => absurd h List.not_mem_nil

theorem wellPlaced_absent : WellPlaced absent := wellPlaced_leaf rfl

theorem laid_nil (lo hi : Nat) : Laid lo hi [] :=
  ⟨row_nil lo hi, fun _ h => absurd h List.not_mem_nil⟩

theorem laid_absent (lo hi : Nat) : Laid lo hi [absent] :=
  ⟨row_absent lo hi, fun _ h => List.mem_singleton.mp h ▸ wellPlaced_absent⟩

theorem laid_singleton {lo hi : Nat} {n : Node} (h : n.Sits lo hi) (hw : n.WellPlaced) :
    Laid lo hi [n] :=
  ⟨row_singleton h, fun _ hm => List.mem_singleton.mp hm ▸ hw⟩

theorem Laid.mono {lo hi lo' hi' : Nat} {ns : List Node} (h : Laid lo hi ns) (hlo : lo' ≤ lo)
    (hhi : hi ≤ hi') : Laid lo' hi' ns :=
  ⟨h.row.mono hlo hhi, h.wellPlaced⟩

/-- Two rows of well-placed nodes of which the second one begins where the first one has ended. -/
theorem Laid.append {lo mid mid' hi : Nat} {ms ns : List Node} (hm : Laid lo mid ms)
    (hn : Laid mid' hi ns) (hlo : lo ≤ mid') (hmid : mid ≤ mid') (hhi : mid ≤ hi) :
    Laid lo hi (ms ++ ns) where
  row := hm.row.append hn.row hlo hmid hhi
  wellPlaced n h := by
    rcases List.mem_append.mp h with h | h
    · exact hm.wellPlaced n h
    · exact hn.wellPlaced n h

/-- One node before a row of well-placed nodes. -/
theorem Laid.cons {lo mid mid' hi : Nat} {m : Node} {ns : List Node} (hm : Laid lo mid [m])
    (hn : Laid mid' hi ns) (hlo : lo ≤ mid') (hmid : mid ≤ mid') (hhi : mid ≤ hi) :
    Laid lo hi (m :: ns) :=
  hm.append hn hlo hmid hhi

/-- Another node in the place of one. -/
theorem Laid.replace {lo hi : Nat} {m n : Node} (h : Laid lo hi [m]) (hp : m.isAbsent = false)
    (hspan : n.span = m.span) (hw : n.WellPlaced) : Laid lo hi [n] := by
  obtain ⟨h₁, h₂, h₃⟩ := h.row.sits m List.mem_cons_self hp
  exact laid_singleton ⟨hspan ▸ h₁, hspan ▸ h₂, hspan ▸ h₃⟩ hw

/-- Nodes that leave out the start or the end of a span do not cover it. -/
theorem Laid.span_ne {lo hi : Nat} {span : Span} {ns : List Node} (h : Laid lo hi ns)
    (hs : span.start < lo ∨ hi < span.stop) :
    ∀ n ∈ ns, n.isAbsent = false → n.span ≠ span := by
  intro n hn hp heq
  obtain ⟨h₁, -, h₃⟩ := h.row.sits n hn hp
  rw [heq] at h₁ h₃
  omega

/-- Of several nodes none covers all of them. -/
theorem Laid.span_ne_of_many {lo hi : Nat} {ns : List Node} (h : Laid lo hi ns)
    (hp : ∀ n ∈ ns, n.isAbsent = false) (hlen : 2 ≤ ns.length) {span : Span}
    (hlo : span.start ≤ lo) (hhi : hi ≤ span.stop) : ∀ n ∈ ns, n.span ≠ span := by
  intro n hn heq
  obtain ⟨as, bs, rfl⟩ := List.append_of_mem hn
  obtain ⟨-, htail, hcross⟩ := List.pairwise_append.mp h.row.apart
  -- another node would have to stand before the start or after the end
  cases as with
  | cons a as =>
      have hbefore := hcross a List.mem_cons_self n List.mem_cons_self
        (hp a (by simp)) (hp n hn)
      obtain ⟨h₁, h₂, -⟩ := h.row.sits a (by simp) (hp a (by simp))
      rw [heq] at hbefore
      omega
  | nil =>
      cases bs with
      | cons b bs =>
          have hafter := (List.pairwise_cons.mp htail).1 b List.mem_cons_self (hp n hn)
            (hp b (by simp))
          obtain ⟨-, h₂, h₃⟩ := h.row.sits b (by simp) (hp b (by simp))
          rw [heq] at hafter
          omega
      | nil => simp at hlen

/-- A node over several children. -/
theorem Laid.wellPlaced_many {lo hi start stop : Nat} {ns : List Node} {form : Form}
    (h : Laid lo hi ns) (hp : ∀ n ∈ ns, n.isAbsent = false) (hlen : 2 ≤ ns.length)
    (hform : form.isWhole = true) (hsuits : Suits form ns)
    (hfree : ∀ n ∈ ns, n.form.rank < Form.rank .declarator) (hlo : start ≤ lo) (hhi : hi ≤ stop) :
    WellPlaced (.node form ⟨start, stop⟩ ns) :=
  .node (fits_of_isWhole hform hsuits (fun _ => hfree) (h.row.mono hlo hhi)
      fun n hn _ heq => absurd heq (h.span_ne_of_many hp hlen hlo hhi n hn))
    h.wellPlaced

/-- A node that covers more than its children. -/
theorem Laid.wellPlaced_node {lo hi start stop : Nat} {ns : List Node} {form : Form}
    (h : Laid lo hi ns) (hform : form.isWhole = true) (hsuits : Suits form ns)
    (hfree : form.isDeclaration = false → ∀ n ∈ ns, n.form.rank < Form.rank .declarator)
    (hlo : start ≤ lo) (hhi : hi ≤ stop) (hs : start < lo ∨ hi < stop) :
    WellPlaced (.node form ⟨start, stop⟩ ns) :=
  .node (fits_of_isWhole hform hsuits hfree (h.row.mono hlo hhi)
      fun n hn hp heq => absurd heq (h.span_ne hs n hn hp))
    h.wellPlaced

/-- A first child and the others, none of which covers the span that they are all in. -/
theorem Laid.cons_span_ne {lo mid mid' hi : Nat} {span : Span} {m : Node} {ns : List Node}
    (hm : Laid lo mid [m]) (hn : Laid mid' hi ns) (hstart : span.start < mid')
    (hstop : mid < span.stop) : ∀ n ∈ m :: ns, n.isAbsent = false → n.span ≠ span := by
  intro n hn' hp
  rcases List.mem_cons.mp hn' with rfl | hn'
  · exact hm.span_ne (.inr hstop) n List.mem_cons_self hp
  · exact hn.span_ne (.inl hstart) n hn' hp

/-- A node that starts with its first child and ends after it. -/
theorem Laid.wellPlaced_cons {lo mid mid' hi start stop : Nat} {m : Node} {ns : List Node}
    {form : Form} (hm : Laid lo mid [m]) (hn : Laid mid' hi ns) (hform : form.isWhole = true)
    (hsuits : Suits form (m :: ns)) (hfree : ∀ n ∈ m :: ns, n.form.rank < Form.rank .declarator)
    (hlo : start ≤ lo) (hmid : mid ≤ mid') (hstart : start < mid') (hmstop : mid < stop)
    (hhi : hi ≤ stop) :
    WellPlaced (.node form ⟨start, stop⟩ (m :: ns)) := by
  have hall : Laid start stop (m :: ns) := (hm.mono hlo (Nat.le_refl mid)).cons
    (hn.mono (Nat.le_refl mid') hhi) (Nat.le_of_lt hstart) hmid (Nat.le_of_lt hmstop)
  refine .node (fits_of_isWhole hform hsuits (fun _ => hfree) hall.row ?_) hall.wellPlaced
  exact fun n hn' hp heq => absurd heq (hm.cons_span_ne hn hstart hmstop n hn' hp)

/-- A node that starts with its first child, and may cover no more than that. -/
theorem Laid.wellPlaced_headed {lo mid mid' hi start stop : Nat} {m : Node} {ns : List Node}
    {form : Form} (hm : Laid lo mid [m]) (hn : Laid mid' hi ns) (hform : form.isWhole = true)
    (hsuits : Suits form (m :: ns)) (hfree : ∀ n ∈ m :: ns, n.form.rank < Form.rank .declarator)
    (hrank : m.form.rank < form.rank) (hlo : start ≤ lo) (hmid : mid ≤ mid')
    (hstart : start < mid') (hmstop : mid ≤ stop) (hhi : hi ≤ stop) :
    WellPlaced (.node form ⟨start, stop⟩ (m :: ns)) := by
  have hall : Laid start stop (m :: ns) := (hm.mono hlo (Nat.le_refl mid)).cons
    (hn.mono (Nat.le_refl mid') hhi) (Nat.le_of_lt hstart) hmid hmstop
  refine .node (fits_of_isWhole hform hsuits (fun _ => hfree) hall.row ?_) hall.wellPlaced
  intro n hn' hp heq
  rcases List.mem_cons.mp hn' with rfl | hn'
  · exact hrank
  · exact absurd heq (hn.span_ne (.inl hstart) n hn' hp)

/-- A shorthand property with a default. -/
theorem Laid.wellPlaced_defaultedProperty {lo mid mid' hi start stop : Nat} {name : String}
    {m value : Node} (hm : Laid lo mid [m]) (hv : Laid mid' hi [value])
    (hform : m.form = .identifier name) (hvalue : value.form.rank < Form.rank .declarator)
    (hlo : start ≤ lo) (hmid : mid ≤ mid')
    (hstart : start < mid') (hmstop : mid < stop) (hhi : hi ≤ stop) :
    WellPlaced (.node .defaultedProperty ⟨start, stop⟩ [m, value]) := by
  have hall : Laid start stop [m, value] := (hm.mono hlo (Nat.le_refl mid)).cons
    (hv.mono (Nat.le_refl mid') hhi) (Nat.le_of_lt hstart) hmid (Nat.le_of_lt hmstop)
  have hne : ∀ n ∈ [m, value], n.isAbsent = false → n.span ≠ ⟨start, stop⟩ :=
    hm.cons_span_ne hv hstart hmstop
  refine .node ⟨suits_of_isPlain rfl _, hall.row, ?_, fun k hk => absurd hk List.not_mem_nil,
    fun _ => ⟨?_, hne⟩, fun _ n hn => ?_⟩ hall.wellPlaced
  · exact fun n hn hp heq => absurd heq (hne n hn hp)
  · intro k hk
    obtain rfl : m = k := by simpa using hk
    exact ⟨name, hform⟩
  · rcases List.mem_cons.mp hn with rfl | hn
    · rw [hform]
      exact Nat.lt_of_sub_eq_succ rfl
    · exact List.mem_singleton.mp hn ▸ hvalue

/-- Words and strings are no declarators. -/
theorem rank_of_isBare {n : Node} (h : n.isBare = true) : n.form.rank < Form.rank .declarator := by
  cases n with
  | node form span children =>
      rw [isBare, fold_node, Bool.and_eq_true] at h
      cases form <;> first | exact Nat.lt_of_sub_eq_succ rfl | cases h.1

/-- A node some of whose children are set aside. -/
theorem Laid.wellPlaced_aside {lo hi start stop : Nat} {ns : List Node} {form : Form}
    (h : Laid lo hi (form.placed ns)) (hform : form ≠ .defaultedProperty)
    (hsuits : Suits form ns)
    (hfree : ∀ k ∈ form.placed ns, k.form.rank < Form.rank .declarator)
    (hlo : start ≤ lo) (hhi : hi ≤ stop)
    (hinner : ∀ k ∈ form.placed ns, k.isAbsent = false → k.span = ⟨start, stop⟩ →
      k.form.rank < form.rank)
    (haside : ∀ k ∈ form.aside ns, k.isBare = true ∧ k.WellPlaced) :
    WellPlaced (.node form ⟨start, stop⟩ ns) := by
  refine .node ⟨hsuits, h.row.mono hlo hhi, hinner, fun k hk => (haside k hk).1,
    fun hf => absurd hf hform, fun _ k hk => ?_⟩ fun k hk => ?_
  · rcases form.mem_placed_or_aside hk with hk | hk
    · exact hfree k hk
    · exact rank_of_isBare (haside k hk).1
  · rcases form.mem_placed_or_aside hk with hk | hk
    · exact h.wellPlaced k hk
    · exact (haside k hk).2

/-- A property asks for a plain key unless the key is computed. -/
theorem suits_property {isComputed isShorthand : Bool} {key : Node} {ns : List Node}
    (h : isComputed = false → key.isBare = true) :
    Suits (.property isComputed isShorthand) (key :: ns) where
  word h := by cases h
  name _ h := by cases h
  statement h := by cases h
  key hk k hm := by
    obtain rfl : key = k := by simpa using hm
    exact h (by simpa [Form.isKeyed] using hk)
  entries h := by cases h
  declarators h := by cases h
  targets := nofun
  shape := trivial

/-- A property of a pattern asks for a target as its value, too. -/
theorem suits_patternProperty {isComputed isShorthand : Bool} {key value : Node}
    (h : isComputed = false → key.isBare = true) (hvalue : value.form.takesValue = true) :
    Suits (.patternProperty isComputed isShorthand) [key, value] where
  word h := by cases h
  name _ h := by cases h
  statement h := by cases h
  key hk k hm := by
    obtain rfl : key = k := by simpa using hm
    exact h (by simpa [Form.isKeyed] using hk)
  entries h := by cases h
  declarators h := by cases h
  targets k hk := List.mem_singleton.mp hk ▸ hvalue
  shape := ⟨key, value, rfl⟩

/-- A rest element asks for a target. -/
theorem suits_rest {pattern : Node} (h : pattern.form.takesValue = true) :
    Suits .rest [pattern] where
  word h := by cases h
  name _ h := by cases h
  statement h := by cases h
  key h := by cases h
  entries h := by cases h
  declarators h := by cases h
  targets k hk := List.mem_singleton.mp hk ▸ h
  shape := ⟨pattern, rfl⟩

/-- A class asks for a name or nothing in its first place. -/
theorem suits_classValue {name : Node} {ns : List Node} (h : name.form.isWord = true) :
    Suits .classValue (name :: ns) where
  word h := by cases h
  name _ h := by cases h
  statement h := by cases h
  key h := by cases h
  entries h := by cases h
  declarators h := by cases h
  targets := nofun
  shape k hk := by
    obtain rfl : name = k := by simpa using hk
    exact h

/-- A case asks for an expression or nothing as its test. -/
theorem suits_case {test : Node} {ns : List Node} (h : test.form.rank ≤ 2) :
    Suits .case (test :: ns) where
  word h := by cases h
  name _ h := by cases h
  statement h := by cases h
  key h := by cases h
  entries h := by cases h
  declarators h := by cases h
  targets := nofun
  shape k hk := by
    obtain rfl : test = k := by simpa using hk
    exact h

/-- A shorthand property. -/
theorem Laid.wellPlaced_shorthandProperty {lo hi start stop : Nat} {key value : Node}
    {isComputed : Bool} (hv : Laid lo hi [value]) (hrank : value.form.rank ≤ 2)
    (hw : key.WellPlaced) (hkey : key.isBare = true) (hlo : start ≤ lo) (hhi : hi ≤ stop) :
    WellPlaced (.node (.property isComputed true) ⟨start, stop⟩ [key, value]) := by
  refine hv.wellPlaced_aside (fun h => by cases h) (suits_property fun _ => hkey) ?_ hlo hhi ?_ ?_
  · exact fun k hk => List.mem_singleton.mp hk ▸ Nat.lt_of_le_of_lt hrank (by decide)
  · exact fun k hk _ _ => List.mem_singleton.mp hk ▸ Nat.lt_succ_of_le hrank
  · exact fun k hk => List.mem_singleton.mp hk ▸ ⟨hkey, hw⟩

-- ============================================================ closed trees

/-- A node is closed if its form makes it so, given its children. -/
theorem isClosed_node (form : Form) (span : Span) (children : List Node) :
    (node form span children).isClosed = form.encloses (children.map isClosed) := by
  rw [isClosed, fold_node, List.map_map]
  rfl

theorem isClosed_of_all_id {ns : List Node} (h : (ns.map isClosed).all id = true) :
    ∀ k ∈ ns, k.isClosed = true :=
  fun _ hk => List.all_eq_true.mp h _ (List.mem_map_of_mem hk)

/-- A node whose children are closed is closed, unless it introduces a name itself. -/
theorem isClosed_of_all {form : Form} {span : Span} {children : List Node}
    (hform : ∀ name, form ≠ .binding name) (h : ∀ k ∈ children, k.isClosed = true) :
    (node form span children).isClosed = true := by
  have hall : ∀ b ∈ children.map isClosed, b = true := by
    intro b hb
    obtain ⟨k, hk, rfl⟩ := List.mem_map.mp hb
    exact h k hk
  rw [isClosed_node]
  unfold Form.encloses
  split
  case h_1 name => exact absurd rfl (hform name)
  case h_5 key others heq => exact hall key (heq ▸ List.mem_cons_self)
  case h_6 name others heq =>
    exact List.all_eq_true.mpr fun b hb => hall b (heq ▸ List.mem_cons_of_mem _ hb)
  case h_7 => exact List.all_eq_true.mpr hall
  all_goals rfl

-- ============================================================ other flags

/-- A node as it was, but for what it says about itself. -/
structure Remade (n m : Node) : Prop where
  place : m.place = n.place
  rank : m.form.rank = n.form.rank
  closed : m.isClosed = n.isClosed
  wellPlaced : n.WellPlaced → m.WellPlaced

theorem Remade.refl (n : Node) : n.Remade n := ⟨rfl, rfl, rfl, id⟩

theorem Remade.trans {l m n : Node} (h : l.Remade m) (h' : m.Remade n) : l.Remade n :=
  ⟨h'.place.trans h.place, h'.rank.trans h.rank, h'.closed.trans h.closed,
    fun hw => h'.wellPlaced (h.wellPlaced hw)⟩

/-- A node of another form that keeps the same rules. -/
theorem remade_form {form form' : Form} {span : Span} {children : List Node}
    (hwhole : form.isWhole = true) (hwhole' : form'.isWhole = true)
    (hsuits : Suits form children → Suits form' children)
    (hdeclaration : form.isDeclaration = false) (hrank : form'.rank = form.rank)
    (hpresent : 0 < form.rank)
    (hclosed : ∀ bs, form'.encloses bs = form.encloses bs) :
    (node form span children).Remade (node form' span children) where
  place := by
    have h : (node form span children).isAbsent = false := isAbsent_eq_false hpresent
    have h' : (node form' span children).isAbsent = false :=
      isAbsent_eq_false (show 0 < form'.rank from hrank ▸ hpresent)
    rw [place, place, h, h']
    rfl
  rank := hrank
  closed := by rw [isClosed_node, isClosed_node, hclosed]
  wellPlaced hw := by
    cases hw with
    | node fits parts =>
      have hplaced := placed_of_isWhole hwhole children
      refine .node (fits_of_isWhole hwhole' (hsuits fits.toSuits)
        (fun _ => fits.free hdeclaration) (hplaced ▸ fits.row) ?_) parts
      intro k hk hp heq
      exact hrank ▸ fits.inner k (hplaced.symm ▸ hk) hp heq

/-- What is in a row with one node replaced was in the row or is the new node. -/
theorem mem_of_mem_replaced {as bs : List Node} {k k' n : Node} (h : n ∈ as ++ k' :: bs) :
    n ∈ as ++ k :: bs ∨ n = k' := by
  rcases List.mem_append.mp h with h | h
  · exact .inl (List.mem_append_left _ h)
  · rcases List.mem_cons.mp h with rfl | h
    · exact .inr rfl
    · exact .inl (List.mem_append_right _ (List.mem_cons_of_mem k h))

/-- A node with another child in the place of one. -/
theorem remade_child {form : Form} {span : Span} (as : List Node) {bs : List Node} {k k' : Node}
    (h : k.Remade k') (hwhole : form.isWhole = true)
    (hsuits : form.isPlain = true ∨ ∃ kind, form = .variableDeclaration kind) :
    (node form span (as ++ k :: bs)).Remade (node form span (as ++ k' :: bs)) where
  place := rfl
  rank := rfl
  closed := by
    rw [isClosed_node, isClosed_node]
    simp [h.closed]
  -- the row keeps its places, as the new part has the old one's; each condition asks this much only
  wellPlaced hw := by
    cases hw with
    | node fits parts =>
      have hplaced := placed_of_isWhole hwhole (as ++ k :: bs)
      have hk : k ∈ as ++ k :: bs := by simp
      refine .node (fits_of_isWhole hwhole ?_ (fun hd n hn => ?_) ?_ ?_) ?_
      · rcases hsuits with hplain | ⟨kind, rfl⟩
        · exact suits_of_isPlain hplain _
        · refine suits_declaration (fun n hn => ?_) (by simp)
          -- a declaration asks its parts to be declarators, which equal ranks carry over
          rcases mem_of_mem_replaced hn with hold | rfl
          · exact fits.declarators rfl n hold
          · rw [h.rank]
            exact fits.declarators rfl k hk
      · have hold : n ∈ as ++ k :: bs ∨ n = k' := mem_of_mem_replaced hn
        rcases hold with hold | rfl
        · exact fits.free hd n hold
        · rw [h.rank]
          exact fits.free hd k hk
      · exact (hplaced ▸ fits.row).congr (by simp [h.place])
      · intro n hn hp heq
        obtain ⟨hspan, habsent⟩ := Prod.mk.inj h.place
        -- every part is an old one or the new one
        have hold : n ∈ as ++ k :: bs ∨ n = k' := mem_of_mem_replaced hn
        rcases hold with hold | rfl
        · exact fits.inner n (hplaced.symm ▸ hold) hp heq
        · rw [h.rank]
          exact fits.inner k (hplaced.symm ▸ hk) (habsent ▸ hp) (hspan ▸ heq)
      · intro n hn
        have hold : n ∈ as ++ k :: bs ∨ n = k' := mem_of_mem_replaced hn
        rcases hold with hold | rfl
        · exact parts n hold
        · exact h.wellPlaced (parts k hk)

end Node

end Graft
