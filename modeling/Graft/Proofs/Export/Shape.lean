import Graft.Export
import Graft.Proofs.Plan.Append
/-!
The statement that exports a plugin, and what the analyses see of it.

It puts an arrow function into a property, and the function gives a name or a literal
(`ExportConvention.shape`). All that the analyses do with it is told by this shape:

- for the scopes it introduces nothing and assigns to no name, and adds at most two uses;
- for the planner it holds no call and no access to a value.

So it is a bystander of every program (`ExportConvention.IsShaped.bystander`). Whether a program
already has such a statement does not depend on where the program was read
(`ExportConvention.isIn_eq_of_alike`).
-/
namespace Graft

/-- Whether a form is that of a name or of a literal without parts. -/
def Form.isAtom : Form → Bool
  | .identifier _ | .thisValue | .nullValue | .boolean _ => true
  | _ => false

namespace ExportConvention

open Node

/-- The tree of the statement that exports a plugin, if the container is a value of a form and the
function gives one of another form. -/
def shape (e : ExportConvention) (held given : Form) : Node :=
  made .expressionStatement
    [made (.assign .plain)
      [made .place [(made held []).access e.property],
        made (.arrow false true false false)
          [made .parameters [],
            made .functionBody [made .expressionStatement [made given []]]]]]

/-- Whether a statement is one that exports a plugin from a container with a name. -/
def IsShaped (e : ExportConvention) (n : Node) : Prop :=
  ∃ given, given.isAtom = true ∧ n.unplaced = e.shape (.identifier e.container) given

/-- What has the same tree up to offsets has the same shape. -/
theorem IsShaped.of_alike {e : ExportConvention} {m n : Node} (hm : e.IsShaped m)
    (h : m.Alike n) : e.IsShaped n := by
  obtain ⟨given, hgiven, heq⟩ := hm
  exact ⟨given, hgiven, h.symm.trans heq⟩

/-- The statement that exports a plugin, part by part. -/
theorem IsShaped.exists_spans {e : ExportConvention} {n : Node} (h : e.IsShaped n) :
    ∃ given s₁ s₂ s₃ s₄ s₅ s₆ s₇ s₈ s₉ s₁₀, Form.isAtom given = true
      ∧ n = node .expressionStatement s₁
        [node (.assign .plain) s₂
          [node .place s₃
              [node (.member false e.property) s₄ [node (.identifier e.container) s₅ []]],
            node (.arrow false true false false) s₆
              [node .parameters s₇ [],
                node .functionBody s₈ [node .expressionStatement s₉ [node given s₁₀ []]]]]] := by
  obtain ⟨given, hgiven, hn⟩ := h
  obtain ⟨s₁, _, rfl, h₁⟩ := exists_of_unplaced hn
  obtain ⟨assign, rfl, hassign⟩ := exists_of_map_unplaced h₁
  obtain ⟨s₂, _, rfl, h₂⟩ := exists_of_unplaced hassign
  obtain ⟨place, _, rfl, hplace, hfunction⟩ := List.map_eq_cons_iff.mp h₂
  obtain ⟨arrow, rfl, harrow⟩ := exists_of_map_unplaced hfunction
  -- the place
  obtain ⟨s₃, _, rfl, h₃⟩ := exists_of_unplaced hplace
  obtain ⟨member, rfl, hmember⟩ := exists_of_map_unplaced h₃
  obtain ⟨s₄, _, rfl, h₄⟩ := exists_of_unplaced hmember
  obtain ⟨container, rfl, hcontainer⟩ := exists_of_map_unplaced h₄
  obtain ⟨s₅, _, rfl, h₅⟩ := exists_of_unplaced hcontainer
  obtain rfl := List.map_eq_nil_iff.mp h₅
  -- the function
  obtain ⟨s₆, _, rfl, h₆⟩ := exists_of_unplaced harrow
  obtain ⟨params, _, rfl, hparams, hrest⟩ := List.map_eq_cons_iff.mp h₆
  obtain ⟨body, rfl, hbody⟩ := exists_of_map_unplaced hrest
  obtain ⟨s₇, _, rfl, h₇⟩ := exists_of_unplaced hparams
  obtain rfl := List.map_eq_nil_iff.mp h₇
  obtain ⟨s₈, _, rfl, h₈⟩ := exists_of_unplaced hbody
  obtain ⟨inner, rfl, hinner⟩ := exists_of_map_unplaced h₈
  obtain ⟨s₉, _, rfl, h₉⟩ := exists_of_unplaced hinner
  obtain ⟨value, rfl, hvalue⟩ := exists_of_map_unplaced h₉
  obtain ⟨s₁₀, _, rfl, h₁₀⟩ := exists_of_unplaced hvalue
  obtain rfl := List.map_eq_nil_iff.mp h₁₀
  exact ⟨given, s₁, s₂, s₃, s₄, s₅, s₆, s₇, s₈, s₉, s₁₀, hgiven, rfl⟩

/-- The statement that exports a plugin is a bystander of every program. -/
theorem IsShaped.bystander {e : ExportConvention} {n : Node} (h : e.IsShaped n) :
    n.Bystander := by
  obtain ⟨given, s₁, s₂, s₃, s₄, s₅, s₆, s₇, s₈, s₉, s₁₀, hgiven, hn⟩ := h.exists_spans
  have hcontainer : ∃ k ∈ n.parts, k.key? = some (.use s₅.start) :=
    ⟨node (.identifier e.container) s₅ [], List.mem_of_getElem? (i := 4) (by rw [hn]; rfl), rfl⟩
  subst hn
  refine ⟨?_, fun w => ⟨fun flag d => ?_, fun flag d => ?_⟩⟩
  · -- the container waits in the scope of the program, and what the function gives moves there
    cases given with
    | identifier name =>
        refine ⟨[⟨name, s₁₀.start, false⟩, ⟨e.container, s₅.start, false⟩], fun _ _ => rfl, ?_⟩
        exact List.forall_mem_cons.mpr
          ⟨⟨rfl, node (.identifier name) s₁₀ [], List.mem_of_getElem? (i := 9) rfl, rfl⟩,
            List.forall_mem_singleton.mpr ⟨rfl, hcontainer⟩⟩
    | thisValue | nullValue | boolean _ =>
        exact ⟨[⟨e.container, s₅.start, false⟩], fun _ _ => rfl,
          List.forall_mem_singleton.mpr ⟨rfl, hcontainer⟩⟩
    | _ => cases hgiven
  · cases given with
    | identifier _ | thisValue | nullValue | boolean _ => rfl
    | _ => cases hgiven
  · have hvalue : (node given s₁₀ []).fold w.visitPatterns false d = d := by
      cases given with
      | identifier _ | thisValue | nullValue | boolean _ => rfl
      | _ => cases hgiven
    show (if d.plan.removedStatements.contains s₁ then d
      else if d.plan.removedStatements.contains s₉ then d
      else (node given s₁₀ []).fold w.visitPatterns false d) = d
    rw [hvalue, ite_self, ite_self]

end ExportConvention

-- ============================================================ recognition

namespace Node

/-- Which slot a target is does not depend on offsets. -/
theorem slot?_unplaced (n : Node) :
    n.unplaced.slot? = n.slot?.map fun slot => (slot.1.unplaced, slot.2) := by
  obtain ⟨form, span, ks⟩ := n
  rw [unplaced_node]
  cases form with
  | place =>
      match ks with
      | [] => rfl
      | _ :: _ :: _ => simp [slot?]
      | [.node inner own js] =>
          rw [List.map_singleton, unplaced_node]
          cases inner with
          | member isOptional name =>
              match js with
              | [] | [_] | _ :: _ :: _ => rfl
          | index isOptional =>
              match js with
              | [] | [_] | _ :: _ :: _ :: _ => rfl
              | [object, key] =>
                  show key.unplaced.stringText?.map (fun name => (object.unplaced, name))
                    = (key.stringText?.map fun name => (object, name)).map _
                  rw [stringText?_unplaced, Option.map_map]
                  rfl
          | _ => rfl
  | _ => rfl

/-- Which statements a program has does not depend on offsets. -/
theorem statements_unplaced (n : Node) : n.unplaced.statements = n.statements.map unplaced := by
  rw [statements, statements, children_unplaced, List.filter_map]
  congr 1
  refine List.filter_congr fun k _ => ?_
  simp only [Function.comp_apply, form_unplaced]

end Node

namespace ExportConvention

/-- Whether a statement assigns the slot does not depend on offsets. -/
theorem isAssignedBy_unplaced (e : ExportConvention) (n : Node) :
    e.isAssignedBy n.unplaced = e.isAssignedBy n := by
  obtain ⟨form, span, ks⟩ := n
  rw [Node.unplaced_node]
  cases form with
  | expressionStatement =>
      match ks with
      | [] => rfl
      | _ :: _ :: _ => simp [isAssignedBy]
      | [.node inner own js] =>
          rw [List.map_singleton, Node.unplaced_node]
          cases inner with
          | assign op =>
              match op, js with
              | .combine _, _ | .guard _, _ | .plain, [] | .plain, [_]
              | .plain, _ :: _ :: _ :: _ => rfl
              | .plain, [target, value] =>
                  simp only [isAssignedBy, List.map_cons, List.map_nil, Node.slot?_unplaced]
                  cases target.slot? with
                  | none => rfl
                  | some slot => simp only [Option.map_some, Node.form_unplaced]
          | _ => rfl
  | _ => rfl

/-- Where a program was read does not matter to whether it exports its plugin. -/
theorem isIn_eq_of_alike (e : ExportConvention) {m n : Node} (h : m.Alike n) :
    e.isIn m = e.isIn n := by
  have hunplaced : ∀ n : Node, e.isIn n.unplaced = e.isIn n := fun n => by
    rw [isIn, isIn, Node.statements_unplaced, List.any_map]
    exact congrArg _ (funext (e.isAssignedBy_unplaced ·))
  rw [← hunplaced m, h, hunplaced]

end ExportConvention

end Graft
