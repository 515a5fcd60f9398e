import Graft.Proofs.Tree.Alike
import Mathlib.Data.List.Basic
import Mathlib.Data.List.Forall2
/-!
Trees that differ in their offsets and in the texts of their strings.

A map of texts says which texts count as the same (`Form.mapText`). With the identity only equal
texts do, and with a constant all of them. What is left of a tree without its offsets once its
strings have the texts that the map gives is an outline of it (`Node.outline`), and trees are alike
up to the map if they have one outline (`Node.AlikeBy`).

One notion serves two comparisons: a program with itself read again, where nothing but offsets may
differ, and programs for two plugins, where one string may.
-/
namespace Graft

/-- Lists that are the same under two functions are related one by one. -/
theorem forall₂_of_map_eq {α β γ : Type} {f : α → γ} {g : β → γ} {as : List α} {bs : List β}
    (h : as.map f = bs.map g) : List.Forall₂ (fun a b => f a = g b) as bs := by
  have hsame : List.Forall₂ (· = ·) (as.map f) (bs.map g) := h ▸ List.forall₂_refl _
  exact List.forall₂_map_right_iff.mp (List.forall₂_map_left_iff.mp hsame)

/-- Which text the string with a text gets. -/
abbrev TextMap := List StringUnit → List StringUnit

namespace Form

/-- A form with another text, if it is a string. -/
def mapText (σ : TextMap) : Form → Form
  | .string units => .string (σ units)
  | form => form

variable {σ : TextMap}

@[simp] theorem mapText_id (form : Form) : form.mapText id = form := by
  cases form <;> rfl

/-- Whether a form is a string. -/
def isString : Form → Bool
  | .string _ => true
  | _ => false

theorem exists_of_isString {form : Form} (h : form.isString = true) :
    ∃ units, form = .string units := by
  cases form <;> first | exact ⟨_, rfl⟩ | cases h

/-- Only strings get other texts. -/
theorem mapText_of_isString {form : Form} (h : form.isString = false) : form.mapText σ = form := by
  cases form <;> first | rfl | cases h

@[simp] theorem isString_mapText (form : Form) : (form.mapText σ).isString = form.isString := by
  cases form <;> rfl

/-- Forms that are the same with other texts are the same, unless they are strings. -/
theorem eq_of_mapText_eq {form form' : Form} (h : form.mapText σ = form'.mapText σ)
    (hform : form.isString = false) : form = form' := by
  have hform' : form'.isString = false := by
    rw [← isString_mapText form', ← h, isString_mapText, hform]
  rwa [mapText_of_isString hform, mapText_of_isString hform'] at h

end Form

namespace Node

/-- A tree without the places of its nodes, and with other texts in its strings. -/
def outline (σ : TextMap) : Node → Node :=
  fold fun form _ children => .node (form.mapText σ) .none (children.map Prod.snd)

variable {σ : TextMap} {m n : Node}

/-- The outline of a tree is that of its top with those of its children. -/
theorem outline_node (form : Form) (span : Span) (children : List Node) :
    (node form span children).outline σ
      = node (form.mapText σ) .none (children.map (outline σ)) := by
  rw [outline, fold_node]
  simp [Function.comp_def]

theorem outline_id (n : Node) : n.outline id = n.unplaced := by
  induction n with
  | node form span children ih =>
      rw [outline_node, unplaced_node, Form.mapText_id, List.map_congr_left ih]

/-- Whether two trees have the same outline. -/
def AlikeBy (σ : TextMap) (m n : Node) : Prop := m.outline σ = n.outline σ

theorem alikeBy_id_iff : m.AlikeBy id n ↔ m.Alike n := by
  rw [AlikeBy, outline_id, outline_id, Alike]

theorem form_outline (n : Node) : (n.outline σ).form = n.form.mapText σ := by
  cases n with
  | node form span children =>
      rw [outline_node]
      rfl

theorem children_outline (n : Node) : (n.outline σ).children = n.children.map (outline σ) := by
  cases n with
  | node form span children =>
      rw [outline_node]
      rfl

/-- The parts of an outline are the outlines of the parts. -/
theorem parts_outline (n : Node) : (n.outline σ).parts = n.parts.map (outline σ) := by
  induction n with
  | node form span children ih =>
      rw [outline_node, parts_node, parts_node, List.map_cons, outline_node, List.flatMap_map,
        List.map_flatMap]
      congr 1
      exact List.flatMap_congr ih

namespace AlikeBy

variable (h : m.AlikeBy σ n)
include h

theorem form_eq : m.form.mapText σ = n.form.mapText σ := by
  rw [← form_outline, ← form_outline]
  exact congrArg form h

theorem map_children : m.children.map (outline σ) = n.children.map (outline σ) := by
  rw [← children_outline, ← children_outline]
  exact congrArg children h

theorem forall₂_children : List.Forall₂ (AlikeBy σ) m.children n.children :=
  forall₂_of_map_eq h.map_children

theorem map_parts : m.parts.map (outline σ) = n.parts.map (outline σ) := by
  rw [← parts_outline, ← parts_outline]
  exact congrArg parts h

theorem forall₂_parts : List.Forall₂ (AlikeBy σ) m.parts n.parts :=
  forall₂_of_map_eq h.map_parts

/-- Alike trees have equally many parts. -/
theorem length_parts : m.parts.length = n.parts.length := by
  have hlength := congrArg List.length h.map_parts
  simpa using hlength

end AlikeBy

end Node

end Graft
