import Graft.Proofs.Plan.Idle
import Graft.Proofs.Scope.Relabel
/-!
What the planner decides does not hang on where a program was read.

Numbered by their places in the lists of parts, the nodes of two programs with the same outline are
the same, and so are their bindings. So the two programs get the same answers about names
(`Survey.match_of_alikeBy`). Of two alike programs each is an echo of the other one
(`Survey.echo_of_alike`), and where there is nothing to do in one there is nothing to do in the
other.
-/
namespace Graft

namespace Node

/-- Whether two nodes of two trees have the same place in them. -/
def SamePlace (σ : TextMap) (t u m n : Node) : Prop :=
  m ∈ t.parts ∧ n ∈ u.parts ∧ m.relabel σ t.label = n.relabel σ u.label

namespace SamePlace

variable {σ : TextMap} {t u m n m' n' : Node}

theorem form_eq (h : SamePlace σ t u m n) : m.form.mapText σ = n.form.mapText σ := by
  rw [← form_relabel t.label m, h.2.2, form_relabel]

/-- What has the place of something that is no string has the same form. -/
theorem form_of_isString (h : SamePlace σ t u m n) (hm : m.form.isString = false) :
    n.form = m.form :=
  (Form.eq_of_mapText_eq h.form_eq hm).symm

/-- Of nodes with the same place both are names that are used, or neither is. -/
theorem isIdentifier_eq (h : SamePlace σ t u m n) : n.isIdentifier = m.isIdentifier := by
  cases hm : m.form.isString with
  | false => rw [Node.isIdentifier, h.form_of_isString hm, Node.isIdentifier]
  | true =>
      obtain ⟨units, hunits⟩ := Form.exists_of_isString hm
      have hn : n.form.isString = true := by
        rw [← Form.isString_mapText n.form (σ := σ), ← h.form_eq, Form.isString_mapText, hm]
      obtain ⟨units', hunits'⟩ := Form.exists_of_isString hn
      rw [Node.isIdentifier, Node.isIdentifier, hunits, hunits']

theorem isBinding (h : SamePlace σ t u m n) (hm : m.isBinding = true) : n.isBinding = true := by
  obtain ⟨name, hform⟩ := exists_name_of_isBinding hm
  rw [Node.isBinding, h.form_of_isString (by rw [hform]; rfl), hform]

/-- Where the one is an access, so is the other. -/
theorem isMember (h : SamePlace σ t u m n) (hm : m.form.isMember = true) :
    n.form.isMember = true := by
  have hform : m.form.isString = false := by
    cases hf : m.form <;> rw [hf] at hm <;> first | rfl | cases hm
  rw [h.form_of_isString hform, hm]

/-- The children of nodes with the same place have the same place pairwise. -/
theorem children (h : SamePlace σ t u m n) :
    List.Forall₂ (SamePlace σ t u) m.children n.children := by
  have hmap : m.children.map (relabel σ t.label) = n.children.map (relabel σ u.label) := by
    rw [← children_relabel, h.2.2, children_relabel]
  have hsame := List.forall₂_iff_zip.mp (forall₂_of_map_eq hmap)
  refine List.forall₂_iff_zip.mpr ⟨hsame.1, fun hkl => ⟨?_, ?_, hsame.2 hkl⟩⟩
  · exact mem_parts_trans (child_mem_parts (List.of_mem_zip hkl).1) h.1
  · exact mem_parts_trans (child_mem_parts (List.of_mem_zip hkl).2) h.2.1

/-- Nodes with the same place have keys with the same number. -/
theorem label_eq (h : SamePlace σ t u m n) {k k' : NodeKey} (hk : m.key? = some k)
    (hk' : n.key? = some k') : t.label k = u.label k' := by
  have hspan := congrArg Node.span h.2.2
  rw [span_relabel, span_relabel, hk, hk'] at hspan
  exact congrArg Span.start hspan

theorem self (ht : t.Keyed) (hu : u.Keyed) (h : t.AlikeBy σ u) : SamePlace σ t u t u :=
  ⟨self_mem_parts t, self_mem_parts u, relabel_label_eq ht hu h⟩

end SamePlace

/-- A name that is used goes by the offset of the use. -/
theorem key?_of_isIdentifier {n : Node} (h : n.isIdentifier = true) :
    n.key? = some (.use n.span.start) := by
  obtain ⟨name, heq⟩ := exists_name_of_isIdentifier h
  rw [key?, heq]
  rfl

/-- A name that is introduced goes by its own offset. -/
theorem key?_of_isBinding {n : Node} (h : n.isBinding = true) :
    n.key? = some (.name n.span.start) := by
  obtain ⟨name, heq⟩ := exists_name_of_isBinding h
  rw [key?, heq]
  rfl

/-- An access goes by its whole span. -/
theorem key?_of_isMember {n : Node} (h : n.form.isMember = true) :
    n.key? = some (.access n.span) := by
  rw [key?]
  cases hf : n.form <;> rw [hf] at h <;> first | rfl | cases h

end Node

namespace Survey

open Node

section

variable {σ : TextMap} {t u : Node} (ht : t.Keyed) (hu : u.Keyed) (h : t.AlikeBy σ u)
include ht hu h

/-- Two programs that are alike bind alike, once both are numbered by places. -/
theorem relabel_bindings_eq : (Bindings.ofProgram t).relabel σ t.label
    = (Bindings.ofProgram u).relabel σ u.label := by
  rw [← Bindings.ofProgram_relabel, ← Bindings.ofProgram_relabel, relabel_label_eq ht hu h]

/-- What is asked for by a key gets one answer at the same place of two programs with the same
outline, if numbers may stand for the keys. -/
theorem answer_eq {α : Type} (ask : Bindings → Nat → α) {key : Nat → NodeKey}
    (hkey : ∀ s s', key s = key s' → s = s')
    (hask : ∀ (f : NodeKey → Nat) (b : Bindings) (start : Nat),
      (∀ s, f (key s) = f (key start) → s = start) →
        ask (b.relabel σ f) (f (key start)) = ask b start)
    {m n : Node} (hE : SamePlace σ t u m n) (hm : m.key? = some (key m.span.start))
    (hn : n.key? = some (key n.span.start)) :
    ask (Bindings.ofProgram u) n.span.start = ask (Bindings.ofProgram t) m.span.start := by
  calc ask (Bindings.ofProgram u) n.span.start
      = ask ((Bindings.ofProgram u).relabel σ u.label) (u.label (key n.span.start)) :=
        (hask _ _ _ fun s hs => hkey _ _ (label_inj hE.2.1 hn hs)).symm
    _ = ask ((Bindings.ofProgram t).relabel σ t.label) (t.label (key m.span.start)) := by
        rw [relabel_bindings_eq ht hu h, hE.label_eq hm hn]
    _ = ask (Bindings.ofProgram t) m.span.start :=
        hask _ _ _ fun s hs => hkey _ _ (label_inj hE.1 hm hs)

/-- The values that symbols keep have the same places in two programs with the same outline. -/
theorem rel_lastingValue? (host : HostNamespace) (k : Nat) :
    Option.Rel (SamePlace σ t u) (Origin.lastingValue? ⟨host, .ofProgram t⟩ k)
      (Origin.lastingValue? ⟨host, .ofProgram u⟩ k) := by
  -- the two tables are one after relabelling, and so are their symbols and their writes
  have hbindings := relabel_bindings_eq ht hu h
  have hsymbol : ((Bindings.ofProgram t).symbols[k]?).map (Symbol.relabel σ t.label)
      = ((Bindings.ofProgram u).symbols[k]?).map (Symbol.relabel σ u.label) := by
    rw [← List.getElem?_map, ← List.getElem?_map]
    exact congrArg (fun b : Bindings => b.symbols[k]?) hbindings
  have hwritten : (Bindings.ofProgram t).isWritten k = (Bindings.ofProgram u).isWritten k := by
    rw [← Bindings.isWritten_relabel (σ := σ), hbindings, Bindings.isWritten_relabel]
  simp only [Origin.lastingValue?]
  -- the `k`th symbol exists on both sides or on neither
  cases hs : (Bindings.ofProgram t).symbols[k]? with
  | none =>
      cases hs' : (Bindings.ofProgram u).symbols[k]? with
      | none => exact .none
      | some s' => rw [hs, hs'] at hsymbol; cases hsymbol
  | some s =>
      cases hs' : (Bindings.ofProgram u).symbols[k]? with
      | none => rw [hs, hs'] at hsymbol; cases hsymbol
      | some s' =>
          rw [hs, hs'] at hsymbol
          have hsame : s.relabel σ t.label = s'.relabel σ u.label := Option.some.inj hsymbol
          obtain ⟨-, -, hvalue, -, hredeclared⟩ := Symbol.mk.inj hsame
          dsimp only
          rw [hredeclared, hwritten]
          split
          · exact .none
          · -- and holds a value on both sides or on neither, at the same place
            cases hv : s.value with
            | none =>
                cases hv' : s'.value with
                | none => exact .none
                | some _ => rw [hv, hv'] at hvalue; cases hvalue
            | some value =>
                cases hv' : s'.value with
                | none => rw [hv, hv'] at hvalue; cases hvalue
                | some value' =>
                    rw [hv, hv'] at hvalue
                    exact .some ⟨Bindings.value_mem_parts (List.mem_of_getElem? hs) hv,
                      Bindings.value_mem_parts (List.mem_of_getElem? hs') hv',
                      Option.some.inj hvalue⟩

/-- How often a symbol is used is the same in two programs with the same outline. -/
theorem useCount_eq (k : Nat) :
    (Bindings.ofProgram t).useCount k = (Bindings.ofProgram u).useCount k := by
  have hcount := congrArg (fun b : Bindings => b.useCount k) (relabel_bindings_eq ht hu h)
  simpa only [Bindings.useCount_relabel] using hcount

/-- Programs with the same outline get the same answers about names. -/
theorem match_of_alikeBy (config : TransformConfig) (plugin plugin' : String) :
    Match (onProgram config plugin t) (onProgram config plugin' u) σ (SamePlace σ t u) where
  form := SamePlace.form_eq
  children := SamePlace.children
  config := rfl
  host := rfl
  use hE hm := answer_eq ht hu h Bindings.symbolOfUse? (fun _ _ => NodeKey.use.inj)
    (fun _ b _ => b.symbolOfUse?_relabel) hE (key?_of_isIdentifier hm)
    (key?_of_isIdentifier (hE.isIdentifier_eq.trans hm))
  isGlobal hE hm := answer_eq ht hu h Bindings.isGlobalUse (fun _ _ => NodeKey.use.inj)
    (fun _ b _ => b.isGlobalUse_relabel) hE (key?_of_isIdentifier hm)
    (key?_of_isIdentifier (hE.isIdentifier_eq.trans hm))
  name hE hm := answer_eq ht hu h Bindings.symbolOfName? (fun _ _ => NodeKey.name.inj)
    (fun _ b _ => b.symbolOfName?_relabel) hE (key?_of_isBinding hm)
    (key?_of_isBinding (hE.isBinding hm))
  length := by
    have hlength := congrArg (fun b : Bindings => b.symbols.length) (relabel_bindings_eq ht hu h)
    simp only [Bindings.relabel, List.length_map] at hlength
    exact hlength.symm
  value := rel_lastingValue? ht hu h config.host

end

/-- Alike programs are echoes of each other. -/
theorem echo_of_alike {t u : Node} (ht : t.Keyed) (hu : u.Keyed) (h : t.Alike u)
    (config : TransformConfig) (plugin : String) :
    Echo (onProgram config plugin t) (onProgram config plugin u) (SamePlace id t u) where
  toMatch := match_of_alikeBy ht hu (alikeBy_id_iff.mpr h) config plugin plugin
  plugin := rfl
  access {m n m' n'} hE hE' hm hm' := by
    have hkm := key?_of_isMember hm
    have hkm' := key?_of_isMember hm'
    have hkn := key?_of_isMember (hE.isMember hm)
    have hkn' := key?_of_isMember (hE'.isMember hm')
    have hlabel := hE.label_eq hkm hkn
    have hlabel' := hE'.label_eq hkm' hkn'
    constructor
    · intro hspan
      rw [hspan, hlabel'] at hlabel
      exact (NodeKey.access.inj (label_inj hE.2.1 hkn hlabel)).symm
    · intro hspan
      rw [hspan, ← hlabel'] at hlabel
      exact NodeKey.access.inj (label_inj hE'.1 hkm' hlabel)
  count k := Nat.le_of_eq (useCount_eq ht hu (alikeBy_id_iff.mpr h) k)

end Survey

end Graft
