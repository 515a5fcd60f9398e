import Graft.Config.Validation
/-!
What it takes for settings to make sense, apart from how a fault is found.

The check stops at the first fault. Settings without one keep four rules, each of which is a check
of its own (`TransformConfig.validate_eq_ok_iff`). The rule for replacements is about the list as a
whole: no module comes twice, and every replacement is a way from the global object
(`TransformConfig.checkReplacements_eq_ok_iff`).
-/
namespace Graft

open Text

/-- Whether a replacement names at least one thing, and nothing but things that have a name. -/
def ModuleReplacement.IsWay (r : ModuleReplacement) : Prop :=
  r.chain ≠ [] ∧ ∀ s ∈ r.chain, isPlainIdentifier s = true

namespace TransformConfig

/-- Settings make sense if all their names do, their replacements do, and there is a round. -/
theorem validate_eq_ok_iff {c : TransformConfig} :
    c.validate = .ok () ↔ (c.namedFields.find? fun f => !isPlainIdentifier f.2) = none
      ∧ ((c.host.pureMethods ++ c.host.bindableMethods).find? fun m => !isPlainIdentifier m) = none
      ∧ checkReplacements [] c.replacements = .ok () ∧ c.maxPasses ≠ 0 := by
  rw [validate]
  cases c.namedFields.find? fun f => !isPlainIdentifier f.2 with
  | some field => exact ⟨nofun, fun ⟨h, _⟩ => nomatch h⟩
  | none =>
      cases (c.host.pureMethods ++ c.host.bindableMethods).find? fun m => !isPlainIdentifier m with
      | some method => exact ⟨nofun, fun ⟨_, h, _⟩ => nomatch h⟩
      | none =>
          cases checkReplacements [] c.replacements with
          | error e => exact ⟨nofun, fun ⟨_, _, h, _⟩ => nomatch h⟩
          | ok u => simp

/-- A replacement passes if its module is new and it is a way, and if the ones after it pass with
its module among those that were met. -/
theorem checkReplacements_cons_eq_ok_iff {seen : List String} {r : ModuleReplacement}
    {rs : List ModuleReplacement} :
    checkReplacements seen (r :: rs) = .ok ()
      ↔ r.specifier ∉ seen ∧ r.IsWay ∧ checkReplacements (r.specifier :: seen) rs = .ok () := by
  rw [checkReplacements]
  by_cases hseen : r.specifier ∈ seen
  · simp [hseen]
  by_cases hempty : r.chain = []
  · simp [hseen, hempty, ModuleReplacement.IsWay]
  cases hfind : r.chain.find? fun s => !isPlainIdentifier s with
  | some segment =>
      have hbad : ¬ r.IsWay := fun hway => by
        simpa [hway.2 segment (List.mem_of_find?_eq_some hfind)] using List.find?_some hfind
      simp [hseen, hempty, hbad]
  | none =>
      have hway : r.IsWay := ⟨hempty, by simpa using List.find?_eq_none.mp hfind⟩
      simp [hseen, hempty, hway]

/-- Replacements pass if no module is replaced twice, none was met before, and all are ways. -/
theorem checkReplacements_eq_ok_iff {seen : List String} {rs : List ModuleReplacement} :
    checkReplacements seen rs = .ok ()
      ↔ (rs.map (·.specifier)).Nodup ∧ ∀ r ∈ rs, r.specifier ∉ seen ∧ r.IsWay := by
  induction rs generalizing seen with
  | nil => simp [checkReplacements]
  | cons r rs ih =>
      rw [checkReplacements_cons_eq_ok_iff, ih, List.map_cons, List.nodup_cons,
        List.forall_mem_cons]
      constructor
      · rintro ⟨hr, hway, hnodup, hrest⟩
        refine ⟨⟨fun hmem => ?_, hnodup⟩, ⟨hr, hway⟩, fun r' hr' => ?_⟩
        · obtain ⟨r', hr', heq⟩ := List.mem_map.mp hmem
          exact (hrest r' hr').1 (heq ▸ List.mem_cons_self)
        · exact ⟨fun hseen => (hrest r' hr').1 (List.mem_cons_of_mem _ hseen), (hrest r' hr').2⟩
      · rintro ⟨⟨hnew, hnodup⟩, ⟨hr, hway⟩, hrest⟩
        refine ⟨hr, hway, hnodup, fun r' hr' => ⟨fun hseen => ?_, (hrest r' hr').2⟩⟩
        rcases List.mem_cons.mp hseen with heq | hseen
        · exact hnew (heq ▸ List.mem_map_of_mem hr')
        · exact (hrest r' hr').1 hseen

/-- Settings that make sense replace no module by a chain without names. -/
theorem chain_ne_nil {config : TransformConfig} (h : config.validate = .ok ())
    {specifier : String} {chain : List String} (hc : config.replacementFor? specifier = some chain) :
    chain ≠ [] := by
  obtain ⟨-, -, hreplacements, -⟩ := validate_eq_ok_iff.mp h
  obtain ⟨r, hr, rfl⟩ := Option.map_eq_some_iff.mp hc
  exact ((checkReplacements_eq_ok_iff.mp hreplacements).2 r (List.mem_of_find?_eq_some hr)).2.1

end TransformConfig

end Graft
