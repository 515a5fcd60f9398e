import Mathlib.Data.List.Find
import Mathlib.Data.List.Nodup
import Graft.Proofs.Config.Validation
import Graft.Proofs.Plan.Settings
/-!
Settings in another order.

Two parts of the settings are lists whose order has no meaning.

# Replacements

Replacements are asked for by a module, and in settings that make sense no module is replaced twice,
so which replacement comes first decides nothing (`TransformConfig.validate_withReplacements`,
`TransformConfig.sameAnswers_withReplacements`).

# Methods

The methods of the host are two sets, and a set is met in some order. What is asked of them, whether
a name is in them, is the same in every order (`TransformConfig.Reordered.sameAnswers`), and so is
whether the settings make sense. But the check of the settings reports the first name that is no
identifier, so a fault of the methods is reported by the name that happens to come first: exactly
the names that `TransformConfig.faultyMethods` lists are reported in some order
(`TransformConfig.exists_reordered_iff`), and the report is the same in all orders if and only if
there are no two of them (`TransformConfig.validate_reordered_iff`).

The check is cut in two for this: the named fields come before the methods and the replacements
after them, and neither depends on the order (`TransformConfig.validate_eq_method_iff`).
-/
namespace Graft

open Text

namespace TransformConfig

variable {c c' : TransformConfig}

-- ============================================================ replacements

/-- The settings with other replacements. -/
def withReplacements (c : TransformConfig) (rs : List ModuleReplacement) : TransformConfig :=
  { c with replacements := rs }

/-- The check of the settings asks of the replacements that they pass theirs. -/
theorem validate_withReplacements {rs : List ModuleReplacement} (h : c.validate = .ok ())
    (hrs : rs.Perm c.replacements) : (c.withReplacements rs).validate = .ok () := by
  obtain ⟨hnames, hmethods, hreplacements, hpasses⟩ := validate_eq_ok_iff.mp h
  obtain ⟨hnodup, hways⟩ := checkReplacements_eq_ok_iff.mp hreplacements
  refine validate_eq_ok_iff.mpr ⟨hnames, hmethods, checkReplacements_eq_ok_iff.mpr ⟨?_, ?_⟩, hpasses⟩
  · exact (hrs.map _).nodup_iff.mpr hnodup
  · exact fun r hr => hways r (hrs.mem_iff.mp hr)

/-- No module is replaced twice, so the first replacement of a module is the only one. -/
theorem replacementFor?_withReplacements {rs : List ModuleReplacement} (h : c.validate = .ok ())
    (hrs : rs.Perm c.replacements) (specifier : String) :
    (c.withReplacements rs).replacementFor? specifier = c.replacementFor? specifier := by
  obtain ⟨-, -, hreplacements, -⟩ := validate_eq_ok_iff.mp h
  have hnodup := (hrs.map (·.specifier)).nodup_iff.mpr
    (checkReplacements_eq_ok_iff.mp hreplacements).1
  refine congrArg (Option.map _) (List.find?_eq_find?_of_perm hrs ?_)
  rintro r ⟨hr, hspecifier⟩ r' ⟨hr', hspecifier'⟩
  exact List.inj_on_of_nodup_map hnodup hr hr'
    ((beq_iff_eq.mp hspecifier).trans (beq_iff_eq.mp hspecifier').symm)

/-- Replacements in another order answer alike, for no module is replaced twice. -/
theorem sameAnswers_withReplacements {rs : List ModuleReplacement} (h : c.validate = .ok ())
    (hrs : rs.Perm c.replacements) : c.SameAnswers (c.withReplacements rs) where
  reservedName := rfl
  interopHelper := rfl
  loader := rfl
  isPure _ := rfl
  isBindable _ := rfl
  replacementFor? := replacementFor?_withReplacements h hrs

-- ============================================================ methods

/-- The settings with other methods of the host. -/
def withMethods (c : TransformConfig) (pure bindable : List String) : TransformConfig :=
  { c with host := { c.host with pureMethods := pure, bindableMethods := bindable } }

/-- The settings with the two sets of methods met in some order each. -/
inductive Reordered (c : TransformConfig) : TransformConfig → Prop
  | mk {pure bindable : List String} (hpure : pure.Perm c.host.pureMethods)
      (hbindable : bindable.Perm c.host.bindableMethods) : Reordered c (c.withMethods pure bindable)

/-- The names among some methods that are no identifiers. -/
def faulty (methods : List String) : List String := methods.filter fun m => !isPlainIdentifier m

/-- The names that a fault of the methods can be reported by: those of the pure methods, or if these
are all identifiers, those of the methods that have to be bound. -/
def faultyMethods (c : TransformConfig) : List String :=
  if faulty c.host.pureMethods = [] then faulty c.host.bindableMethods
  else faulty c.host.pureMethods

theorem eq_nil_iff_of_perm {α : Type} {xs ys : List α} (h : xs.Perm ys) : xs = [] ↔ ys = [] := by
  rw [← List.length_eq_zero_iff, h.length_eq, List.length_eq_zero_iff]

/-- Whether a method is among those of a set is the same in every order. -/
theorem Reordered.sameAnswers (h : c.Reordered c') : c.SameAnswers c' := by
  cases h with
  | mk hpure hbindable =>
      exact
        { reservedName := rfl
          interopHelper := rfl
          loader := rfl
          isPure := fun m => hpure.contains_eq
          isBindable := fun m => hbindable.contains_eq
          replacementFor? := fun _ => rfl }

/-- The first name that is no identifier is the first of the faulty names. -/
theorem find?_methods (c : TransformConfig) :
    (c.host.pureMethods ++ c.host.bindableMethods).find? (fun m => !isPlainIdentifier m)
      = c.faultyMethods.head? := by
  rw [List.find?_append, ← List.head?_filter, ← List.head?_filter]
  change (faulty c.host.pureMethods).head?.or (faulty c.host.bindableMethods).head? = _
  unfold faultyMethods
  cases faulty c.host.pureMethods with
  | nil => rfl
  | cons m ms => rfl

/-- In another order there are the same faulty names. -/
theorem Reordered.faultyMethods_perm (h : c.Reordered c') :
    c'.faultyMethods.Perm c.faultyMethods := by
  cases h with
  | @mk pure bindable hpure hbindable =>
      have hpure' : (faulty pure).Perm (faulty c.host.pureMethods) := hpure.filter _
      have hbindable' : (faulty bindable).Perm (faulty c.host.bindableMethods) := hbindable.filter _
      have hnil : faulty pure = [] ↔ faulty c.host.pureMethods = [] := eq_nil_iff_of_perm hpure'
      change (if faulty pure = [] then faulty bindable else faulty pure).Perm _
      unfold faultyMethods
      by_cases hnone : faulty c.host.pureMethods = []
      · rw [if_pos hnone, if_pos (hnil.mpr hnone)]
        exact hbindable'
      · rw [if_neg hnone, if_neg (hnone ∘ hnil.mp)]
        exact hpure'

/-- Each faulty name comes first in some order. -/
theorem exists_reordered_head? {m : String} (h : m ∈ c.faultyMethods) :
    ∃ c', c.Reordered c' ∧ c'.faultyMethods.head? = some m := by
  unfold faultyMethods at h
  split at h
  case isTrue hnone =>
    obtain ⟨hmem, hbad⟩ := List.mem_filter.mp h
    have hpure : c.host.pureMethods.find? (fun m => !isPlainIdentifier m) = none := by
      rw [← List.head?_filter]
      exact congrArg List.head? hnone
    refine ⟨_, .mk (.refl _) (List.perm_cons_erase hmem).symm, ?_⟩
    rw [← find?_methods, List.find?_append]
    change (c.host.pureMethods.find? _).or _ = _
    rw [hpure, Option.none_or]
    exact List.find?_cons_of_pos hbad
  case isFalse =>
    obtain ⟨hmem, hbad⟩ := List.mem_filter.mp h
    refine ⟨_, .mk (List.perm_cons_erase hmem).symm (.refl _), ?_⟩
    rw [← find?_methods]
    exact List.find?_cons_of_pos hbad

-- ================================================= the report of the check

/-- Replacements have no fault that is one of the methods. -/
theorem checkReplacements_ne_method {m : String} (seen : List String)
    (rs : List ModuleReplacement) :
    checkReplacements seen rs ≠ .error (.methodNotIdentifier m) := by
  intro h
  induction rs generalizing seen with
  | nil => cases h
  | cons r rs ih =>
      rw [checkReplacements] at h
      split at h
      · cases h
      split at h
      · cases h
      split at h
      · cases h
      · exact ih _ h

/-- A fault of the methods is reported if no field has one, and by the first faulty name. -/
theorem validate_eq_method_iff {m : String} :
    c.validate = .error (.methodNotIdentifier m)
      ↔ (∀ f ∈ c.namedFields, isPlainIdentifier f.2 = true)
        ∧ c.faultyMethods.head? = some m := by
  have hfields : (∀ f ∈ c.namedFields, isPlainIdentifier f.2 = true)
      ↔ (c.namedFields.find? fun f => !isPlainIdentifier f.2) = none := by
    simp [List.find?_eq_none]
  rw [hfields, validate, find?_methods]
  cases c.namedFields.find? fun f => !isPlainIdentifier f.2 with
  | some field =>
      constructor
      · intro h
        cases h
      · rintro ⟨h, -⟩
        cases h
  | none =>
      cases c.faultyMethods.head? with
      | some m' => simp
      | none =>
          have hne := checkReplacements_ne_method (m := m) [] c.replacements
          cases hcheck : checkReplacements [] c.replacements with
          | error e => simpa [hcheck] using hne
          | ok u => by_cases hzero : c.maxPasses = 0 <;> simp [hzero]

theorem Reordered.namedFields_eq (h : c.Reordered c') : c'.namedFields = c.namedFields := by
  cases h
  rfl

/-- The check sees no more of the order than which faulty name comes first, and not even that if a
field has a fault. -/
theorem Reordered.validate_eq (h : c.Reordered c')
    (hhead : (∀ f ∈ c.namedFields, isPlainIdentifier f.2 = true) →
      c'.faultyMethods.head? = c.faultyMethods.head?) : c'.validate = c.validate := by
  rw [validate, validate, h.namedFields_eq, find?_methods, find?_methods]
  cases hfind : c.namedFields.find? fun f => !isPlainIdentifier f.2 with
  | some field => rfl
  | none =>
      rw [hhead fun f hf => by simpa using List.find?_eq_none.mp hfind f hf]
      cases h
      rfl

/-- In another order the check comes to the same, unless it reports a faulty method in both. -/
theorem Reordered.validate_cases (h : c.Reordered c') :
    c'.validate = c.validate
      ∨ ∃ m ∈ c.faultyMethods, ∃ m' ∈ c.faultyMethods,
          c.validate = .error (.methodNotIdentifier m)
            ∧ c'.validate = .error (.methodNotIdentifier m') := by
  by_cases hfields : ∀ f ∈ c.namedFields, isPlainIdentifier f.2 = true
  case neg => exact .inl (h.validate_eq fun hplain => absurd hplain hfields)
  have hperm := h.faultyMethods_perm
  have hnil : c'.faultyMethods = [] ↔ c.faultyMethods = [] := eq_nil_iff_of_perm hperm
  cases hm : c.faultyMethods.head? with
  | none =>
      have hnone := List.head?_eq_none_iff.mp hm
      exact .inl (h.validate_eq fun _ => by rw [hnone, hnil.mpr hnone])
  | some m =>
      obtain ⟨m', hm'⟩ : ∃ m', c'.faultyMethods.head? = some m' := by
        refine Option.ne_none_iff_exists'.mp fun hnone => ?_
        rw [hnil.mp (List.head?_eq_none_iff.mp hnone)] at hm
        cases hm
      exact .inr ⟨m, List.mem_of_head? hm, m', hperm.mem_iff.mp (List.mem_of_head? hm'),
        validate_eq_method_iff.mpr ⟨hfields, hm⟩,
        validate_eq_method_iff.mpr ⟨h.namedFields_eq ▸ hfields, hm'⟩⟩

/-- The names that the check can report a fault of the methods by, in one order or another. -/
theorem exists_reordered_iff {m : String} :
    (∃ c', c.Reordered c' ∧ c'.validate = .error (.methodNotIdentifier m))
      ↔ (∀ f ∈ c.namedFields, isPlainIdentifier f.2 = true) ∧ m ∈ c.faultyMethods := by
  constructor
  · rintro ⟨c', h, herror⟩
    obtain ⟨hfields, hhead⟩ := validate_eq_method_iff.mp herror
    exact ⟨h.namedFields_eq ▸ hfields, h.faultyMethods_perm.mem_iff.mp (List.mem_of_head? hhead)⟩
  · rintro ⟨hfields, hm⟩
    obtain ⟨c', h, hhead⟩ := exists_reordered_head? hm
    exact ⟨c', h, validate_eq_method_iff.mpr ⟨h.namedFields_eq ▸ hfields, hhead⟩⟩

/-- The check comes to the same in all orders if and only if a field has a fault, or there are no
two faulty methods to choose from. -/
theorem validate_reordered_iff :
    (∀ c', c.Reordered c' → c'.validate = c.validate)
      ↔ (∃ f ∈ c.namedFields, isPlainIdentifier f.2 = false)
        ∨ ∀ m ∈ c.faultyMethods, ∀ m' ∈ c.faultyMethods, m = m' := by
  constructor
  · intro hsame
    by_cases hfields : ∀ f ∈ c.namedFields, isPlainIdentifier f.2 = true
    case neg => exact .inl (by simpa using hfields)
    refine .inr fun m hm m' hm' => ?_
    obtain ⟨c₁, h₁, hm⟩ := exists_reordered_iff.mpr ⟨hfields, hm⟩
    obtain ⟨c₂, h₂, hm'⟩ := exists_reordered_iff.mpr ⟨hfields, hm'⟩
    rw [hsame c₁ h₁] at hm
    rw [hsame c₂ h₂, hm] at hm'
    exact ConfigError.methodNotIdentifier.inj (Except.error.inj hm')
  · rintro (⟨f, hf, hbad⟩ | hone) c' h
    · refine h.validate_eq fun hfields => ?_
      rw [hfields f hf] at hbad
      cases hbad
    · rcases h.validate_cases with heq | ⟨m, hm, m', hm', herror, herror'⟩
      · exact heq
      · rw [herror, herror', hone m hm m' hm']

/-- Two pure methods that are no identifiers, each of which is the one that is reported in one of
the two orders. -/
theorem validate_reordered_ne :
    let c := TransformConfig.standard.withMethods ["a b", "c d"] []
    let c' := c.withMethods ["c d", "a b"] []
    c.Reordered c' ∧ c.validate = .error (.methodNotIdentifier "a b")
      ∧ c'.validate = .error (.methodNotIdentifier "c d") :=
  ⟨.mk (.swap ..) .nil, by decide +kernel, by decide +kernel⟩

end TransformConfig

end Graft
