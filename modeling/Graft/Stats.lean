import Graft.Json.Decode
/-!
How many edits of each kind were made.
-/
namespace Graft

structure TransformStats where
  statementsElided : Nat := 0
  patternsPruned : Nat := 0
  importsSubstituted : Nat := 0
  membersBound : Nat := 0
  declaratorsSplit : Nat := 0
deriving DecidableEq, Repr, Inhabited

namespace TransformStats

/-- No edits. -/
def zero : TransformStats := {}

/-- All edits together. -/
def total (s : TransformStats) : Nat :=
  s.statementsElided + s.patternsPruned + s.importsSubstituted + s.membersBound
    + s.declaratorsSplit

/-- The edits of two runs together. -/
def absorb (s t : TransformStats) : TransformStats :=
  { statementsElided := s.statementsElided + t.statementsElided
    patternsPruned := s.patternsPruned + t.patternsPruned
    importsSubstituted := s.importsSubstituted + t.importsSubstituted
    membersBound := s.membersBound + t.membersBound
    declaratorsSplit := s.declaratorsSplit + t.declaratorsSplit }

@[simp] theorem absorb_zero (s : TransformStats) : s.absorb zero = s := rfl

@[simp] theorem zero_absorb (s : TransformStats) : zero.absorb s = s := by
  simp [absorb, zero]

theorem absorb_assoc (s t u : TransformStats) : (s.absorb t).absorb u = s.absorb (t.absorb u) := by
  simp [absorb, Nat.add_assoc]

@[simp] theorem total_absorb (s t : TransformStats) : (s.absorb t).total = s.total + t.total := by
  simp only [absorb, total]
  omega

/-- The states after each of the given counts is absorbed. -/
def absorbed : TransformStats → List TransformStats → List TransformStats
  | _, [] => []
  | s, t :: ts => s.absorb t :: absorbed (s.absorb t) ts

/-- Counts are whole numbers of 64 bits. -/
def ofJson? (v : Json) : Option TransformStats := do
  let names := ["statementsElided", "patternsPruned", "importsSubstituted", "membersBound",
    "declaratorsSplit"]
  match ← (← Json.fields? names v).mapM (Json.required (Json.asNat? (twoTo 64))) with
  | [elided, pruned, substituted, bound, split] => some ⟨elided, pruned, substituted, bound, split⟩
  | _ => none

end TransformStats

end Graft
