/-!
Sorted lists: stable insertion sort, and the sorted list without repetitions that stands for a
set of texts.
-/
namespace Graft

/-- Puts a value before the first one of a sorted list that it does not come after. -/
def insertBy {α : Type u} (le : α → α → Bool) (a : α) : List α → List α
  | [] => [a]
  | b :: bs => if le a b then a :: b :: bs else b :: insertBy le a bs

/-- A list sorted by `le`; values that are equal in it keep their order. -/
def sortBy {α : Type u} (le : α → α → Bool) (as : List α) : List α := as.foldr (insertBy le) []

/-- Puts a value into a sorted list without repetitions. -/
def insertUnique {α : Type u} [DecidableEq α] (le : α → α → Bool) (a : α) : List α → List α
  | [] => [a]
  | b :: bs =>
      if a = b then b :: bs
      else if le a b then a :: b :: bs
      else b :: insertUnique le a bs

/-- Whether a text comes no later than another one in the order of code points. -/
def noLater : List Char → List Char → Bool
  | [], _ => true
  | _ :: _, [] => false
  | a :: as, b :: bs => a.toNat < b.toNat || (a == b && noLater as bs)

/-- The texts of a list in ascending order of their code points, each once. -/
def textSet (texts : List String) : List String :=
  texts.foldr (insertUnique fun a b => noLater a.toList b.toList) []

end Graft
