import Graft.Order
import Graft.Scope.Binding
/-!
How often every symbol is still used while uses are given up.

The counts start at the numbers of uses in a program. A use that is given up lowers the count of its
symbol by one; a symbol whose count has come to zero counts as unused.
-/
namespace Graft

/-- The number of uses of every symbol, by its number. -/
structure Liveness where
  counts : List Nat
deriving DecidableEq, Repr

namespace Liveness

/-- All uses of a program. -/
def ofBindings (b : Bindings) : Liveness :=
  ⟨(List.range b.symbols.length).map b.useCount⟩

/-- How often a symbol is used. -/
def count (l : Liveness) (n : Nat) : Nat := (l.counts[n]?).getD 0

/-- Whether nothing uses a symbol. -/
def isUnused (l : Liveness) (n : Nat) : Bool := l.count n == 0

/-- Gives up one use of a symbol. -/
def release (l : Liveness) (n : Nat) : Liveness := ⟨l.counts.modify n (· - 1)⟩

end Liveness

/-- A symbol and how it is used, for a report. -/
structure SymbolState where
  name : String
  start : Nat
  count : Nat
  isUnused : Bool
deriving DecidableEq, Repr

namespace Liveness

/-- The numbers of the symbols in the order of their declarations. -/
def inSourceOrder (b : Bindings) : List Nat :=
  let start (n : Nat) : Nat := ((b.symbols[n]?).map (·.span.start)).getD 0
  sortBy (fun m n => start m ≤ start n) (List.range b.symbols.length)

/-- How all symbols are used, in the order of their declarations. -/
def report (l : Liveness) (b : Bindings) : List SymbolState :=
  (inSourceOrder b).filterMap fun n =>
    (b.symbols[n]?).map fun s => ⟨s.name, s.span.start, l.count n, l.isUnused n⟩

/-- Gives up one use of the first symbol with a name, if there is one. -/
def releaseName (l : Liveness) (b : Bindings) (name : String) : Liveness :=
  match (inSourceOrder b).find? fun n => (b.symbols[n]?).any (·.name == name) with
  | some n => l.release n
  | none => l

/-- The reports at first and after each of the given names is released. -/
def history (b : Bindings) : Liveness → List String → List (List SymbolState)
  | l, [] => [l.report b]
  | l, name :: names => l.report b :: history b (l.releaseName b name) names

end Liveness

end Graft
