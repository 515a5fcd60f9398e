import Graft.Json.Parse
/-!
Records written as JSON: an object with a key for every field, or an array of the fields in their
order. An object may have keys that mean nothing, and their values need not even be held, but a
known key stands in it at most once; an array may not be longer than the record.
-/
namespace Graft

namespace Json

/-- The value of a key that stands in a list of entries at most once. -/
def field? (entries : List (String × Json)) (name : String) : Option (Option Json) :=
  match entries.filter fun e => e.1 == name with
  | [] => some none
  | [e] => some (some e.2)
  | _ => none

/-- What a value holds for each of the fields of a record; a field that is left out has nothing. -/
def fields? (names : List String) : Json → Option (List (Option Json))
  | .object entries => names.mapM (field? entries)
  | .array items =>
      if items.length ≤ names.length then
        some (items.map some ++ List.replicate (names.length - items.length) none)
      else none
  | _ => none

/-- Reads a field, or takes its default if it is left out. -/
def orDefault {α : Type} (decode : Json → Option α) (default : α) : Option Json → Option α
  | some v => decode v
  | none => some default

/-- Reads a field that may not be left out. -/
def required {α : Type} (decode : Json → Option α) : Option Json → Option α
  | some v => decode v
  | none => none

def asString? : Json → Option String
  | .string s => some s
  | _ => none

def asStrings? : Json → Option (List String)
  | .array items => items.mapM asString?
  | _ => none

/-- A whole number that is not negative and below a bound. -/
def asNat? (bound : Nat) : Json → Option Nat
  | .number (.whole (.ofNat n)) => if n < bound then some n else none
  | _ => none

/-- The entries of an object, no key repeated. All of it has to be held. -/
def asEntries? (v : Json) : Option (List (String × Json)) :=
  match v.unique with
  | .object entries => if v.isHeld then some entries else none
  | _ => none

end Json

end Graft
