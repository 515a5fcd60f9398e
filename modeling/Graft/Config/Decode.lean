import Graft.Config.Validation
import Graft.Json.Decode
/-!
Settings written as JSON. What is left out has its standard value.
-/
namespace Graft

open Json

namespace HostNamespace

def ofJson? (v : Json) : Option HostNamespace := do
  let names := ["reservedName", "interopHelper", "loader", "pureMethods", "bindableMethods"]
  match ← fields? names v with
  | [reservedName, interopHelper, loader, pureMethods, bindableMethods] =>
      some
        { reservedName := ← orDefault asString? standard.reservedName reservedName
          interopHelper := ← orDefault asString? standard.interopHelper interopHelper
          loader := ← orDefault asString? standard.loader loader
          pureMethods := textSet (← orDefault asStrings? standard.pureMethods pureMethods)
          bindableMethods :=
            textSet (← orDefault asStrings? standard.bindableMethods bindableMethods) }
  | _ => none

end HostNamespace

namespace ModuleReplacement

def ofJson? (v : Json) : Option ModuleReplacement := do
  match ← fields? ["specifier", "chain"] v with
  | [specifier, chain] => some ⟨← required asString? specifier, ← required asStrings? chain⟩
  | _ => none

def listOfJson? : Json → Option (List ModuleReplacement)
  | .array items => items.mapM ofJson?
  | _ => none

end ModuleReplacement

namespace ExportConvention

def ofJson? (v : Json) : Option ExportConvention := do
  match ← fields? ["container", "property", "accessor"] v with
  | [container, property, accessor] =>
      some
        { container := ← orDefault asString? standard.container container
          property := ← orDefault asString? standard.property property
          accessor := ← orDefault asString? standard.accessor accessor }
  | _ => none

/-- The convention that a JSON text spells. -/
def ofText? (text : String) : Option ExportConvention := (Json.read? text).bind ofJson?

end ExportConvention

namespace TransformConfig

def ofJson? (v : Json) : Option TransformConfig := do
  match ← fields? ["namespace", "moduleReplacements", "exports", "maxPasses"] v with
  | [host, replacements, exports, maxPasses] =>
      some
        { host := ← orDefault HostNamespace.ofJson? standard.host host
          replacements := ←
            orDefault ModuleReplacement.listOfJson? standard.replacements replacements
          exports := ← orDefault ExportConvention.ofJson? standard.exports exports
          maxPasses := ← orDefault (asNat? (twoTo 32)) standard.maxPasses maxPasses }
  | _ => none

/-- The settings that a JSON text spells, sensible or not. -/
def ofText? (text : String) : Option TransformConfig := (Json.read? text).bind ofJson?

/-- The sensible settings that a JSON text spells. -/
def load (text : String) : Except ConfigError TransformConfig :=
  match ofText? text with
  | none => .error .notJson
  | some c =>
      match c.validate with
      | .ok () => .ok c
      | .error e => .error e

end TransformConfig

end Graft
