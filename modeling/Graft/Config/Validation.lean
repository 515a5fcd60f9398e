import Graft.Config
import Graft.Error
/-!
Which settings make sense: every name is an identifier, every module is replaced at most once and
by a chain of at least one name, and there is at least one pass.
-/
namespace Graft

namespace TransformConfig

open Text

/-- The names that code is built from, each with the field that holds it. -/
def namedFields (c : TransformConfig) : List (String × String) :=
  [("namespace.reservedName", c.host.reservedName),
   ("namespace.interopHelper", c.host.interopHelper),
   ("namespace.loader", c.host.loader),
   ("exports.container", c.exports.container),
   ("exports.property", c.exports.property),
   ("exports.accessor", c.exports.accessor)]

/-- The first fault of a list of replacements, given the specifiers met before. -/
def checkReplacements (seen : List String) : List ModuleReplacement → Except ConfigError Unit
  | [] => .ok ()
  | r :: rs =>
      if seen.contains r.specifier then .error (.duplicateReplacement r.specifier)
      else if r.chain.isEmpty then .error (.emptyChain r.specifier)
      else match r.chain.find? fun s => !isPlainIdentifier s with
        | some segment => .error (.badSegment r.specifier segment)
        | none => checkReplacements (r.specifier :: seen) rs

/-- The first fault of the settings, if they have one. -/
def validate (c : TransformConfig) : Except ConfigError Unit :=
  match c.namedFields.find? fun f => !isPlainIdentifier f.2 with
  | some (field, name) => .error (.notIdentifier field name)
  | none =>
      match (c.host.pureMethods ++ c.host.bindableMethods).find?
          fun m => !isPlainIdentifier m with
      | some method => .error (.methodNotIdentifier method)
      | none =>
          match checkReplacements [] c.replacements with
          | .error e => .error e
          | .ok () => if c.maxPasses == 0 then .error .noPasses else .ok ()

end TransformConfig

end Graft
