import Graft.Banner
import Graft.Config.Validation
import Graft.Export
import Graft.Json.Decode
import Graft.Round
/-!
The transform of a plugin: rounds of editing, then the export statement, then the banner.

The stages follow each other, and the first one that fails ends the transform:

1. The settings and the metadata are checked (`checkSettings`).
2. The banner of an earlier build comes off, so that a module that is transformed again gets one
   banner and not two, and the rounds of editing are run on what is left (`editModule`).
3. The text that the rounds came to is read, its export is ensured, and it is written once more
   (`finishModule`). What is written must be a program: text of its own that is not one is an error
   of the result, where text that came in is an error of the source.
4. The banner is put in front.

The name of the module is read for errors only, and the metadata for the banner only.
-/
namespace Graft

/-- What a build says about a plugin. -/
structure BuildParams where
  /-- The first argument of every method that is bound. -/
  pluginName : String
  /-- What the banner says. -/
  metadata : Metadata := []
deriving Repr

namespace BuildParams

def ofJson? (v : Json) : Option BuildParams := do
  match ← Json.fields? ["pluginName", "metadata"] v with
  | [pluginName, metadata] =>
      some ⟨← Json.required Json.asString? pluginName, ← Json.orDefault Json.asEntries? [] metadata⟩
  | _ => none

/-- What a JSON text says about a plugin. -/
def ofText? (text : String) : Option BuildParams := (Json.read? text).bind ofJson?

end BuildParams

/-- A transformed module. -/
structure TransformOutput where
  code : String
  /-- The number of rounds, with the one that had nothing to do. -/
  passes : Nat
  /-- Whether the last round had nothing to do. -/
  converged : Bool
  stats : TransformStats
deriving DecidableEq, Repr

/-- The edited text with its export statement and its banner. -/
def finishModule (moduleId : String) (params : BuildParams) (config : TransformConfig)
    (isEdited : Bool) (code : String) : Except TransformError String :=
  match Program.parse? code with
  | none =>
      -- the reader does not say what is wrong with a text, so there are no diagnostics
      let error : TransformError := .parse moduleId []
      .error (if isEdited then error.asSerialize else error)
  | some p => do
      let (tree, _) ← (config.exports.ensure p.tree).mapError .config
      let text := tree.render p.comments
      if !Program.isValid text then throw (.serialize moduleId [])
      match ← params.metadata.banner? with
      | some banner => return Metadata.prepend text banner
      | none => return text

/-- The rounds of editing on a module. -/
def editModule (source : String) (params : BuildParams) (config : TransformConfig) : Run :=
  Run.of config params.pluginName config.maxPasses (params.metadata.strip source)

/-- Checks what a module is transformed with. -/
def checkSettings (params : BuildParams) (config : TransformConfig) :
    Except TransformError Unit := do
  config.validate.mapError .config
  params.metadata.validate

/-- Transforms a module, naming it by `moduleId` in errors. -/
def transformNamed (moduleId source : String) (params : BuildParams) (config : TransformConfig) :
    Except TransformError TransformOutput := do
  checkSettings params config
  let run := editModule source params config
  let code ← finishModule moduleId params config run.isEdited run.code
  return ⟨code, run.rounds.length, run.converged, run.stats⟩

/-- Transforms the module of a plugin, naming it by the plugin in errors. -/
def transform (source : String) (params : BuildParams) (config : TransformConfig) :
    Except TransformError TransformOutput :=
  transformNamed params.pluginName source params config

end Graft
