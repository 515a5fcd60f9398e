import Graft.Transform
/-!
Many modules at once. They share nothing but the settings: a module that fails has its error as
its own outcome and stops no other one.
-/
namespace Graft

/-- A module that is to be transformed. -/
structure ModuleJob where
  /-- The name of the module in errors. -/
  id : String
  source : String
  params : BuildParams
deriving Repr

namespace ModuleJob

def ofJson? (v : Json) : Option ModuleJob := do
  match ← Json.fields? ["id", "source", "params"] v with
  | [id, source, params] =>
      some ⟨← Json.required Json.asString? id, ← Json.required Json.asString? source,
        ← Json.required BuildParams.ofJson? params⟩
  | _ => none

def listOfJson? : Json → Option (List ModuleJob)
  | .array items => items.mapM ofJson?
  | _ => none

end ModuleJob

/-- What came of a module. -/
structure ModuleOutcome where
  id : String
  result : Except TransformError TransformOutput

namespace ModuleOutcome

def isOk (o : ModuleOutcome) : Bool := o.result.isOk

end ModuleOutcome

/-- Transforms every module; the outcomes come in the order of the modules. -/
def transformBatch (jobs : List ModuleJob) (config : TransformConfig) : List ModuleOutcome :=
  jobs.map fun job => ⟨job.id, transformNamed job.id job.source job.params config⟩

end Graft
