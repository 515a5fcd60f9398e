import Graft.Text.Quoted
/-!
Everything that can go wrong with a module, by its cause, and how it is reported.

A shape of code that the transform does not know is never an error; it is left alone. What is
reported is text that is not a program, a result that is not one, and settings that make no sense.

An error about a text has room for what a reader of the text has to say, and its message says that
too. The reader of this library has nothing to say (`Program.parse?`), so what a transform reports
carries no diagnostics (`finishModule`).
-/
namespace Graft

/-- What is wrong with a configuration. -/
inductive ConfigError where
  | notJson
  | notIdentifier (field name : String)
  | methodNotIdentifier (name : String)
  | duplicateReplacement (specifier : String)
  | emptyChain (specifier : String)
  | badSegment (specifier segment : String)
  | noPasses
  /-- The statement that exports the plugin is not a statement. -/
  | badExport (source : String)
  /-- A fault that its finder has put into words. -/
  | stated (text : String)
deriving DecidableEq, Repr

namespace ConfigError

def message : ConfigError → String
  | notJson => "Invalid JSON"
  | notIdentifier field name =>
      field ++ " must be a JavaScript identifier, got " ++ Text.quoted name
  | methodNotIdentifier name =>
      "method name " ++ Text.quoted name ++ " is not a JavaScript identifier"
  | duplicateReplacement specifier =>
      "duplicate module replacement for " ++ Text.quoted specifier
  | emptyChain specifier =>
      "module replacement for " ++ Text.quoted specifier ++ " has an empty property chain"
  | badSegment specifier segment =>
      "module replacement for " ++ Text.quoted specifier ++ " contains invalid segment "
        ++ Text.quoted segment
  | noPasses => "maxPasses must be at least 1"
  | badExport source => "export convention " ++ Text.quoted source ++ " does not parse"
  | stated text => text

end ConfigError

/-- What is wrong with a key of the metadata. -/
inductive MetadataError where
  | badKey
  /-- A fault that its finder has put into words. -/
  | stated (text : String)
deriving DecidableEq, Repr

namespace MetadataError

def message : MetadataError → String
  | badKey => "keys must start with a letter and contain only letters, digits, '_' or '-'"
  | stated text => text

end MetadataError

/-- Why a module could not be transformed. The diagnostics are what the reader of the text says. -/
inductive TransformError where
  /-- The text of the module is not a program. -/
  | parse (moduleId : String) (diagnostics : List String)
  /-- The edited module is not a program. -/
  | serialize (moduleId : String) (diagnostics : List String)
  | config (cause : ConfigError)
  | metadata (key : String) (cause : MetadataError)
deriving DecidableEq, Repr

namespace TransformError

/-- The stable code of an error. -/
def code : TransformError → String
  | parse .. => "BDT-ERR-PARSE"
  | serialize .. => "BDT-ERR-SERIALIZE"
  | config _ => "BDT-ERR-CONFIG"
  | metadata .. => "BDT-ERR-METADATA"

/-- The module that an error is about, if it is about one. -/
def moduleId? : TransformError → Option String
  | parse m _ | serialize m _ => some m
  | config _ | metadata .. => none

def message : TransformError → String
  | parse m ds => "failed to parse module '" ++ m ++ "': " ++ "; ".intercalate ds
  | serialize m ds =>
      "rewritten module '" ++ m ++ "' is not valid JavaScript: " ++ "; ".intercalate ds
  | config .notJson => ConfigError.notJson.message
  | config cause => "invalid transform configuration: " ++ cause.message
  | metadata key cause => "invalid metadata key '" ++ key ++ "': " ++ cause.message

/-- The error when the text at fault was written by the transform itself. -/
def asSerialize : TransformError → TransformError
  | parse m ds => serialize m ds
  | other => other

end TransformError

end Graft
