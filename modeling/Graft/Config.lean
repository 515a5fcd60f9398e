import Graft.Order
/-!
What the transform is told about the host and about the bundler.

The host shows itself to a plugin as one global object. Its name, the methods on it that only
give a value, the methods that have to be told which plugin calls them, and the modules that
stand for parts of it are data, so that no rule of the transform knows a host.
-/
namespace Graft

/-- The global object of the host. -/
structure HostNamespace where
  reservedName : String
  /-- The helper with one argument through which bundlers read default exports. -/
  interopHelper : String
  /-- The function that loads a module. -/
  loader : String
  /-- The methods whose result is all that comes of a call, as a sorted set. -/
  pureMethods : List String
  /-- The methods whose first argument is the name of the plugin, as a sorted set. -/
  bindableMethods : List String
deriving DecidableEq, Repr

namespace HostNamespace

def isPure (n : HostNamespace) (method : String) : Bool := n.pureMethods.contains method

def isBindable (n : HostNamespace) (method : String) : Bool := n.bindableMethods.contains method

/-- The host that is known without being told. -/
def standard : HostNamespace :=
  { reservedName := "BdApi"
    interopHelper := "_interopDefaultLegacy"
    loader := "require"
    pureMethods := textSet
      [ -- lookups of modules
       "findModule", "findAllModules", "findModuleByProps", "findModuleByPrototypes",
       "findModuleByDisplayName", "getInternalInstance", "suppressErrors", "testJSON",
       "isSettingEnabled", "getBDData",
       -- addons, and reads of stored data
       "isEnabled", "get", "getAll", "getData", "getPatchesByCaller",
       -- filters
       "combine", "byDisplayName", "byStrings", "byRegex", "byPrototypeFields", "byProps",
       "getModule", "getBulk", "waitForModule"]
    bindableMethods := textSet
      [ -- styles
       "injectCSS", "clearCSS",
       -- stored data
       "loadData", "getData", "saveData", "setData", "deleteData",
       -- patches
       "before", "instead", "after"] }

end HostNamespace

/-- A module that stands for a part of the host: `chain` is the way to it from the global object,
which is the first name. -/
structure ModuleReplacement where
  specifier : String
  chain : List String
deriving DecidableEq, Repr

namespace ModuleReplacement

/-- The modules that are known without being told. -/
def standard : List ModuleReplacement :=
  [⟨"react", ["BdApi", "React"]⟩,
   ⟨"react-dom", ["BdApi", "ReactDOM"]⟩,
   ⟨"bdapi", ["BdApi"]⟩,
   ⟨"bdapi/patcher", ["BdApi", "Patcher"]⟩,
   ⟨"bdapi/webpack", ["BdApi", "Webpack"]⟩,
   ⟨"bdapi/webpack/filters", ["BdApi", "Webpack", "Filters"]⟩]

end ModuleReplacement

/-- How a plugin is exported: by a function, put into a property of a container, that gives the
accessor when it is called. -/
structure ExportConvention where
  container : String
  property : String
  accessor : String
deriving DecidableEq, Repr

namespace ExportConvention

def standard : ExportConvention := ⟨"module", "exports", "exports"⟩

/-- The statement that exports a plugin. -/
def statement (e : ExportConvention) : String :=
  e.container ++ "." ++ e.property ++ " = () => " ++ e.accessor ++ ";"

end ExportConvention

/-- All settings of the transform. -/
structure TransformConfig where
  host : HostNamespace
  replacements : List ModuleReplacement
  exports : ExportConvention
  /-- How many rounds of editing there may be. -/
  maxPasses : Nat
deriving DecidableEq, Repr

namespace TransformConfig

def standard : TransformConfig :=
  { host := .standard, replacements := ModuleReplacement.standard, exports := .standard
    maxPasses := 8 }

/-- What stands for a module, if anything does. -/
def replacementFor? (c : TransformConfig) (specifier : String) : Option (List String) :=
  (c.replacements.find? fun r => r.specifier == specifier).map (·.chain)

end TransformConfig

end Graft
