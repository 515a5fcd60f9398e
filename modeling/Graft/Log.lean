import Graft.Text.Lowercase
import Graft.Transform
/-!
What the transform says while it works: a line for every planned edit, a line for every round, and
a warning about a run that came to no end.
-/
namespace Graft

/-- How much is said. -/
inductive LogLevel where
  | silent
  | error
  | warn
  | info
  | debug
  | trace
deriving DecidableEq, Repr

namespace LogLevel

/-- Higher levels say more. -/
def rank : LogLevel → Nat
  | silent => 0
  | error => 1
  | warn => 2
  | info => 3
  | debug => 4
  | trace => 5

def name : LogLevel → String
  | silent => "off"
  | error => "error"
  | warn => "warn"
  | info => "info"
  | debug => "debug"
  | trace => "trace"

/-- The words for a level, in lower case. -/
def spellings : List (String × LogLevel) :=
  [("silent", silent), ("off", silent), ("quiet", silent), ("error", error), ("warn", warn),
   ("warning", warn), ("info", info), ("debug", debug), ("passes", debug), ("trace", trace),
   ("edits", trace)]

/-- The level that a word stands for, in any case. -/
def ofText (text : String) : Except String LogLevel :=
  let word := Text.lowercase text
  match spellings.lookup word with
  | some level => .ok level
  | none => .error ("unknown transform log level: " ++ word)

/-- The setting that makes a log show the transform at a level. -/
def directive (level : LogLevel) : String := "bdplugin_transform=" ++ level.name

end LogLevel

/-- Something that happened in a run. -/
inductive LogEvent where
  | edit (notice : EditNotice)
  | pass (moduleId : String) (number planned applied : Nat)
  | noFixedPoint (moduleId : String) (passes : Nat)
deriving DecidableEq, Repr

namespace LogEvent

/-- The least level that shows an event. -/
def level : LogEvent → LogLevel
  | edit _ => .trace
  | pass .. => .debug
  | noFixedPoint .. => .warn

def noticeText : EditNotice → String
  | .eliding start => s!"eliding pure host call statement start={start}"
  | .substituting start chain =>
      s!"substituting loader call start={start} chain=" ++ ".".intercalate chain
  | .binding start method => s!"binding host method start={start} method={method}"
  | .pruningBinding start => s!"pruning unreferenced binding start={start}"
  | .pruningPattern start => s!"pruning emptied nested pattern start={start}"
  | .splitting start count =>
      s!"splitting bindable host methods out of destructure start={start} count={count}"

/-- The line of an event. -/
def line : LogEvent → String
  | edit notice => "TRACE " ++ noticeText notice
  | pass moduleId number planned applied =>
      "DEBUG rewrite pass module=" ++ Text.quoted moduleId
        ++ s!" pass={number} planned={planned} applied={applied}"
  | noFixedPoint moduleId passes =>
      " WARN no fixed point reached; emitting last rewrite module=" ++ Text.quoted moduleId
        ++ s!" passes={passes}"

/-- What happened in rounds that are numbered from `number` on. -/
def ofRounds (moduleId : String) : (number : Nat) → List Round → List LogEvent
  | _, [] => []
  | number, r :: rs =>
      r.notices.map edit ++ pass moduleId number r.plan.size r.stats.total
        :: ofRounds moduleId (number + 1) rs

/-- What happened in a run. That it came to no end is only worth a warning if there could have been
a second round. -/
def ofRun (moduleId : String) (maxPasses : Nat) (run : Run) : List LogEvent :=
  let isEndless := (run.ending == .stuck || run.ending == .exhausted) && 1 < maxPasses
  ofRounds moduleId 1 run.rounds
    ++ (if isEndless then [noFixedPoint moduleId run.rounds.length] else [])

end LogEvent

/-- The lines that the transform of a module shows at a level. -/
def transformLog (level : LogLevel) (moduleId source : String) (params : BuildParams)
    (config : TransformConfig) : List String :=
  match checkSettings params config with
  | .error _ => []
  | .ok () =>
      let events := LogEvent.ofRun moduleId config.maxPasses (editModule source params config)
      (events.filter fun e => e.level.rank ≤ level.rank).map LogEvent.line

end Graft
