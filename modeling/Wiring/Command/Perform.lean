import Wiring.Classify.Explanation
import Wiring.Command.Line
import Wiring.Run.Instant

/-!
# Performing commands

What a command prints and the code it ends with, and for a plan the files it leaves behind on the
host. A plan reads its configuration, makes its output directory, loads its inputs, runs, and writes
its artifacts; the first step that fails ends it.
-/

namespace Wiring

/-- What a command prints, and the code it ends with. -/
structure Response where
  code : Nat
  stdout : String := ""
  deriving DecidableEq

namespace Response

/-- All went well. -/
def success (stdout : String) : Response := ⟨0, stdout⟩

/-- Something failed. -/
def failed : Response := ⟨1, ""⟩

/-- The words make no command. -/
def usage : Response := ⟨2, ""⟩

end Response

namespace Command

/-- The tool that runs. -/
def toolName : String := "beanwire"

def toolVersion : String := "0.1.0"

/-- The tool with its version. -/
def tool : ToolInfo := ⟨toolName, some toolVersion, none⟩

/-- The line on a run. -/
def summary (c : ReportCounts) : String :=
  "classes: " ++ toString c.classes ++ "  planned: " ++ toString c.planned ++ "  rejected: " ++
    toString c.rejected ++ "  skipped: " ++ toString c.skipped ++ "  plans: " ++
    toString c.plans ++ "\n"

end Command

namespace PlanOptions

/-- Where artifacts go. -/
def artifactDir (o : PlanOptions) : String :=
  o.outDir.getD (Path.join (Path.join o.root "artifacts") "beanwire")

/-- Where batches come from. -/
def batchInputs (o : PlanOptions) : List String :=
  if o.inputs.isEmpty then [Path.join o.root "classes"] else o.inputs

/-- Plans. The clock is read before batches are loaded and after they are. -/
def perform {m : Type → Type} [Monad m] (o : PlanOptions) (h : Host m) (clock : m Instant) :
    m Response := do
  match ← (h.loadSettings o.root).run with
  | .error _ => return .failed
  | .ok configured =>
    if !(← h.createDirs o.artifactDir) then return .failed
    let start ← clock
    match ← (h.loadBatches o.batchInputs).run with
    | .error _ => return .failed
    | .ok batches =>
      let time := RunInfo.between start (← clock)
      let outcome := (configured.override o.overrides).run Command.tool time batches
      match ← (outcome.artifacts o.artifactDir).perform h.perform with
      | .error _ => return .failed
      | .ok () =>
        return ⟨if outcome.rejected then 2 else 0, Command.summary outcome.report.verdict.counts⟩

end PlanOptions

namespace Command

variable {m : Type → Type} [Monad m]

def perform (h : Host m) (clock : m Instant) : Command → m Response
  | .plan o => o.perform h clock
  | .explain query =>
    match Rule.ofQuery? query with
    | some r => return .success r.page
    | none => return .failed
  | .listRules .text => return .success Rule.listText
  | .listRules .json => return .success (Rule.listJson.pretty ++ "\n")
  | .version => return .success (toolName ++ " " ++ toolVersion ++ "\n")
  | .help => return .success ""

/-- Performs what the words of a command line ask for. -/
def performWords (h : Host m) (clock : m Instant) (words : List String) : m Response :=
  match ofWords? words with
  | some c => perform h clock c
  | none => return .usage

end Command

end Wiring
