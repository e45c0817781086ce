import Wiring.Plan.Basic

/-!
# Reports and plan documents

What a run says about itself: a report on every class, and a document of the plans it made. Both
have a wire form with the same content in which the version of the tool is not optional.
-/

namespace Wiring

/-- The program that made a document. -/
structure ToolInfo where
  name : String := ""
  version : Option String := none
  commit : Option String := none
  deriving DecidableEq

/-- When a run took place. -/
structure RunInfo where
  startedAt : String := ""
  endedAt : Option String := none
  durationMs : Option Nat := none
  deriving DecidableEq

/-- The verdict of a run. -/
inductive ReportStatus where
  | pass
  | fail
  | skip
  deriving DecidableEq, Inhabited

/-- The name of a verdict. -/
def ReportStatus.name : ReportStatus → String
  | .pass => "pass"
  | .fail => "fail"
  | .skip => "skip"

/-- The numbers of a run. -/
structure ReportCounts where
  classes : Nat := 0
  planned : Nat := 0
  rejected : Nat := 0
  skipped : Nat := 0
  plans : Nat := 0
  proxies : Nat := 0
  adapters : Nat := 0
  deriving DecidableEq

/-- The verdict with its numbers and reasons. -/
structure ReportVerdict where
  status : ReportStatus := .pass
  counts : ReportCounts := {}
  reasons : List String := []
  deriving DecidableEq

/-- What became of a class. -/
inductive ClassStatus where
  | planned
  | rejected
  /-- Not looked at, since an earlier class was rejected. -/
  | skipped
  deriving DecidableEq, Inhabited

/-- Why a class was rejected. -/
structure Rejection where
  rule : String := ""
  element : String := ""
  message : String := ""
  deriving DecidableEq

structure ClassReport where
  className : String := ""
  status : ClassStatus := .planned
  /-- The fingerprint of the class as it was read. -/
  inputSha256 : String := ""
  plans : List String := []
  rejection : Option Rejection := none
  deriving DecidableEq

/-- The report on a run. -/
structure Report where
  schema : String := ""
  tool : ToolInfo := {}
  run : RunInfo := {}
  verdict : ReportVerdict := {}
  classes : List ClassReport := []
  deriving DecidableEq

/-- The plans of a run. -/
structure PlanDocument where
  schema : String := ""
  tool : ToolInfo := {}
  planSets : List PlanSet := []
  deriving DecidableEq

def plansSchema : String := "beanwire.plans.v1"

def reportSchema : String := "beanwire.report.v1"

def PlanDocument.new (tool : ToolInfo) (planSets : List PlanSet) : PlanDocument :=
  ⟨plansSchema, tool, planSets⟩

/-! ## Wire forms -/

/-- A tool whose version is known. -/
structure ToolInfoV1 where
  name : String := ""
  version : String := ""
  commit : Option String := none
  deriving DecidableEq

/-- The wire form of a plan document. -/
structure PlansV1 where
  schema : String := ""
  tool : ToolInfoV1 := {}
  planSets : List PlanSet := []
  deriving DecidableEq

/-- The wire form of a report. -/
structure ReportV1 where
  schema : String := ""
  tool : ToolInfoV1 := {}
  run : RunInfo := {}
  verdict : ReportVerdict := {}
  classes : List ClassReport := []
  deriving DecidableEq

/-- A document whose tool has no version. -/
inductive WireError where
  | missingToolVersion (context : String)
  deriving DecidableEq

def WireError.message : WireError → String
  | .missingToolVersion context => "missing tool version for " ++ context

def ToolInfo.toWire (t : ToolInfo) (context : String) : Except WireError ToolInfoV1 :=
  match t.version with
  | some version => .ok ⟨t.name, version, t.commit⟩
  | none => .error (.missingToolVersion context)

/-- The tool of a wire form. -/
def ToolInfoV1.tool (t : ToolInfoV1) : ToolInfo := ⟨t.name, some t.version, t.commit⟩

def PlanDocument.toWire (d : PlanDocument) : Except WireError PlansV1 := do
  return ⟨d.schema, ← d.tool.toWire "plans", d.planSets⟩

def PlansV1.document (w : PlansV1) : PlanDocument := ⟨w.schema, w.tool.tool, w.planSets⟩

def Report.toWire (r : Report) : Except WireError ReportV1 := do
  return ⟨r.schema, ← r.tool.toWire "report", r.run, r.verdict, r.classes⟩

end Wiring
