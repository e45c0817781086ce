import Wiring.Format.Plan
import Wiring.Report.Basic

/-!
# The JSON form of reports and documents

Names, kinds and defaults of the members of reports and plan documents, and of their wire forms.
-/

namespace Wiring

open Json (Codec)

def ToolInfo.codec : Codec ToolInfo :=
  .record "ToolInfo" {} [
    .required "name" .string (·.name) fun x t => { t with name := x },
    .optional "version" .string (·.version) fun x t => { t with version := x },
    .optional "commit" .string (·.commit) fun x t => { t with commit := x }]

def ToolInfoV1.codec : Codec ToolInfoV1 :=
  .record "ToolInfoV1" {} [
    .required "name" .string (·.name) fun x t => { t with name := x },
    .required "version" .string (·.version) fun x t => { t with version := x },
    .optional "commit" .string (·.commit) fun x t => { t with commit := x }]

def RunInfo.codec : Codec RunInfo :=
  .record "ReportRunInfo" {} [
    .required "started_at" .string (·.startedAt) fun x r => { r with startedAt := x },
    .optional "ended_at" .string (·.endedAt) fun x r => { r with endedAt := x },
    .optional "duration_ms" .word64 (·.durationMs) fun x r => { r with durationMs := x }]

def ReportStatus.codec : Codec ReportStatus := .cases name [.pass, .fail, .skip]

def ReportCounts.codec : Codec ReportCounts :=
  .record "ReportCounts" {} [
    .required "classes" .word64 (·.classes) fun x c => { c with classes := x },
    .required "planned" .word64 (·.planned) fun x c => { c with planned := x },
    .required "rejected" .word64 (·.rejected) fun x c => { c with rejected := x },
    .required "skipped" .word64 (·.skipped) fun x c => { c with skipped := x },
    .required "plans" .word64 (·.plans) fun x c => { c with plans := x },
    .required "proxies" .word64 (·.proxies) fun x c => { c with proxies := x },
    .required "adapters" .word64 (·.adapters) fun x c => { c with adapters := x }]

def ReportVerdict.codec : Codec ReportVerdict :=
  .record "ReportVerdict" {} [
    .required "status" ReportStatus.codec (·.status) fun x v => { v with status := x },
    .required "counts" ReportCounts.codec (·.counts) fun x v => { v with counts := x },
    namesField "reasons" (·.reasons) fun x v => { v with reasons := x }]

def ClassStatus.name : ClassStatus → String
  | .planned => "planned"
  | .rejected => "rejected"
  | .skipped => "skipped"

def ClassStatus.codec : Codec ClassStatus := .cases name [.planned, .rejected, .skipped]

def Rejection.codec : Codec Rejection :=
  .record "Rejection" {} [
    .required "rule" .string (·.rule) fun x r => { r with rule := x },
    .required "element" .string (·.element) fun x r => { r with element := x },
    .required "message" .string (·.message) fun x r => { r with message := x }]

def ClassReport.codec : Codec ClassReport :=
  .record "ClassReport" {} [
    .required "class_name" .string (·.className) fun x r => { r with className := x },
    .required "status" ClassStatus.codec (·.status) fun x r => { r with status := x },
    .required "input_sha256" .string (·.inputSha256) fun x r => { r with inputSha256 := x },
    namesField "plans" (·.plans) fun x r => { r with plans := x },
    .optional "rejection" Rejection.codec (·.rejection) fun x r => { r with rejection := x }]

def Report.codec : Codec Report :=
  .record "BeanwireReport" {} [
    .required "schema" .string (·.schema) fun x r => { r with schema := x },
    .required "tool" ToolInfo.codec (·.tool) fun x r => { r with tool := x },
    .required "run" RunInfo.codec (·.run) fun x r => { r with run := x },
    .required "verdict" ReportVerdict.codec (·.verdict) fun x r => { r with verdict := x },
    .defaulted "classes" (.list ClassReport.codec) (·.classes) fun x r => { r with classes := x }]

def ReportV1.codec : Codec ReportV1 :=
  .record "ReportV1" {} [
    .required "schema" .string (·.schema) fun x r => { r with schema := x },
    .required "tool" ToolInfoV1.codec (·.tool) fun x r => { r with tool := x },
    .required "run" RunInfo.codec (·.run) fun x r => { r with run := x },
    .required "verdict" ReportVerdict.codec (·.verdict) fun x r => { r with verdict := x },
    .defaulted "classes" (.list ClassReport.codec) (·.classes) fun x r => { r with classes := x }]

def PlanDocument.codec : Codec PlanDocument :=
  .record "PlanDocument" {} [
    .required "schema" .string (·.schema) fun x d => { d with schema := x },
    .required "tool" ToolInfo.codec (·.tool) fun x d => { d with tool := x },
    .defaulted "plan_sets" (.list PlanSet.codec) (·.planSets) fun x d => { d with planSets := x }]

def PlansV1.codec : Codec PlansV1 :=
  .record "PlansV1" {} [
    .required "schema" .string (·.schema) fun x d => { d with schema := x },
    .required "tool" ToolInfoV1.codec (·.tool) fun x d => { d with tool := x },
    .defaulted "plan_sets" (.list PlanSet.codec) (·.planSets) fun x d => { d with planSets := x }]

end Wiring
