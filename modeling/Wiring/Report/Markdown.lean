import Wiring.Report.Basic

/-!
# Markdown

Plan sets and runs as a page to read. A page is a list of lines; each line of a plan tells one part
of it and is left out where that part is empty.
-/

namespace Wiring.Markdown

def text (lines : List String) : String := .join (lines.map (· ++ "\n"))

/-- Inline code. -/
def code (s : String) : String := "`" ++ s ++ "`"

/-- A list in one line. -/
def listed (items : List String) : String := ", ".intercalate items

def kindLabel : PlanKind → String
  | .bean => "bean"
  | .proxy => "proxy"
  | .adapter index => "adapter #" ++ toString index

/-- A remark on what only reflection can reach. -/
def reflectiveMark (requiresReflection : Bool) : String :=
  if requiresReflection then " (reflective)" else ""

/-- How a bean is made. -/
def constructorLabel : ConstructorBinding → String
  | .default => "default"
  | .declared parameters requiresReflection =>
    "(" ++ listed (parameters.map fun p => p.typeName ++ " " ++ p.name) ++ ")" ++
      reflectiveMark requiresReflection

/-- A method by its signature. -/
def methodLabel (m : MethodRef) : String := code m.signature ++ reflectiveMark m.requiresReflection

/-- A line on some items, unless there are none. -/
def itemsLine (label : String) (items : List String) : List String :=
  if items.isEmpty then [] else ["  - " ++ label ++ ": " ++ listed items]

def aroundLines (methods : List InterceptedMethod) : List String :=
  if methods.isEmpty then []
  else
    "  - Intercepted:" ::
      methods.map fun m => "    - " ++ code m.method.signature ++ " [" ++ listed m.bindings ++ "]"

def adaptedLine (p : Plan) : List String :=
  match p.adaptedMethod, p.adaptedType with
  | some method, some type => ["  - Adapts: " ++ code method.signature ++ " as " ++ code type]
  | _, _ => []

def planLines (p : Plan) : List String :=
  ["- " ++ code p.name ++ " (" ++ kindLabel p.kind ++ ")"] ++
    (p.constructor.map fun k => "  - Constructor: " ++ constructorLabel k).toList ++
    (p.superBean.map fun name => "  - Super bean: " ++ code name).toList ++
    adaptedLine p ++
    (if p.requiresMethodProcessing then ["  - Requires method processing"] else []) ++
    itemsLine "Post-construct" (p.postConstructMethods.map methodLabel) ++
    itemsLine "Pre-destroy" (p.preDestroyMethods.map methodLabel) ++
    itemsLine "Method injection" (p.methodInjectionPoints.map methodLabel) ++
    itemsLine "Field injection" (p.fieldInjectionPoints.map (code ·.name)) ++
    itemsLine "Field values" (p.fieldValues.map (code ·.field.name)) ++
    itemsLine "Setter values" (p.setterValues.map (code ·.property)) ++
    itemsLine "Executable" (p.executableMethods.map methodLabel) ++
    aroundLines p.aroundMethods ++
    itemsLine "Originating" (p.originatingElements.elems.map code) ++
    [""]

/-- A truth value in words. -/
def boolLabel (b : Bool) : String := if b then "true" else "false"

/-- What became of a member. -/
def dispositionLabel : Disposition → String
  | .unclaimed => "Unclaimed"
  | .fieldValue => "FieldValue"
  | .fieldInjection => "FieldInjection"
  | .lifecycle postConstruct preDestroy =>
    "Lifecycle \x7b post_construct: " ++ boolLabel postConstruct ++ ", pre_destroy: " ++
      boolLabel preDestroy ++ " \x7d"
  | .methodInjection => "MethodInjection"
  | .adapter index => "Adapter \x7b index: " ++ toString index ++ " \x7d"
  | .adapterDeclined => "AdapterDeclined"
  | .intercepted => "Intercepted"
  | .executable => "Executable"
  | .property => "Property"

def memberLines (dispositions : List MemberDisposition) : List String :=
  let claimed := dispositions.filter (·.disposition.isClaimed)
  if claimed.isEmpty then []
  else
    ["**Members**", ""] ++
      claimed.map (fun d => "- " ++ code d.member ++ " " ++ dispositionLabel d.disposition) ++ [""]

/-- The lines on a class. -/
def planSetLines (s : PlanSet) : List String :=
  ["### " ++ s.className, ""] ++ s.plans.flatMap planLines ++ memberLines s.dispositions

def verdictLines (v : ReportVerdict) : List String :=
  let c := v.counts
  ["- Verdict: " ++ code (v.status.name),
    "- Classes: " ++ toString c.classes ++ " (planned " ++ toString c.planned ++ ", rejected " ++
      toString c.rejected ++ ", skipped " ++ toString c.skipped ++ ")",
    "- Plans: " ++ toString c.plans ++ " (proxies " ++ toString c.proxies ++ ", adapters " ++
      toString c.adapters ++ ")"]

def rejectionLines (classes : List ClassReport) : List String :=
  let rejected := classes.filter (·.status = .rejected)
  if rejected.isEmpty then []
  else
    ["## Rejected", ""] ++
      rejected.filterMap (fun c => c.rejection.map fun r =>
        "- " ++ code c.className ++ " [" ++ r.rule ++ "] " ++ r.message) ++ [""]

def runLines (d : PlanDocument) (r : Report) : List String :=
  ["# beanwire plans", ""] ++ verdictLines r.verdict ++ [""] ++ rejectionLines r.classes ++
    ["## Classes", ""] ++
    (if d.planSets.isEmpty then ["_No classes planned._"] else d.planSets.flatMap planSetLines)

end Markdown

/-- The page on a class. -/
def PlanSet.markdown (s : PlanSet) : String := Markdown.text (Markdown.planSetLines s)

/-- The page on a run. -/
def PlanDocument.markdown (d : PlanDocument) (r : Report) : String :=
  Markdown.text (Markdown.runLines d r)

end Wiring
