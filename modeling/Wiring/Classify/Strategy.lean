import Wiring.Classify.Violation
import Wiring.Model.Enumeration
import Wiring.Plan.Record

/-!
# Strategies

A class is processed in one of three modes. A `Strategy` is a mode with its switches and with the
handler that decides about properties.
-/

namespace Wiring

/-- How a class is processed. -/
inductive Mode where
  | simple
  /-- Properties come first, and what makes them up is left out. -/
  | properties
  /-- The class is proxied as a whole. -/
  | alwaysProxy
  deriving DecidableEq, Inhabited

namespace Mode

def all : List Mode := [.simple, .properties, .alwaysProxy]

def name : Mode → String
  | .simple => "simple"
  | .properties => "properties"
  | .alwaysProxy => "always-proxy"

def ofName? (s : String) : Option Mode := all.find? (·.name == s)

/-- The wording for a name that is no mode. -/
def unknownMessage (s : String) : String :=
  "unknown processing mode '" ++ s ++ "' (expected simple, properties or always-proxy)"

/-- The mode that the markers of a class call for. The registry counts only for a class that is not
resolved. -/
def detect (c : ClassModel) (r : Registry) : Mode :=
  let carries (marker : String) : Bool :=
    if c.capabilities.isResolved then c.capabilities.hasStereotype marker
    else c.capabilities.markerNames.any (r.carries · marker)
  if carries Marker.around && !c.isAbstract then .alwaysProxy
  else if carries Marker.configurationReader then .properties
  else .simple

end Mode

/-- Decides how a property is wired. -/
structure PropertyHandler where
  name : String
  /-- Whether the property is claimed, and the main plan with what was wired for it. The switch says
  whether values are optional. -/
  visit : ClassModel → Plan → Bool → PropertyModel → Except Violation (Bool × Plan)

namespace PropertyHandler

/-- Claims no property. -/
def noop : PropertyHandler := ⟨"noop", fun _ plan _ _ => .ok (false, plan)⟩

/-- Gives a value to the writer of every property whose writer is neither private nor static. -/
def configuration : PropertyHandler where
  name := "configuration"
  visit c plan optional p :=
    match (c.writerIndex? p).bind (c.methods[·]?) with
    | none => .ok (false, plan)
    | some setter =>
      if setter.visibility == .priv || setter.isStatic then .ok (false, plan)
      else .ok (true, plan.addSetterValue p.name setter optional)

end PropertyHandler

/-- A mode with its switches. -/
structure Strategy where
  mode : Mode := .simple
  /-- Values of fields and properties are optional. -/
  optionalFieldValues : Bool := false
  /-- Classes of the dynamic dialect expose methods that are not private, reachable or not. -/
  legacyDialectAccess : Bool := false
  handler : PropertyHandler := .noop

namespace Strategy

def ofMode : Mode → Strategy
  | .simple => {}
  | .properties =>
    { mode := .properties, optionalFieldValues := true, handler := .configuration }
  | .alwaysProxy => { mode := .alwaysProxy }

/-- Whether the class is proxied as a whole. -/
def alwaysProxies (s : Strategy) : Bool := s.mode == .alwaysProxy

/-- Whether properties come first. -/
def readsProperties (s : Strategy) : Bool := s.mode == .properties

end Strategy

end Wiring
