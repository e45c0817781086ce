import Wiring.Classify.Strategy

/-!
# Rules

What becomes of a single member, from the member and its class alone. `judgeField` and `judgeMethod`
go through the rules in order; the first that applies decides. A method can break a rule.
-/

namespace Wiring

/-- Whether the executable marker is written on the method itself. -/
def MethodModel.isExplicitlyExecutable (m : MethodModel) : Bool :=
  m.capabilities.hasDeclaredMarker Marker.executable

/-- A static method must be explicitly executable and reachable without reflection. -/
def checkStatic (c : ClassModel) (m : MethodModel) : Except Violation Unit :=
  if !m.isStatic then .ok ()
  else if !m.isExplicitlyExecutable then
    .error ⟨.staticNotExecutable, m.member.description⟩
  else if !m.member.isAccessibleFrom c then
    .error ⟨.inaccessibleMethod, m.member.description⟩
  else .ok ()

/-! ## Fields -/

/-- What becomes of a field. -/
def judgeField (f : FieldModel) : Disposition :=
  let caps := f.capabilities
  if f.isStatic || f.isFinal then .unclaimed
  else if caps.hasStereotype Marker.value || caps.hasStereotype Marker.property then .fieldValue
  else if caps.hasStereotype Marker.inject ||
      (caps.hasDeclaredStereotype Marker.qualifier && !caps.hasDeclaredMarker Marker.bean) then
    .fieldInjection
  else .unclaimed

/-! ## Methods -/

/-- Whether advice on the class as a whole reaches the method. -/
def classAdvice (s : Strategy) (m : MethodModel) : Bool :=
  s.alwaysProxies && (m.visibility == .pub || m.visibility == .pkg)

def MethodModel.declaresAdvice (m : MethodModel) : Bool :=
  m.capabilities.hasDeclaredStereotype Marker.around

/-- Whether advice applies to the method. -/
def isAdvised (s : Strategy) (c : ClassModel) (m : MethodModel) : Bool :=
  classAdvice s m || (!s.alwaysProxies && m.capabilities.hasStereotype Marker.around) ||
    (m.declaresAdvice && !c.isAbstract)

/-- Whether the method is intercepted. A method of a final class counts as final; a final method is
passed over unless advice is written on it or reaches it from its own class. -/
def judgeAdvice (s : Strategy) (c : ClassModel) (m : MethodModel) : Except Violation Bool :=
  let here := m.member.isDeclaredOn c
  if !isAdvised s c m then .ok false
  else if m.isFinal || (c.isFinal && here) then
    if m.declaresAdvice then .error ⟨.finalAdvisedMethod, m.member.description⟩
    else if classAdvice s m && here then .error ⟨.finalInheritedAdvice, m.member.description⟩
    else .ok false
  else if m.visibility == .priv then .error ⟨.privateAdvisedMethod, m.member.description⟩
  else if m.isStatic then .error ⟨.staticAdvisedMethod, m.member.description⟩
  else .ok true

/-- The markers that carry advice, of the method before the class, each once. -/
def interceptorBindings (r : Registry) (c : ClassModel) (m : MethodModel) : List String :=
  ((m.capabilities.markerNames ++ c.capabilities.markerNames).filter
    (r.carries · Marker.around)).eraseDups

/-- Whether the supertype that declares the method is executable as a whole. -/
def declaringTypeIsExecutable (c : ClassModel) (m : MethodModel) : Bool :=
  (c.typeCapabilities? m.declaringType).any (·.hasStereotype Marker.executable)

/-- Whether the method is exposed for calls without reflection. -/
def judgeExposure (s : Strategy) (c : ClassModel) (m : MethodModel) : Except Violation Bool :=
  let accessible := m.member.isAccessibleFrom c
  let legacy := s.legacyDialectAccess && c.dialect == .dynamic && m.visibility != .priv
  if !(Effective.mk m.capabilities c.capabilities).hasStereotype Marker.executable then .ok false
  else if m.capabilities.hasStereotype Marker.executable then
    if accessible then .ok true
    else .error ⟨.inaccessibleExecutable, m.member.description⟩
  else if !m.member.isDeclaredOn c && !declaringTypeIsExecutable c m && m.visibility != .pub then
    .ok false
  else .ok (accessible || legacy)

/-- What a method is to be, before it is registered. -/
inductive Verdict where
  | unclaimed
  | lifecycle (postConstruct preDestroy : Bool)
  | injection
  /-- To be adapted, if the weaver does not refuse. -/
  | adaptation
  | interception
  | exposure
  deriving DecidableEq

/-- What is decided about a method. -/
structure Judgement where
  verdict : Verdict
  /-- Whether the method calls for processing at startup. -/
  processed : Bool := false
  deriving DecidableEq

/-- What becomes of a method. -/
def judgeMethod (s : Strategy) (c : ClassModel) (m : MethodModel) : Except Violation Judgement :=
  let own := m.capabilities
  let post := own.hasDeclaredMarker Marker.postConstruct
  let pre := own.hasDeclaredMarker Marker.preDestroy
  let processed := (Effective.mk own c.capabilities).isTrue Marker.executable Marker.processOnStartup
  if post || pre then do
    checkStatic c m
    return ⟨.lifecycle post pre, false⟩
  else if !m.isStatic && own.hasDeclaredStereotype Marker.inject then .ok ⟨.injection, false⟩
  else if m.isStatic && !m.isExplicitlyExecutable then .ok ⟨.unclaimed, false⟩
  else if own.hasStereotype Marker.adapter then do
    checkStatic c m
    return ⟨.adaptation, processed⟩
  else do
    if ← judgeAdvice s c m then return ⟨.interception, processed⟩
    if ← judgeExposure s c m then return ⟨.exposure, processed⟩
    return ⟨.unclaimed, processed⟩

end Wiring
