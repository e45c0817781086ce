import Wiring.Classify.Proxy

/-!
# Classification

`build` takes a class to its plan set or to the first violation, and tells in what state the class
is left: its capability sets resolved and some methods marked as validated. A `Pass` is what has
been planned so far.
-/

namespace Wiring

/-- What a class is classified with. -/
structure Setting where
  strategy : Strategy := {}
  registry : Registry := .empty
  weaver : Weaver := .standard

/-! ## Derived markers -/

/-- Marks a method as validated if it requires validation. -/
def MethodModel.deriveValidated (r : Registry) (m : MethodModel) : MethodModel :=
  if m.capabilities.hasStereotype Marker.requiresValidation &&
      !m.capabilities.hasDeclaredMarker Marker.validated then
    { m with capabilities := m.capabilities.addDerived Marker.validated r }
  else m

namespace ClassModel

/-- Marks the method at a position as validated if it requires validation. -/
def deriveValidated (c : ClassModel) (r : Registry) (i : Nat) : ClassModel :=
  { c with methods := c.methods.modify i (·.deriveValidated r) }

/-- The accessors of a property, the reader first. -/
def accessors (c : ClassModel) (p : PropertyModel) : List Nat :=
  (c.readerIndex? p).toList ++ (c.writerIndex? p).toList

/-- Marks both accessors of a property as validated if it or one of them requires validation. -/
def validateAccessors (c : ClassModel) (r : Registry) (p : PropertyModel) : ClassModel :=
  if p.capabilities.hasStereotype Marker.requiresValidation ||
      (c.accessors p).any fun i =>
        c.methods[i]?.any (·.capabilities.hasStereotype Marker.requiresValidation) then
    { c with
      methods := (c.accessors p).foldl (fun ms i => ms.modify i fun m =>
        { m with capabilities := m.capabilities.addDerived Marker.validated r }) c.methods }
  else c

end ClassModel

/-! ## The pass -/

/-- What has been planned for a class so far, and the class as it stands. -/
structure Pass where
  model : ClassModel
  main : Plan
  proxy : Option Plan := none
  adapters : List Plan := []
  dispositions : List MemberDisposition := []

/-- A violation, with the class as it stands then. -/
structure Refusal where
  violation : Violation
  model : ClassModel

namespace Pass

/-- The pass over a class that is about to begin. -/
def start (c : ClassModel) : Pass where
  model := c
  main :=
    ((Plan.new (Plan.definitionName c.name) c.name .bean).withShape c).withMarkers c.capabilities

variable (p : Pass)

/-- Notes what became of something described. -/
def note (kind : MemberKind) (member : String) (d : Disposition) : Pass :=
  { p with dispositions := p.dispositions ++ [⟨kind, member, d⟩] }

/-- Names a declaring type as an origin: of the proxy for an intercepted method, otherwise of the
main plan. -/
def originate (d : Disposition) (typeName : String) : Pass :=
  match d, p.proxy with
  | .intercepted, some proxy => { p with proxy := some (proxy.addOriginating typeName) }
  | _, _ => { p with main := p.main.addOriginating typeName }

/-- Notes what became of a field or method. A claimed member from elsewhere names its origin. -/
def record (kind : MemberKind) (m : Member) (d : Disposition) : Pass :=
  let p := if d.isClaimed && !m.isDeclaredOn p.model then p.originate d m.declaringType else p
  p.note kind m.description d

/-- Makes the proxy of a class that is proxied as a whole. -/
def openProxy (s : Setting) : Except Refusal Pass :=
  if s.strategy.alwaysProxies then
    match demandProxy s.weaver p.model p.main true none p.proxy with
    | .ok proxy => .ok { p with proxy := some proxy }
    | .error v => .error ⟨v, p.model⟩
  else .ok p

/-- Goes over a property. -/
def visitProperty (s : Setting) (property : PropertyModel) : Except Refusal Pass :=
  let c := p.model.validateAccessors s.registry property
  let p := { p with model := c }
  let name := c.name ++ "#" ++ property.name
  match s.strategy.handler.visit c p.main s.strategy.optionalFieldValues property with
  | .error v => .error ⟨v, c⟩
  | .ok (false, main) => .ok ({ p with main }.note .property name .unclaimed)
  | .ok (true, main) =>
    let members :=
      (c.accessors property).filterMap (fun i => c.methods[i]?.map (·.member)) ++
        (c.backingIndex? property).toList.filterMap fun i => c.fields[i]?.map (·.member)
    let origins := (members.filter (!·.isDeclaredOn c)).map (·.declaringType)
    .ok ({ p with main := origins.foldl Plan.addOriginating main }.note .property name .property)

/-- Goes over a field. -/
def visitField (s : Setting) (f : FieldModel) : Pass :=
  let d := judgeField f
  let reflection := f.member.requiresReflection p.model
  let main :=
    match d with
    | .fieldValue => p.main.addFieldValue f s.strategy.optionalFieldValues reflection
    | .fieldInjection => p.main.addFieldInjection f reflection
    | _ => p.main
  { p with main }.record .field f.member d

/-- Registers a method as it was judged. -/
def register (s : Setting) (m : MethodModel) (v : Verdict) : Except Violation (Pass × Disposition) :=
  let c := p.model
  let reflection := m.member.requiresReflection c
  match v with
  | .unclaimed => .ok (p, .unclaimed)
  | .lifecycle post pre =>
    let main := if post then p.main.addPostConstruct m reflection else p.main
    let main := if pre then main.addPreDestroy m reflection else main
    .ok ({ p with main }, .lifecycle post pre)
  | .injection =>
    .ok ({ p with main := p.main.addMethodInjection m reflection }, .methodInjection)
  | .adaptation =>
    match synthesizeAdapter s.weaver c m p.adapters with
    | none => .ok (p, .adapterDeclined)
    | some adapters =>
      .ok ({ p with main := p.main.addExecutable m, adapters }, .adapter p.adapters.length)
  | .interception => do
    let proxy ← demandProxy s.weaver c p.main s.strategy.alwaysProxies (some m) p.proxy
    let proxy := s.weaver.interceptMethod proxy c m (interceptorBindings s.registry c m)
    return ({ p with proxy := some proxy }, .intercepted)
  | .exposure => .ok ({ p with main := p.main.addExecutable m }, .executable)

/-- Goes over a method. -/
def visitMethod (s : Setting) (m : MethodModel) : Except Violation Pass := do
  let j ← judgeMethod s.strategy p.model m
  let p := if j.processed then { p with main := p.main.withMethodProcessing true } else p
  let (p, d) ← p.register s m j.verdict
  return p.record .method m.member d

/-- Goes over the member at a position. A method that requires validation is marked before. -/
def visit (s : Setting) (p : Pass) : MemberSlot → Except Refusal Pass
  | .field i =>
    match p.model.fields[i]? with
    | some f => .ok (p.visitField s f)
    | none => .ok p
  | .method i =>
    let c := p.model.deriveValidated s.registry i
    let p := { p with model := c }
    match c.methods[i]? with
    | some m => (p.visitMethod s m).mapError fun v => ⟨v, c⟩
    | none => .ok p

/-- What is enumerated under a strategy. -/
def query (s : Strategy) : ElementQuery := { excludeProperties := s.readsProperties }

/-- The members of a class in the order in which they are classified. -/
def slots (s : Strategy) (c : ClassModel) : List MemberSlot :=
  c.order (c.fieldIndices { query s with includeHidden := true }) (c.methodIndices (query s))

/-- Goes over a class: its proxy if it is proxied as a whole, its properties if they come first, and
its members. -/
def run (s : Setting) : Except Refusal Pass := do
  let p ← p.openProxy s
  let p ←
    if s.strategy.readsProperties then
      p.model.properties.foldlM (fun p property => p.visitProperty s property) p
    else pure p
  (slots s.strategy p.model).foldlM (visit s) p

def planSet : PlanSet :=
  ⟨p.model.name, p.main, p.proxy, p.adapters, p.dispositions⟩

end Pass

/-- What comes of classifying a class. -/
structure Build where
  result : Except Violation PlanSet
  /-- The class as it is left behind. -/
  model : ClassModel

/-- Classifies a class. -/
def build (s : Setting) (c : ClassModel) : Build :=
  match (Pass.start (c.resolve s.registry)).run s with
  | .ok p => ⟨.ok p.planSet, p.model⟩
  | .error e => ⟨.error e.violation, e.model⟩

end Wiring
