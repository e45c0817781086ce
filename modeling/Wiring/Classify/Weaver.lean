import Wiring.Plan.Record
import Wiring.Text.Blank

/-!
# Weavers

Classification decides whether a class needs a proxy or a method an adapter; a `Weaver` decides
what the plan for it looks like.
-/

namespace Wiring

/-- Shapes the plans of proxies and adapters. -/
structure Weaver where
  /-- The proxy plan of a class with a main plan, for the markers that call for it. The constructor,
  the type arguments and the super bean are set by the caller. -/
  proxyPlan : ClassModel → Plan → CapabilitySet → Plan
  /-- A proxy plan with a method intercepted. -/
  interceptMethod : Plan → ClassModel → MethodModel → List String → Plan
  /-- The plan of the adapter of a method with a number, unless it is refused. -/
  adapterPlan : ClassModel → MethodModel → Nat → Option Plan

namespace Weaver

/-- The type that an adapter of a method implements: the first string under its key, on the adapter
marker before any other. -/
def adaptedType? (m : MethodModel) : Option String :=
  ((m.capabilities.attribute? Marker.adapter Marker.adaptedType).bind CanonicalJson.string?).or
    (m.capabilities.findString Marker.adaptedType)

/-- Names plans after the bean, and makes adapters for methods that say what type to implement. -/
def standard : Weaver where
  proxyPlan c _ advice := (Plan.new (Plan.proxyName c.name) c.name .proxy).withMarkers advice
  interceptMethod proxy _ m bindings := proxy.addAround m bindings
  adapterPlan c m index :=
    match adaptedType? m with
    | none => none
    | some type =>
      if Text.isBlank type then none
      else
        let plan := Plan.new (Plan.adapterName c.name m.name index) c.name (.adapter index)
        some
          { plan.withDefaultConstructor with
            adaptedType := some type, adaptedMethod := some (.of m false) }

/-- As `standard`, but refuses every adapter. -/
def declining : Weaver := { standard with adapterPlan := fun _ _ _ => none }

end Weaver

end Wiring
