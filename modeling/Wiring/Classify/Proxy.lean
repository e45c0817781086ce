import Wiring.Classify.Rules
import Wiring.Classify.Weaver

/-!
# Proxies and adapters

A class has at most one proxy, made when something first needs it. Its adapters are numbered in the
order in which they are made.
-/

namespace Wiring

/-- A final class cannot be proxied. -/
def checkProxyable (c : ClassModel) : Except Violation Unit :=
  if c.isFinal then .error ⟨.finalClassProxy, c.name⟩ else .ok ()

/-- The markers that call for a proxy: those of the method that first needs it, unless the class is
proxied as a whole. -/
def proxyAdvice (c : ClassModel) (alwaysProxies : Bool) (trigger : Option MethodModel) :
    CapabilitySet :=
  match trigger with
  | some m => if alwaysProxies then c.capabilities else m.capabilities
  | none => c.capabilities

/-- The proxy of a class, made if there is none yet. -/
def demandProxy (w : Weaver) (c : ClassModel) (main : Plan) (alwaysProxies : Bool)
    (trigger : Option MethodModel) (current : Option Plan) : Except Violation Plan :=
  match current with
  | some proxy => .ok proxy
  | none => do
    checkProxyable c
    return ((w.proxyPlan c main (proxyAdvice c alwaysProxies trigger)).withShape c).withSuperBean
      main.name

/-- Adds the adapter of a method, under the next number, unless the weaver refuses. -/
def synthesizeAdapter (w : Weaver) (c : ClassModel) (m : MethodModel) (adapters : List Plan) :
    Option (List Plan) :=
  (w.adapterPlan c m adapters.length).map fun plan => adapters ++ [plan]

end Wiring
