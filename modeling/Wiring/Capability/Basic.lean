import Wiring.Capability.Registry
import Wiring.Json.Basic
import Wiring.Marker

/-!
# Capability sets

The markers of one program element, in two layers: those written on it and those it has from the
members it overrides or from what encloses it. A set may be resolved against a registry, which
caches the stereotype closure of both layers; until then a stereotype is told by its name alone.
`Effective` looks at a member's set together with that of its class.
-/

namespace Wiring

/-- The attributes of a marker. -/
abbrev Attributes := StringMap CanonicalJson

/-- The closures of a set's layers. -/
structure Resolved where
  /-- What the written markers reach. -/
  declared : StringSet
  /-- What any marker reaches. -/
  all : StringSet
  deriving DecidableEq

structure CapabilitySet where
  /-- Markers written on the element. -/
  declared : StringMap Attributes := .empty
  /-- Markers the element has from elsewhere. -/
  inherited : StringMap Attributes := .empty
  resolved : Option Resolved := none

namespace CapabilitySet

/-- The set without markers. -/
def empty : CapabilitySet := {}

instance : Inhabited CapabilitySet := ⟨empty⟩

/-- Adds a marker without attributes to a layer, unless it is there. -/
def mark (layer : StringMap Attributes) (marker : String) : StringMap Attributes :=
  layer.alter marker (·.getD .empty)

/-- Adds a written marker. -/
def withDeclared (c : CapabilitySet) (marker : String) : CapabilitySet :=
  { c with declared := mark c.declared marker, resolved := none }

/-- Adds a written marker with an attribute, in place of the value the attribute had. -/
def withDeclaredAttribute (c : CapabilitySet) (marker key : String) (value : CanonicalJson) :
    CapabilitySet :=
  { c with
    declared := c.declared.alter marker fun a => (a.getD .empty).insert key value
    resolved := none }

def withInherited (c : CapabilitySet) (marker : String) : CapabilitySet :=
  { c with inherited := mark c.inherited marker, resolved := none }

/-- Caches the closure under a registry. -/
def resolve (c : CapabilitySet) (r : Registry) : CapabilitySet :=
  let declared := r.expand c.declared.keys
  { c with resolved := some ⟨declared, declared.union (r.expand c.inherited.keys)⟩ }

def isResolved (c : CapabilitySet) : Bool := c.resolved.isSome

/-- Adds a written marker that was derived, and brings the cache up to date. -/
def addDerived (c : CapabilitySet) (marker : String) (r : Registry) : CapabilitySet :=
  { c with declared := mark c.declared marker }.resolve r

/-- Whether there are no markers. -/
def isEmpty (c : CapabilitySet) : Bool := c.declared.isEmpty && c.inherited.isEmpty

/-- Whether `marker` is in some layer. -/
def hasMarker (c : CapabilitySet) (marker : String) : Bool :=
  c.declared.contains marker || c.inherited.contains marker

/-- Whether `marker` is written on the element. -/
def hasDeclaredMarker (c : CapabilitySet) (marker : String) : Bool := c.declared.contains marker

/-- Whether some marker is or carries `marker`, as far as the set is resolved. -/
def hasStereotype (c : CapabilitySet) (marker : String) : Bool :=
  match c.resolved with
  | some r => r.all.contains marker
  | none => c.hasMarker marker

/-- Whether some written marker is or carries `marker`, as far as the set is resolved. -/
def hasDeclaredStereotype (c : CapabilitySet) (marker : String) : Bool :=
  match c.resolved with
  | some r => r.declared.contains marker
  | none => c.hasDeclaredMarker marker

/-- An attribute of a marker; the written layer comes first. -/
def attribute? (c : CapabilitySet) (marker key : String) : Option CanonicalJson :=
  ((c.declared.get? marker).bind (·.get? key)).or
    ((c.inherited.get? marker).bind (·.get? key))

end CapabilitySet

namespace CanonicalJson

def isTrue (v : CanonicalJson) : Bool :=
  match v.json with
  | .bool b => b
  | _ => false

def string? (v : CanonicalJson) : Option String :=
  match v.json with
  | .str s => some s
  | _ => none

end CanonicalJson

namespace CapabilitySet

def isTrue (c : CapabilitySet) (marker key : String) : Bool :=
  (c.attribute? marker key).any CanonicalJson.isTrue

/-- The first string that an attribute has on any marker, written markers first. -/
def findString (c : CapabilitySet) (key : String) : Option String :=
  (c.declared.values ++ c.inherited.values).findSome? fun a =>
    (a.get? key).bind CanonicalJson.string?

/-- All markers, each once, those written on the element first. -/
def markerNames (c : CapabilitySet) : List String :=
  c.declared.keys ++ c.inherited.keys.filter (!c.declared.contains ·)

end CapabilitySet

/-- A member's markers seen together with those of its class, which count as inherited. -/
structure Effective where
  own : CapabilitySet
  context : CapabilitySet

namespace Effective

/-- Whether `marker` is on the member or the class. -/
def hasMarker (e : Effective) (marker : String) : Bool :=
  e.own.hasMarker marker || e.context.hasMarker marker

/-- Whether `marker` is written on the member. -/
def hasDeclaredMarker (e : Effective) (marker : String) : Bool := e.own.hasDeclaredMarker marker

/-- Whether some marker of the member or the class is or carries `marker`. -/
def hasStereotype (e : Effective) (marker : String) : Bool :=
  e.own.hasStereotype marker || e.context.hasStereotype marker

/-- Whether some marker written on the member is or carries `marker`. -/
def hasDeclaredStereotype (e : Effective) (marker : String) : Bool :=
  e.own.hasDeclaredStereotype marker

/-- Whether an attribute is the boolean true, where a value on the member hides that of the
class. -/
def isTrue (e : Effective) (marker key : String) : Bool :=
  match e.own.attribute? marker key with
  | some v => v.isTrue
  | none => e.context.isTrue marker key

end Effective

end Wiring
