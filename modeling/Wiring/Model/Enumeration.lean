import Wiring.Model.Basic

/-!
# Enumerating members

Members are told by their positions in the class. `fieldIndices` and `methodIndices` give those that
a query asks for; `order` arranges positions for classification: inherited fields, inherited
methods, declared fields, declared methods, each group as given.
-/

namespace Wiring

/-- Which members to enumerate. -/
structure ElementQuery where
  onlyDeclared : Bool := false
  includeHidden : Bool := false
  /-- Leave out what makes up a property. -/
  excludeProperties : Bool := false
  deriving DecidableEq

/-- The position of a field or of a method. -/
inductive MemberSlot where
  | field (index : Nat)
  | method (index : Nat)
  deriving DecidableEq

namespace ClassModel

variable (c : ClassModel)

/-- The class with every capability set resolved. -/
def resolve (r : Registry) : ClassModel :=
  let parameter (p : ParameterModel) := { p with capabilities := p.capabilities.resolve r }
  { c with
    capabilities := c.capabilities.resolve r
    primaryConstructor := c.primaryConstructor.map fun k =>
      { k with capabilities := k.capabilities.resolve r, parameters := k.parameters.map parameter }
    fields := c.fields.map fun f => { f with capabilities := f.capabilities.resolve r }
    methods := c.methods.map fun m =>
      { m with capabilities := m.capabilities.resolve r, parameters := m.parameters.map parameter }
    properties := c.properties.map fun p => { p with capabilities := p.capabilities.resolve r }
    supertypes := c.supertypes.map fun s => { s with capabilities := s.capabilities.resolve r } }

/-- The markers of the class itself or of its first listed supertype of that name. -/
def typeCapabilities? (typeName : String) : Option CapabilitySet :=
  if typeName = c.name then some c.capabilities
  else (c.supertypes.find? (·.name == typeName)).map (·.capabilities)

/-- The first field of a name that is not hidden. -/
def fieldIndex? (name : String) : Option Nat :=
  c.fields.findIdx? fun f => f.name == name && !f.hidden

/-- The first method of a name with so many parameters. -/
def methodIndex? (name : String) (arity : Nat) : Option Nat :=
  c.methods.findIdx? fun m => m.name == name && m.parameters.length == arity

def readerIndex? (p : PropertyModel) : Option Nat := p.readMethod.bind (c.methodIndex? · 0)

def writerIndex? (p : PropertyModel) : Option Nat := p.writeMethod.bind (c.methodIndex? · 1)

/-- The field of a property. -/
def backingIndex? (p : PropertyModel) : Option Nat := p.field.bind c.fieldIndex?

def propertyFields : List Nat := c.properties.filterMap c.backingIndex?

/-- The readers and writers of all properties. -/
def propertyMethods : List Nat :=
  c.properties.flatMap fun p => (c.readerIndex? p).toList ++ (c.writerIndex? p).toList

def fieldIndices (q : ElementQuery) : List Nat :=
  (c.fields.zipIdx.filter fun (f, i) =>
    (q.includeHidden || !f.hidden) && (!q.onlyDeclared || f.declaringType == c.name) &&
      !(q.excludeProperties && c.propertyFields.contains i)).map (·.2)

def methodIndices (q : ElementQuery) : List Nat :=
  (c.methods.zipIdx.filter fun (m, i) =>
    (!q.onlyDeclared || m.declaringType == c.name) &&
      !(q.excludeProperties && c.propertyMethods.contains i)).map (·.2)

/-- Whether the field at a position is declared on the class. -/
def declaresField (i : Nat) : Bool := c.fields[i]?.any (·.declaringType == c.name)

/-- Whether the method at a position is declared on the class. -/
def declaresMethod (i : Nat) : Bool := c.methods[i]?.any (·.declaringType == c.name)

/-- The order in which members are classified. -/
def order (fields methods : List Nat) : List MemberSlot :=
  (fields.filter (!c.declaresField ·)).map .field ++
    (methods.filter (!c.declaresMethod ·)).map .method ++
    (fields.filter (c.declaresField ·)).map .field ++
    (methods.filter (c.declaresMethod ·)).map .method

/-- The order of members at given positions, if the class has them all. -/
def order? (fields methods : List Nat) : Option (List MemberSlot) :=
  if fields.all (· < c.fields.length) ∧ methods.all (· < c.methods.length) then
    some (c.order fields methods)
  else none

end ClassModel

end Wiring
