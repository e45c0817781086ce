import Wiring.Plan.Basic

/-!
# Recording on plans

Names of plans, and the entries that classification makes on them.
-/

namespace Wiring

/-- A method as a plan refers to it. -/
def MethodRef.of (m : MethodModel) (requiresReflection : Bool) : MethodRef :=
  ⟨m.declaringType, m.name, m.signature, requiresReflection⟩

/-- A field as a plan refers to it. -/
def FieldRef.of (f : FieldModel) (requiresReflection : Bool) : FieldRef :=
  ⟨f.declaringType, f.name, f.typeName, requiresReflection⟩

namespace Plan

def definitionName (beanType : String) : String := "$" ++ simpleNameOf beanType ++ "$Definition"

def proxyName (beanType : String) : String := definitionName beanType ++ "$Intercepted"

def adapterName (beanType method : String) (index : Nat) : String :=
  "$" ++ simpleNameOf beanType ++ "$" ++ method ++ "$Adapter" ++ toString index

/-- A plan without entries. -/
def new (name beanType : String) (kind : PlanKind) : Plan := { name, beanType, kind }

variable (p : Plan)

def withTypeArguments (a : TypeArguments) : Plan := { p with typeArguments := a }

/-- Takes over the markers of a set. -/
def withMarkers (c : CapabilitySet) : Plan := { p with markers := c.markerNames }

/-- Makes the bean by a constructor of the class. -/
def withConstructor (k : ConstructorModel) (requiresReflection : Bool) : Plan :=
  { p with
    constructor := some <| .declared
      (k.parameters.map fun a => ⟨a.name, a.typeName⟩) requiresReflection }

/-- Makes the bean by the constructor that every class has. -/
def withDefaultConstructor : Plan := { p with constructor := some .default }

def withSuperBean (name : String) : Plan := { p with superBean := some name }

def addPostConstruct (m : MethodModel) (requiresReflection : Bool) : Plan :=
  { p with postConstructMethods := p.postConstructMethods ++ [.of m requiresReflection] }

def addPreDestroy (m : MethodModel) (requiresReflection : Bool) : Plan :=
  { p with preDestroyMethods := p.preDestroyMethods ++ [.of m requiresReflection] }

def addMethodInjection (m : MethodModel) (requiresReflection : Bool) : Plan :=
  { p with methodInjectionPoints := p.methodInjectionPoints ++ [.of m requiresReflection] }

def addFieldInjection (f : FieldModel) (requiresReflection : Bool) : Plan :=
  { p with fieldInjectionPoints := p.fieldInjectionPoints ++ [.of f requiresReflection] }

def addFieldValue (f : FieldModel) (optional requiresReflection : Bool) : Plan :=
  { p with
    fieldValues := p.fieldValues ++
      [⟨.of f requiresReflection, optional, f.capabilities.markerNames⟩] }

/-- Gives a property's value to a setter, which is called directly. -/
def addSetterValue (property : String) (setter : MethodModel) (optional : Bool) : Plan :=
  { p with setterValues := p.setterValues ++ [⟨property, .of setter false, optional⟩] }

/-- Exposes a method, which is called directly. -/
def addExecutable (m : MethodModel) : Plan :=
  { p with executableMethods := p.executableMethods ++ [.of m false] }

/-- Intercepts a method, which is called directly. -/
def addAround (m : MethodModel) (bindings : List String) : Plan :=
  { p with aroundMethods := p.aroundMethods ++ [⟨.of m false, bindings⟩] }

def withMethodProcessing (required : Bool) : Plan :=
  { p with requiresMethodProcessing := required }

def addOriginating (typeName : String) : Plan :=
  { p with originatingElements := p.originatingElements.insert typeName }

/-- Takes over the type arguments and the constructor of a class. -/
def withShape (c : ClassModel) : Plan :=
  let p := p.withTypeArguments c.typeArguments
  match c.primaryConstructor with
  | some k => p.withConstructor k (k.visibility == .priv)
  | none => p.withDefaultConstructor

end Plan

end Wiring
