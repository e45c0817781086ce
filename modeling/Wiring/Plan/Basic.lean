import Wiring.Model.Basic

/-!
# Plans

A `Plan` records what is wired for one bean; a `PlanSet` holds the plans of one class, with what
became of each of its members.
-/

namespace Wiring

inductive PlanKind where
  | bean
  | proxy
  | adapter (index : Nat)
  deriving DecidableEq

/-- A method as a plan refers to it. -/
structure MethodRef where
  declaringType : String := ""
  name : String := ""
  signature : String := ""
  requiresReflection : Bool := false
  deriving DecidableEq

/-- A field as a plan refers to it. -/
structure FieldRef where
  declaringType : String := ""
  name : String := ""
  typeName : String := ""
  requiresReflection : Bool := false
  deriving DecidableEq

/-- A value put into a field, with the field's markers. -/
structure FieldValue where
  field : FieldRef := {}
  optional : Bool := false
  markers : List String := []
  deriving DecidableEq

structure SetterValue where
  property : String := ""
  setter : MethodRef := {}
  optional : Bool := false
  deriving DecidableEq

/-- A parameter as a plan refers to it. -/
structure ParameterRef where
  name : String := ""
  typeName : String := ""
  deriving DecidableEq

/-- The constructor that makes a bean. -/
inductive ConstructorBinding where
  | declared (parameters : List ParameterRef) (requiresReflection : Bool)
  | default
  deriving DecidableEq

/-- A method with the advice markers that apply to it. -/
structure InterceptedMethod where
  method : MethodRef := {}
  bindings : List String := []
  deriving DecidableEq

/-- What is wired for a bean. -/
structure Plan where
  name : String
  beanType : String
  kind : PlanKind
  typeArguments : TypeArguments := .empty
  markers : List String := []
  constructor : Option ConstructorBinding := none
  superBean : Option String := none
  adaptedMethod : Option MethodRef := none
  adaptedType : Option String := none
  postConstructMethods : List MethodRef := []
  preDestroyMethods : List MethodRef := []
  methodInjectionPoints : List MethodRef := []
  fieldInjectionPoints : List FieldRef := []
  fieldValues : List FieldValue := []
  setterValues : List SetterValue := []
  executableMethods : List MethodRef := []
  aroundMethods : List InterceptedMethod := []
  requiresMethodProcessing : Bool := false
  /-- The other types that the plan was made from. -/
  originatingElements : StringSet := .empty
  deriving DecidableEq

inductive MemberKind where
  | field
  | method
  | property
  deriving DecidableEq

/-- What became of a member. -/
inductive Disposition where
  | unclaimed
  | fieldValue
  | fieldInjection
  | lifecycle (postConstruct preDestroy : Bool)
  | methodInjection
  | adapter (index : Nat)
  /-- An adapter was called for and refused. The member is claimed with nothing registered. -/
  | adapterDeclined
  | intercepted
  | executable
  | property
  deriving DecidableEq

/-- Whether a rule took the member. -/
def Disposition.isClaimed (d : Disposition) : Bool := d ≠ .unclaimed

structure MemberDisposition where
  kind : MemberKind
  member : String
  disposition : Disposition
  deriving DecidableEq

/-- All that is planned for a class. -/
structure PlanSet where
  className : String
  main : Plan
  proxy : Option Plan := none
  adapters : List Plan := []
  dispositions : List MemberDisposition := []
  deriving DecidableEq

namespace PlanSet

/-- The main plan, then the proxy, then the adapters. -/
def plans (s : PlanSet) : List Plan := s.main :: (s.proxy.toList ++ s.adapters)

/-- How many plans there are. -/
def planCount (s : PlanSet) : Nat := 1 + (if s.proxy.isSome then 1 else 0) + s.adapters.length

/-- The disposition of the first member with a description. -/
def dispositionOf? (s : PlanSet) (member : String) : Option Disposition :=
  (s.dispositions.find? (·.member == member)).map (·.disposition)

end PlanSet

end Wiring
