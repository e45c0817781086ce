import Wiring.Capability.Basic

/-!
# Class models

A class as its provider describes it: all its members, inherited ones included, in the provider's
order. A member refers to its declaring type by name; it is inherited if that is not the class.
-/

namespace Wiring

/-- For each supertype, the types bound to its parameters. -/
abbrev TypeArguments := StringMap (StringMap String)

/-- Who may see a member: all, subtypes and the package, the package, or the declaring type. -/
inductive Visibility where
  | pub
  | prot
  | pkg
  | priv
  deriving DecidableEq, Inhabited

/-- The kind of language a class was written in. -/
inductive Dialect where
  | standard
  | dynamic
  deriving DecidableEq, Inhabited

/-- A parameter of a constructor or method. -/
structure ParameterModel where
  name : String := ""
  typeName : String := ""
  capabilities : CapabilitySet := {}
  deriving Inhabited

structure ConstructorModel where
  visibility : Visibility := .pub
  parameters : List ParameterModel := []
  capabilities : CapabilitySet := {}
  deriving Inhabited

structure FieldModel where
  name : String := ""
  typeName : String := ""
  declaringType : String := ""
  visibility : Visibility := .pub
  isStatic : Bool := false
  isFinal : Bool := false
  /-- Shadowed by a field of the same name further down the hierarchy. -/
  hidden : Bool := false
  capabilities : CapabilitySet := {}
  deriving Inhabited

structure MethodModel where
  name : String := ""
  declaringType : String := ""
  visibility : Visibility := .pub
  isStatic : Bool := false
  isFinal : Bool := false
  isAbstract : Bool := false
  parameters : List ParameterModel := []
  returnType : Option String := none
  capabilities : CapabilitySet := {}
  deriving Inhabited

/-- A logical property: a backing field, a reader without parameters and a writer with one, each by
name and each optional. -/
structure PropertyModel where
  name : String := ""
  typeName : String := ""
  field : Option String := none
  readMethod : Option String := none
  writeMethod : Option String := none
  capabilities : CapabilitySet := {}
  deriving Inhabited

/-- A supertype whose markers matter. -/
structure SupertypeModel where
  name : String := ""
  capabilities : CapabilitySet := {}
  deriving Inhabited

/-- The class under analysis. -/
structure ClassModel where
  name : String := ""
  isFinal : Bool := false
  isAbstract : Bool := false
  dialect : Dialect := .standard
  capabilities : CapabilitySet := {}
  typeArguments : TypeArguments := .empty
  primaryConstructor : Option ConstructorModel := none
  fields : List FieldModel := []
  methods : List MethodModel := []
  properties : List PropertyModel := []
  supertypes : List SupertypeModel := []
  deriving Inhabited

/-- Classes that come together, with the stereotypes they rely on. -/
structure ClassBatch where
  stereotypes : StereotypeDefinitions := .empty
  classes : List ClassModel := []
  deriving Inhabited

/-- The part of a qualified name before its last dot, empty without one. -/
def packageOf (typeName : String) : String :=
  match typeName.toList.reverse.dropWhile (· ≠ '.') with
  | [] => ""
  | _ :: rest => .ofList rest.reverse

/-- The part of a qualified name after its last dot. -/
def simpleNameOf (typeName : String) : String :=
  .ofList (typeName.toList.reverse.takeWhile (· ≠ '.')).reverse

/-- The name and the parameter types of a method. -/
def MethodModel.signature (m : MethodModel) : String :=
  m.name ++ "(" ++ ", ".intercalate (m.parameters.map (·.typeName)) ++ ")"

/-- What fields and methods have in common. -/
structure Member where
  name : String
  declaringType : String
  visibility : Visibility
  isStatic : Bool
  isFinal : Bool
  capabilities : CapabilitySet
  /-- The declaring type and, after a hash, what tells the member within it. -/
  description : String

/-- A field as a member, told by its name. -/
def FieldModel.member (f : FieldModel) : Member where
  name := f.name
  declaringType := f.declaringType
  visibility := f.visibility
  isStatic := f.isStatic
  isFinal := f.isFinal
  capabilities := f.capabilities
  description := f.declaringType ++ "#" ++ f.name

/-- A method as a member, told by its signature. -/
def MethodModel.member (m : MethodModel) : Member where
  name := m.name
  declaringType := m.declaringType
  visibility := m.visibility
  isStatic := m.isStatic
  isFinal := m.isFinal
  capabilities := m.capabilities
  description := m.declaringType ++ "#" ++ m.signature

/-- Whether code generated next to `c` can reach a member directly. -/
def Member.isAccessibleFrom (m : Member) (c : ClassModel) : Bool :=
  match m.visibility with
  | .pub => true
  | .priv => false
  | .prot | .pkg => packageOf m.declaringType == packageOf c.name

/-- Whether only reflection reaches a member from next to `c`. -/
def Member.requiresReflection (m : Member) (c : ClassModel) : Bool := !m.isAccessibleFrom c

def Member.isDeclaredOn (m : Member) (c : ClassModel) : Bool := m.declaringType == c.name

end Wiring
