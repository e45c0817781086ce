import Wiring.Classify.Strategy
import Wiring.Json.Codec

/-!
# The JSON form of class models

Names, kinds and defaults of the members of a class file.
-/

namespace Wiring

open Json (Codec RecordField)

/-- The closure of a set is not part of its form. -/
def CapabilitySet.codec : Codec CapabilitySet :=
  .record "CapabilitySet" {} [
    .unlessBlank "declared" (.map (.map .value)) (·.isEmpty) (·.declared)
      fun x c => { c with declared := x },
    .unlessBlank "inherited" (.map (.map .value)) (·.isEmpty) (·.inherited)
      fun x c => { c with inherited := x }]

/-- A capability set that is left out when it is empty. -/
def capabilitiesField {σ : Type} (get : σ → CapabilitySet) (set : CapabilitySet → σ → σ) :
    RecordField σ :=
  .unlessBlank "capabilities" CapabilitySet.codec (·.isEmpty) get set

def Visibility.name : Visibility → String
  | .pub => "public"
  | .prot => "protected"
  | .pkg => "package_private"
  | .priv => "private"

def Visibility.codec : Codec Visibility := .cases name [.pub, .prot, .pkg, .priv]

def Dialect.name : Dialect → String
  | .standard => "standard"
  | .dynamic => "dynamic"

def Dialect.codec : Codec Dialect := .cases name [.standard, .dynamic]

def Mode.codec : Codec Mode := .cases name all

def ParameterModel.codec : Codec ParameterModel :=
  .record "ParameterModel" {} [
    .required "name" .string (·.name) fun x p => { p with name := x },
    .required "type_name" .string (·.typeName) fun x p => { p with typeName := x },
    capabilitiesField (·.capabilities) fun x p => { p with capabilities := x }]

def ConstructorModel.codec : Codec ConstructorModel :=
  .record "ConstructorModel" {} [
    .defaulted "visibility" Visibility.codec (·.visibility) fun x k => { k with visibility := x },
    .defaulted "parameters" (.list ParameterModel.codec) (·.parameters)
      fun x k => { k with parameters := x },
    capabilitiesField (·.capabilities) fun x k => { k with capabilities := x }]

def FieldModel.codec : Codec FieldModel :=
  .record "FieldModel" {} [
    .required "name" .string (·.name) fun x f => { f with name := x },
    .required "type_name" .string (·.typeName) fun x f => { f with typeName := x },
    .required "declaring_type" .string (·.declaringType) fun x f => { f with declaringType := x },
    .defaulted "visibility" Visibility.codec (·.visibility) fun x f => { f with visibility := x },
    .defaulted "is_static" .boolean (·.isStatic) fun x f => { f with isStatic := x },
    .defaulted "is_final" .boolean (·.isFinal) fun x f => { f with isFinal := x },
    .defaulted "hidden" .boolean (·.hidden) fun x f => { f with hidden := x },
    capabilitiesField (·.capabilities) fun x f => { f with capabilities := x }]

def MethodModel.codec : Codec MethodModel :=
  .record "MethodModel" {} [
    .required "name" .string (·.name) fun x m => { m with name := x },
    .required "declaring_type" .string (·.declaringType) fun x m => { m with declaringType := x },
    .defaulted "visibility" Visibility.codec (·.visibility) fun x m => { m with visibility := x },
    .defaulted "is_static" .boolean (·.isStatic) fun x m => { m with isStatic := x },
    .defaulted "is_final" .boolean (·.isFinal) fun x m => { m with isFinal := x },
    .defaulted "is_abstract" .boolean (·.isAbstract) fun x m => { m with isAbstract := x },
    .defaulted "parameters" (.list ParameterModel.codec) (·.parameters)
      fun x m => { m with parameters := x },
    .optional "return_type" .string (·.returnType) fun x m => { m with returnType := x },
    capabilitiesField (·.capabilities) fun x m => { m with capabilities := x }]

def PropertyModel.codec : Codec PropertyModel :=
  .record "PropertyModel" {} [
    .required "name" .string (·.name) fun x p => { p with name := x },
    .required "type_name" .string (·.typeName) fun x p => { p with typeName := x },
    .optional "field" .string (·.field) fun x p => { p with field := x },
    .optional "read_method" .string (·.readMethod) fun x p => { p with readMethod := x },
    .optional "write_method" .string (·.writeMethod) fun x p => { p with writeMethod := x },
    capabilitiesField (·.capabilities) fun x p => { p with capabilities := x }]

def SupertypeModel.codec : Codec SupertypeModel :=
  .record "SupertypeModel" {} [
    .required "name" .string (·.name) fun x s => { s with name := x },
    capabilitiesField (·.capabilities) fun x s => { s with capabilities := x }]

def typeArgumentsCodec : Codec TypeArguments := .map (.map .string)

def ClassModel.codec : Codec ClassModel :=
  .record "ClassModel" {} [
    .required "name" .string (·.name) fun x c => { c with name := x },
    .defaulted "is_final" .boolean (·.isFinal) fun x c => { c with isFinal := x },
    .defaulted "is_abstract" .boolean (·.isAbstract) fun x c => { c with isAbstract := x },
    .defaulted "dialect" Dialect.codec (·.dialect) fun x c => { c with dialect := x },
    capabilitiesField (·.capabilities) fun x c => { c with capabilities := x },
    .unlessBlank "type_arguments" typeArgumentsCodec (·.isEmpty) (·.typeArguments)
      fun x c => { c with typeArguments := x },
    .optional "primary_constructor" ConstructorModel.codec (·.primaryConstructor)
      fun x c => { c with primaryConstructor := x },
    .defaulted "fields" (.list FieldModel.codec) (·.fields) fun x c => { c with fields := x },
    .defaulted "methods" (.list MethodModel.codec) (·.methods) fun x c => { c with methods := x },
    .defaulted "properties" (.list PropertyModel.codec) (·.properties)
      fun x c => { c with properties := x },
    .defaulted "supertypes" (.list SupertypeModel.codec) (·.supertypes)
      fun x c => { c with supertypes := x }]

def StereotypeDefinitions.codec : Codec StereotypeDefinitions := .map (.list .string)

def ClassBatch.codec : Codec ClassBatch :=
  .record "ClassBatch" {} [
    .unlessBlank "stereotypes" StereotypeDefinitions.codec (·.isEmpty) (·.stereotypes)
      fun x b => { b with stereotypes := x },
    .defaulted "classes" (.list ClassModel.codec) (·.classes) fun x b => { b with classes := x }]

end Wiring
