import Wiring.Format.Class
import Wiring.Plan.Basic

/-!
# The JSON form of plans

Names, kinds and defaults of the members of plans and plan sets.
-/

namespace Wiring

open Json (Codec RecordField)

def PlanKind.codec : Codec PlanKind :=
  .tagged "PlanKind" [
    .constant "bean" .bean (· = .bean),
    .constant "proxy" .proxy (· = .proxy),
    .fields "adapter" "PlanKind::Adapter" 0
      [.required "index" .word32 id fun x _ => x]
      .adapter fun
        | .adapter index => some index
        | _ => none]

def MethodRef.codec : Codec MethodRef :=
  .record "MethodRef" {} [
    .required "declaring_type" .string (·.declaringType) fun x m => { m with declaringType := x },
    .required "name" .string (·.name) fun x m => { m with name := x },
    .required "signature" .string (·.signature) fun x m => { m with signature := x },
    .defaulted "requires_reflection" .boolean (·.requiresReflection)
      fun x m => { m with requiresReflection := x }]

def FieldRef.codec : Codec FieldRef :=
  .record "FieldRef" {} [
    .required "declaring_type" .string (·.declaringType) fun x f => { f with declaringType := x },
    .required "name" .string (·.name) fun x f => { f with name := x },
    .required "type_name" .string (·.typeName) fun x f => { f with typeName := x },
    .defaulted "requires_reflection" .boolean (·.requiresReflection)
      fun x f => { f with requiresReflection := x }]

/-- A list of names that is left out when it is empty. -/
def namesField {σ : Type} (key : String) (get : σ → List String) (set : List String → σ → σ) :
    RecordField σ :=
  .unlessBlank key (.list .string) (·.isEmpty) get set

def FieldValue.codec : Codec FieldValue :=
  .record "FieldValueBinding" {} [
    .required "field" FieldRef.codec (·.field) fun x v => { v with field := x },
    .required "optional" .boolean (·.optional) fun x v => { v with optional := x },
    namesField "markers" (·.markers) fun x v => { v with markers := x }]

def SetterValue.codec : Codec SetterValue :=
  .record "SetterValueBinding" {} [
    .required "property" .string (·.property) fun x v => { v with property := x },
    .required "setter" MethodRef.codec (·.setter) fun x v => { v with setter := x },
    .required "optional" .boolean (·.optional) fun x v => { v with optional := x }]

def ParameterRef.codec : Codec ParameterRef :=
  .record "ParameterRef" {} [
    .required "name" .string (·.name) fun x p => { p with name := x },
    .required "type_name" .string (·.typeName) fun x p => { p with typeName := x }]

def ConstructorBinding.codec : Codec ConstructorBinding :=
  .tagged "ConstructorBinding" [
    .fields "declared" "ConstructorBinding::Declared" ([], false)
      [.required "parameters" (.list ParameterRef.codec) (·.1) fun x k => (x, k.2),
        .required "requires_reflection" .boolean (·.2) fun x k => (k.1, x)]
      (fun k => .declared k.1 k.2) fun
        | .declared parameters reflection => some (parameters, reflection)
        | .default => none,
    .constant "default" .default (· = .default)]

def InterceptedMethod.codec : Codec InterceptedMethod :=
  .record "InterceptedMethod" {} [
    .required "method" MethodRef.codec (·.method) fun x m => { m with method := x },
    namesField "interceptor_bindings" (·.bindings) fun x m => { m with bindings := x }]

/-- A list of references that is left out when it is empty. -/
def refsField {σ α : Type} (key : String) (c : Codec α) (get : σ → List α)
    (set : List α → σ → σ) : RecordField σ :=
  .unlessBlank key (.list c) (·.isEmpty) get set

def Plan.codec : Codec Plan :=
  .record "BeanDefinitionPlan" { name := "", beanType := "", kind := .bean } [
    .required "name" .string (·.name) fun x p => { p with name := x },
    .required "bean_type" .string (·.beanType) fun x p => { p with beanType := x },
    .required "kind" PlanKind.codec (·.kind) fun x p => { p with kind := x },
    .unlessBlank "type_arguments" typeArgumentsCodec (·.isEmpty) (·.typeArguments)
      fun x p => { p with typeArguments := x },
    namesField "markers" (·.markers) fun x p => { p with markers := x },
    .optional "constructor" ConstructorBinding.codec (·.constructor)
      fun x p => { p with constructor := x },
    .optional "super_bean" .string (·.superBean) fun x p => { p with superBean := x },
    .optional "adapted_method" MethodRef.codec (·.adaptedMethod)
      fun x p => { p with adaptedMethod := x },
    .optional "adapted_type" .string (·.adaptedType) fun x p => { p with adaptedType := x },
    refsField "post_construct_methods" MethodRef.codec (·.postConstructMethods)
      fun x p => { p with postConstructMethods := x },
    refsField "pre_destroy_methods" MethodRef.codec (·.preDestroyMethods)
      fun x p => { p with preDestroyMethods := x },
    refsField "method_injection_points" MethodRef.codec (·.methodInjectionPoints)
      fun x p => { p with methodInjectionPoints := x },
    refsField "field_injection_points" FieldRef.codec (·.fieldInjectionPoints)
      fun x p => { p with fieldInjectionPoints := x },
    refsField "field_values" FieldValue.codec (·.fieldValues)
      fun x p => { p with fieldValues := x },
    refsField "setter_values" SetterValue.codec (·.setterValues)
      fun x p => { p with setterValues := x },
    refsField "executable_methods" MethodRef.codec (·.executableMethods)
      fun x p => { p with executableMethods := x },
    refsField "around_methods" InterceptedMethod.codec (·.aroundMethods)
      fun x p => { p with aroundMethods := x },
    .defaulted "requires_method_processing" .boolean (·.requiresMethodProcessing)
      fun x p => { p with requiresMethodProcessing := x },
    .unlessBlank "originating_elements" .stringSet (·.isEmpty) (·.originatingElements)
      fun x p => { p with originatingElements := x }]

def MemberKind.name : MemberKind → String
  | .field => "field"
  | .method => "method"
  | .property => "property"

def MemberKind.codec : Codec MemberKind := .cases name [.field, .method, .property]

def Disposition.codec : Codec Disposition :=
  .tagged "Disposition" [
    .constant "unclaimed" .unclaimed (· = .unclaimed),
    .constant "field_value" .fieldValue (· = .fieldValue),
    .constant "field_injection" .fieldInjection (· = .fieldInjection),
    .fields "lifecycle" "Disposition::Lifecycle" (false, false)
      [.required "post_construct" .boolean (·.1) fun x d => (x, d.2),
        .required "pre_destroy" .boolean (·.2) fun x d => (d.1, x)]
      (fun d => .lifecycle d.1 d.2) fun
        | .lifecycle post pre => some (post, pre)
        | _ => none,
    .constant "method_injection" .methodInjection (· = .methodInjection),
    .fields "adapter" "Disposition::Adapter" 0
      [.required "index" .word32 id fun x _ => x]
      .adapter fun
        | .adapter index => some index
        | _ => none,
    .constant "adapter_declined" .adapterDeclined (· = .adapterDeclined),
    .constant "intercepted" .intercepted (· = .intercepted),
    .constant "executable" .executable (· = .executable),
    .constant "property" .property (· = .property)]

def MemberDisposition.codec : Codec MemberDisposition :=
  .record "MemberDisposition" ⟨.field, "", .unclaimed⟩ [
    .required "kind" MemberKind.codec (·.kind) fun x d => { d with kind := x },
    .required "member" .string (·.member) fun x d => { d with member := x },
    .required "disposition" Disposition.codec (·.disposition)
      fun x d => { d with disposition := x }]

def PlanSet.codec : Codec PlanSet :=
  .record "PlanSet" { className := "", main := { name := "", beanType := "", kind := .bean } } [
    .required "class_name" .string (·.className) fun x s => { s with className := x },
    .required "main" Plan.codec (·.main) fun x s => { s with main := x },
    .optional "proxy" Plan.codec (·.proxy) fun x s => { s with proxy := x },
    refsField "adapters" Plan.codec (·.adapters) fun x s => { s with adapters := x },
    .defaulted "dispositions" (.list MemberDisposition.codec) (·.dispositions)
      fun x s => { s with dispositions := x }]

end Wiring
