import Wiring.Classify.Pass
import Wiring.Proofs.Reachability

/-!
# What a pass changes of a class

A pass resolves the capability sets of a class and marks some methods as validated. Without its
capability sets the class stays the same (`bare`), so members are enumerated alike throughout.
-/

namespace Wiring

/-! ## Models without capability sets -/

def ParameterModel.bare (p : ParameterModel) : ParameterModel := { p with capabilities := .empty }

def ConstructorModel.bare (k : ConstructorModel) : ConstructorModel :=
  { k with capabilities := .empty, parameters := k.parameters.map .bare }

def FieldModel.bare (f : FieldModel) : FieldModel := { f with capabilities := .empty }

def MethodModel.bare (m : MethodModel) : MethodModel :=
  { m with capabilities := .empty, parameters := m.parameters.map .bare }

def PropertyModel.bare (p : PropertyModel) : PropertyModel := { p with capabilities := .empty }

def SupertypeModel.bare (s : SupertypeModel) : SupertypeModel := { s with capabilities := .empty }

theorem MethodModel.signature_bare (m : MethodModel) : m.bare.signature = m.signature := by
  simp [signature, bare, ParameterModel.bare, Function.comp_def]

theorem MethodModel.description_of_bare {m m' : MethodModel} (h : m'.bare = m.bare) :
    m'.member.description = m.member.description := by
  have hm (m : MethodModel) : m.member.description = m.bare.member.description := by
    simp only [member, signature_bare]
    rfl
  rw [hm, h, ← hm]

/-- The class with every capability set emptied. -/
def ClassModel.bare (c : ClassModel) : ClassModel :=
  { c with
    capabilities := .empty
    primaryConstructor := c.primaryConstructor.map .bare
    fields := c.fields.map .bare
    methods := c.methods.map .bare
    properties := c.properties.map .bare
    supertypes := c.supertypes.map .bare }

/-! ## Marks on methods -/

/-- Marks a method as validated, whether or not it requires validation. -/
def MethodModel.markValidated (r : Registry) (m : MethodModel) : MethodModel :=
  { m with capabilities := m.capabilities.addDerived Marker.validated r }

namespace MethodModel

variable (r : Registry) (m : MethodModel)

@[simp] theorem bare_markValidated : (m.markValidated r).bare = m.bare := rfl

@[simp] theorem bare_deriveValidated : (m.deriveValidated r).bare = m.bare := by
  unfold deriveValidated
  split <;> rfl

@[simp] theorem markValidated_markValidated :
    (m.markValidated r).markValidated r = m.markValidated r := by
  simp [markValidated, CapabilitySet.addDerived_addDerived]

@[simp] theorem deriveValidated_deriveValidated :
    (m.deriveValidated r).deriveValidated r = m.deriveValidated r := by
  by_cases h : m.capabilities.hasStereotype Marker.requiresValidation &&
      !m.capabilities.hasDeclaredMarker Marker.validated
  · -- The mark is there after the first time.
    have hm : m.deriveValidated r = m.markValidated r := if_pos h
    rw [hm, deriveValidated, if_neg]
    simp [markValidated, CapabilitySet.hasDeclaredMarker, CapabilitySet.addDerived,
      CapabilitySet.resolve, CapabilitySet.mark]
  · have hm : m.deriveValidated r = m := if_neg h
    rw [hm, hm]

end MethodModel

namespace ClassModel

/-- The class with the methods at some positions changed. -/
def modifyMethods (c : ClassModel) (f : MethodModel → MethodModel) (is : List Nat) : ClassModel :=
  { c with methods := is.foldl (fun ms i => ms.modify i f) c.methods }

variable {c : ClassModel} {f : MethodModel → MethodModel}

theorem modifyMethods_append (is js : List Nat) :
    c.modifyMethods f (is ++ js) = (c.modifyMethods f is).modifyMethods f js := by
  simp [modifyMethods]

theorem getElem?_modifyMethods (hf : ∀ m, f (f m) = f m) (is : List Nat) (i : Nat) :
    (c.modifyMethods f is).methods[i]? = c.methods[i]?.map fun m => if i ∈ is then f m else m := by
  induction is generalizing c with
  | nil => simp [modifyMethods]
  | cons j js ih =>
      have hcons : c.modifyMethods f (j :: js) = (c.modifyMethods f [j]).modifyMethods f js := rfl
      rw [hcons, ih]
      simp only [modifyMethods, List.foldl_cons, List.foldl_nil, List.getElem?_modify,
        Option.map_eq_map, Option.map_map]
      congr 1
      funext m
      by_cases hij : j = i
      · subst hij
        by_cases hj : j ∈ js <;> simp [hj, hf]
      · simp [hij, Ne.symm hij]

theorem bare_modifyMethods (hf : ∀ m, (f m).bare = m.bare) (is : List Nat) :
    (c.modifyMethods f is).bare = c.bare := by
  have hmap : ∀ ms : List MethodModel,
      (is.foldl (fun ms i => ms.modify i f) ms).map MethodModel.bare = ms.map MethodModel.bare := by
    induction is with
    | nil => intro ms; rfl
    | cons j js ih =>
        intro ms
        rw [List.foldl_cons, ih]
        apply List.ext_getElem?
        intro i
        by_cases hij : j = i
        · subst hij; simp [Function.comp_def, hf]
        · simp [hij]
  simp [bare, modifyMethods, hmap]

/-! ## Enumeration looks at bare models -/

theorem bare_resolve (r : Registry) : (c.resolve r).bare = c.bare := by
  have hk : (ConstructorModel.bare ∘ fun k : ConstructorModel =>
      { k with
        capabilities := k.capabilities.resolve r
        parameters := k.parameters.map fun p =>
          { p with capabilities := p.capabilities.resolve r } }) = ConstructorModel.bare := by
    funext k
    simp [ConstructorModel.bare, ParameterModel.bare, Function.comp_def]
  simp [bare, resolve, hk, Function.comp_def, FieldModel.bare, MethodModel.bare,
    PropertyModel.bare, SupertypeModel.bare, ParameterModel.bare]

variable (c)

theorem fieldIndex?_bare (name : String) : c.bare.fieldIndex? name = c.fieldIndex? name := by
  simp [fieldIndex?, bare, FieldModel.bare, Function.comp_def]

theorem methodIndex?_bare (name : String) (n : Nat) :
    c.bare.methodIndex? name n = c.methodIndex? name n := by
  simp [methodIndex?, bare, MethodModel.bare, Function.comp_def]

theorem readerIndex?_bare (p : PropertyModel) : c.bare.readerIndex? p.bare = c.readerIndex? p := by
  simp [readerIndex?, PropertyModel.bare, methodIndex?_bare]

theorem writerIndex?_bare (p : PropertyModel) : c.bare.writerIndex? p.bare = c.writerIndex? p := by
  simp [writerIndex?, PropertyModel.bare, methodIndex?_bare]

theorem backingIndex?_bare (p : PropertyModel) :
    c.bare.backingIndex? p.bare = c.backingIndex? p := by
  simp [backingIndex?, PropertyModel.bare, funext (fieldIndex?_bare c)]

theorem propertyFields_bare : c.bare.propertyFields = c.propertyFields := by
  have h : c.bare.properties = c.properties.map .bare := rfl
  simp only [propertyFields, h, List.filterMap_map, Function.comp_def, backingIndex?_bare]

theorem propertyMethods_bare : c.bare.propertyMethods = c.propertyMethods := by
  have h : c.bare.properties = c.properties.map .bare := rfl
  simp [propertyMethods, h, List.flatMap_map, readerIndex?_bare, writerIndex?_bare]

theorem fieldIndices_bare (q : ElementQuery) : c.bare.fieldIndices q = c.fieldIndices q := by
  have h : c.bare.fields = c.fields.map .bare := rfl
  simp [fieldIndices, h, propertyFields_bare, List.zipIdx_map, List.filter_map, Function.comp_def]
  rfl

theorem methodIndices_bare (q : ElementQuery) : c.bare.methodIndices q = c.methodIndices q := by
  have h : c.bare.methods = c.methods.map .bare := rfl
  simp [methodIndices, h, propertyMethods_bare, List.zipIdx_map, List.filter_map, Function.comp_def]
  rfl

theorem order_bare (fields methods : List Nat) :
    c.bare.order fields methods = c.order fields methods := by
  have hf : c.bare.declaresField = c.declaresField := by
    funext i
    cases h : c.fields[i]? <;> simp [declaresField, bare, h, FieldModel.bare]
  have hm : c.bare.declaresMethod = c.declaresMethod := by
    funext i
    cases h : c.methods[i]? <;> simp [declaresMethod, bare, h, MethodModel.bare]
  simp [order, hf, hm]

theorem slots_bare (s : Strategy) : Pass.slots s c.bare = Pass.slots s c := by
  simp [Pass.slots, order_bare, fieldIndices_bare, methodIndices_bare]

theorem slots_eq_of_bare {c c' : ClassModel} (h : c'.bare = c.bare) (s : Strategy) :
    Pass.slots s c' = Pass.slots s c := by
  rw [← slots_bare, h, slots_bare]

end ClassModel

end Wiring
