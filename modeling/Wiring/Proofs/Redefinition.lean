import Wiring.Proofs.Closure
import Wiring.Proofs.Course

/-!
# Registries that carry the same

A registry is asked in three ways: markers are expanded when a set is resolved, expanded again when a derived
marker is added, and asked one by one for advice. All three come down to what the registry carries, so of
registries that carry the same, however they are defined, either can be used for a build
(`build_eq_of_carries`). Definitions that follow from others can be added or left out (`carries_eq_of_given`).
-/

namespace Wiring

/-! ## Definitions that follow from others -/

namespace Registry

/-- The definitions `ds` follow from the definitions `es`. -/
def Follows (ds es : List StereotypeDefinitions) : Prop :=
  ∀ a b, Given ds a b → Relation.ReflTransGen (Given es) a b

variable {d e : StereotypeDefinitions} {ds es : List StereotypeDefinitions}

theorem Follows.reflTransGen (h : Follows ds es) {a b : String}
    (hab : Relation.ReflTransGen (Given ds) a b) : Relation.ReflTransGen (Given es) a b := by
  induction hab with
  | refl => exact .refl
  | tail _ hbc ih => exact ih.trans (h _ _ hbc)

/-- Whether definitions follow is seen by looking up each in the registry of the others. -/
theorem follows_iff : Follows ds (e :: es) ↔
    ∀ d ∈ ds, ∀ x ∈ d.entries, ∀ b ∈ x.2, (es.foldl extend (new e)).Carries x.1 b := by
  simp only [carries_given]
  constructor
  · intro h d hd x hx b hb
    exact h x.1 b ⟨d, hd, x.2, hx, hb⟩
  · rintro h a b ⟨d, hd, l, hl, hb⟩
    exact h d hd (a, l) hl b hb

instance : Decidable (Follows ds (e :: es)) := decidable_of_iff _ follows_iff.symm

/-- Registries carry the same if what one is given follows from what the other is given. -/
theorem carries_eq_of_given (h : Follows (d :: ds) (e :: es)) (h' : Follows (e :: es) (d :: ds))
    (a b : String) :
    (ds.foldl extend (new d)).carries a b = (es.foldl extend (new e)).carries a b := by
  rw [Bool.eq_iff_iff, carries_iff, carries_iff, carries_given, carries_given]
  exact ⟨h.reflTransGen, h'.reflTransGen⟩

end Registry

/-! ## What asks a registry -/

section Congruence

variable {r₁ r₂ : Registry} (h : ∀ a b, r₁.carries a b = r₂.carries a b)

include h

theorem Registry.expand_congr (names : List String) : r₁.expand names = r₂.expand names := by
  refine StringSet.ext_mem fun t => ?_
  simp only [mem_expand, ← carries_iff, h]

theorem CapabilitySet.resolve_congr (c : CapabilitySet) : c.resolve r₁ = c.resolve r₂ := by
  simp only [resolve, Registry.expand_congr h]

theorem CapabilitySet.addDerived_congr (c : CapabilitySet) (marker : String) :
    c.addDerived marker r₁ = c.addDerived marker r₂ := resolve_congr h _

theorem ClassModel.resolve_congr (c : ClassModel) : c.resolve r₁ = c.resolve r₂ := by
  simp only [resolve, CapabilitySet.resolve_congr h]

theorem MethodModel.deriveValidated_congr (m : MethodModel) :
    m.deriveValidated r₁ = m.deriveValidated r₂ := by
  simp only [deriveValidated, CapabilitySet.addDerived_congr h]

theorem ClassModel.deriveValidated_congr (c : ClassModel) (i : Nat) :
    c.deriveValidated r₁ i = c.deriveValidated r₂ i := by
  simp only [deriveValidated, MethodModel.deriveValidated_congr h]

theorem ClassModel.validateAccessors_congr (c : ClassModel) (x : PropertyModel) :
    c.validateAccessors r₁ x = c.validateAccessors r₂ x := by
  simp only [validateAccessors, CapabilitySet.addDerived_congr h]

theorem interceptorBindings_congr (c : ClassModel) (m : MethodModel) :
    interceptorBindings r₁ c m = interceptorBindings r₂ c m := by
  simp only [interceptorBindings, h]

/-! ## The pass -/

namespace Pass

variable (s : Setting) (p : Pass)

theorem register_congr (m : MethodModel) (v : Verdict) :
    p.register { s with registry := r₁ } m v = p.register { s with registry := r₂ } m v := by
  cases v with
  | interception => simp only [register, interceptorBindings_congr h]
  | _ => rfl

theorem visitMethod_congr (m : MethodModel) :
    p.visitMethod { s with registry := r₁ } m = p.visitMethod { s with registry := r₂ } m := by
  simp only [visitMethod, register_congr h]

theorem visitProperty_congr (x : PropertyModel) :
    p.visitProperty { s with registry := r₁ } x = p.visitProperty { s with registry := r₂ } x := by
  simp only [visitProperty, ClassModel.validateAccessors_congr h]

theorem visit_congr (slot : MemberSlot) :
    visit { s with registry := r₁ } p slot = visit { s with registry := r₂ } p slot := by
  cases slot with
  | field i => rfl
  | method i => simp only [visit, ClassModel.deriveValidated_congr h, visitMethod_congr h]

theorem run_congr : p.run { s with registry := r₁ } = p.run { s with registry := r₂ } := by
  have hproperty : ∀ (p : Pass) (x : PropertyModel), p.visitProperty { s with registry := r₁ } x =
      p.visitProperty { s with registry := r₂ } x := fun p x => visitProperty_congr h s p x
  have hvisit : visit { s with registry := r₁ } = visit { s with registry := r₂ } :=
    funext fun p => funext fun slot => visit_congr h s p slot
  rw [run_eq, run_eq, hvisit]
  simp only [readProperties, hproperty]
  rfl

end Pass

/-- Under registries that carry the same, a build comes to the same and leaves the class behind alike, whatever
the strategy and the weaver. -/
theorem build_eq_of_carries (s : Setting) (c : ClassModel) :
    build { s with registry := r₁ } c = build { s with registry := r₂ } c := by
  unfold build
  rw [ClassModel.resolve_congr h c, Pass.run_congr h]

end Congruence

theorem build_eq_of_carries_restated :
    let own := StringMap.ofList [("Timed", ["Monitored"])]
    let extra := StringMap.ofList [("Monitored", ["Around"])]
    let full := StringMap.ofList [("Monitored", ["Around"]), ("Noted", []),
      ("Timed", ["Around", "Monitored"])]
    let r₁ := (Registry.new own).extend extra
    let r₂ := (Registry.new full).extend own
    let save : MethodModel :=
      { name := "save", declaringType := "app.Service"
        capabilities := CapabilitySet.empty.withDeclared "Timed" }
    let c : ClassModel := { name := "app.Service", methods := [save] }
    r₁ ≠ r₂ ∧ (∀ a b, r₁.carries a b = r₂.carries a b) ∧
      build { registry := r₁ } c = build { registry := r₂ } c ∧
      ((build { registry := r₁ } c).result.toOption.bind (·.proxy)).map
        (·.aroundMethods.map (·.bindings)) = some [["Timed"]] := by
  intro own extra full r₁ r₂ save c
  have hown : Registry.Follows [own, extra] [full, own] := by decide +kernel
  have hfull : Registry.Follows [full, own] [own, extra] := by decide +kernel
  have h := Registry.carries_eq_of_given hown hfull
  exact ⟨by decide, h, build_eq_of_carries h {} c, by decide +kernel⟩

end Wiring
