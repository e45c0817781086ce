import Wiring.Proofs.Statics

/-!
# Executable methods

Executable methods are called without reflection. One that is exposed is accessible from the class unless
dynamic classes are given more; about one that is adapted this is asked only if it is static, so that a
private method may be listed (`build_exposes`).
-/

namespace Wiring

section Judged

variable {s : Strategy} {r : Registry} {c : ClassModel} {m : MethodModel} {j : Judgement}

theorem accessible_of_exposed (hl : s.legacyDialectAccess = false)
    (h : judgeExposure s (c.resolve r) (m.resolve r) = .ok true) :
    m.member.isAccessibleFrom c = true := by
  have haccessible : (m.resolve r).member.isAccessibleFrom (c.resolve r) =
      m.member.isAccessibleFrom c := rfl
  simp only [judgeExposure, hl, Bool.false_and, Bool.or_false, haccessible] at h
  split_ifs at h with hx hown ha hv
  · cases h
  · exact ha
  · cases h
  · exact Except.ok.inj h

/-- Without legacy access a method is exposed only if it is accessible. It is adapted only if it carries an
adapter, and accessibility counts then for static methods alone. -/
theorem reached_of_judged (hl : s.legacyDialectAccess = false)
    (h : judgeMethod s (c.resolve r) (m.resolve r) = .ok j) :
    (j.verdict = .exposure → m.member.isAccessibleFrom c = true) ∧
      (j.verdict = .adaptation → m.capabilities.Carries r Marker.adapter ∧
        (m.isStatic = true → m.member.isAccessibleFrom c = true)) := by
  simp only [judgeMethod, isCallback_resolve, injected_resolve, unlisted_resolve,
    hasStereotype_resolve] at h
  split_ifs at h with hm hi hu had
  · obtain ⟨_, _, h⟩ := bind_eq_ok.1 h
    cases h
    simp
  · cases h
    simp
  · cases h
    simp
  · obtain ⟨_, hc, h⟩ := bind_eq_ok.1 h
    cases h
    refine ⟨by simp, fun _ => ⟨had, fun hs => ?_⟩⟩
    have hlisted := checkStatic_eq_ok.1 hc hs
    exact hlisted.2
  · obtain ⟨b, _, h⟩ := bind_eq_ok.1 h
    cases b with
    | true =>
        cases h
        simp
    | false =>
        obtain ⟨b, hexposure, h⟩ := bind_eq_ok.1 h
        cases b with
        | true =>
            cases h
            exact ⟨fun _ => accessible_of_exposed hl hexposure, by simp⟩
        | false =>
            cases h
            simp

end Judged

theorem Verdict.Becomes.eq_exposure {v : Verdict} (h : v.Becomes .executable) : v = .exposure := by
  cases h
  rfl

theorem Verdict.Becomes.eq_adaptation {v : Verdict} {i : Nat} (h : v.Becomes (.adapter i)) :
    v = .adaptation := by
  cases h
  rfl

variable {s : Setting} {c : ClassModel} {rs : List (PropertyModel × Disposition)}
  {es : List (Candidate × Disposition)} {p q : Pass} {set : PlanSet}

theorem MethodModel.isAccessibleFrom_validated (r : Registry) (m : MethodModel) :
    (m.validated r).member.isAccessibleFrom c = m.member.isAccessibleFrom c := by
  rw [m.validated_eq]
  rfl

theorem Course.reached (h : Course s c rs es p q) (hl : s.strategy.legacyDialectAccess = false)
    {m : MethodModel} {d : Disposition}
    (he : (.method ((m.resolve s.registry).deriveValidated s.registry), d) ∈ es) :
    (d = .executable → m.member.isAccessibleFrom c = true) ∧
      ∀ i, d = .adapter i → (m.validated s.registry).capabilities.Carries s.registry Marker.adapter ∧
        (m.isStatic = true → m.member.isAccessibleFrom c = true) := by
  obtain ⟨j, hj, hbecomes⟩ := h.decided he
  rw [deriveValidated_resolve] at hj
  obtain ⟨hexposure, hadaptation⟩ := reached_of_judged hl (judgeMethod_of_decideMethod hj)
  rw [m.isAccessibleFrom_validated] at hexposure hadaptation
  have hstatic : (m.validated s.registry).isStatic = m.isStatic := by
    rw [m.validated_eq]
  rw [hstatic] at hadaptation
  constructor
  · rintro rfl
    exact hexposure hbecomes.eq_exposure
  · rintro i rfl
    exact hadaptation hbecomes.eq_adaptation

/-! ## Builds -/

/-- The executable methods of the main plan are the methods that are exposed or adapted, in their order.
Without legacy access those that are exposed are accessible from the class, and so are the static ones among
those that are adapted. -/
theorem build_exposes (hh : s.strategy.handler = .noop ∨ s.strategy.handler = .configuration)
    (hw : s.weaver = .standard) (hl : s.strategy.legacyDialectAccess = false)
    (h : (build s c).result = .ok set) :
    ∃ rs es, set.Tells s.strategy c rs es ∧
      set.main.executableMethods = (methodsWith (·.isExecutable) es).map (.of · false) ∧
      ∀ ref ∈ set.main.executableMethods, ∃ m ∈ c.methods, ref = .of m false ∧
        ((.method m, .executable) ∈ es ∧ m.member.isAccessibleFrom c = true ∨
          ∃ i, (.method m, .adapter i) ∈ es ∧
            (m.validated s.registry).capabilities.Carries s.registry Marker.adapter ∧
            (m.isStatic = true → m.member.isAccessibleFrom c = true)) := by
  obtain ⟨rs, es, p, q, hcourse, rfl⟩ := build_ok h
  obtain ⟨xs, ys, htells, rfl, rfl⟩ := hcourse.tells
  obtain ⟨xs', ys', haccounts⟩ :=
    hcourse.accounts (PropertyHandler.plain_of_either hh) (hw ▸ Weaver.standard_plain)
  obtain ⟨rfl, rfl⟩ := htells.unique haccounts.toTells
  have hlisted : q.planSet.main.executableMethods =
      (methodsWith (·.isExecutable) ys').map (.of · false) :=
    congrArg Entries.executableMethods haccounts.main
  refine ⟨xs', ys', htells, hlisted, fun ref href => ?_⟩
  rw [hlisted] at href
  obtain ⟨m, hm, rfl⟩ := List.mem_map.1 href
  obtain ⟨d, he, hd⟩ := mem_methodsWith.1 hm
  have hmem : .method m ∈ ys'.map (·.1) := List.mem_map.2 ⟨_, he, rfl⟩
  rw [htells.candidates] at hmem
  obtain ⟨hexecutable, hadapter⟩ := hcourse.reached hl (List.mem_map.2 ⟨_, he, rfl⟩)
  refine ⟨m, ClassModel.mem_methods_of_candidates hmem, rfl, ?_⟩
  cases d with
  | executable => exact Or.inl ⟨he, hexecutable rfl⟩
  | adapter i => exact Or.inr ⟨i, he, hadapter i rfl⟩
  | _ => cases hd

theorem build_exposes_of_public_method :
    let m : MethodModel :=
      { name := "m", declaringType := "lib.Base"
        capabilities := CapabilitySet.empty.withDeclared Marker.executable }
    let c : ClassModel := { name := "app.Service", methods := [m] }
    ∃ set, (build {} c).result = .ok set ∧ set.main.executableMethods = [.of m false] ∧
      ∃ rs es, set.Tells {} c rs es ∧
        set.main.executableMethods = (methodsWith (·.isExecutable) es).map (.of · false) := by
  intro m c
  have hset : ∃ set, (build {} c).result = .ok set ∧ set.main.executableMethods = [.of m false] :=
    ⟨_, rfl, rfl⟩
  obtain ⟨set, h, hmethods⟩ := hset
  obtain ⟨rs, es, htells, hlisted, _⟩ := build_exposes (Or.inl rfl) rfl rfl h
  exact ⟨set, h, hmethods, rs, es, htells, hlisted⟩

/-- A private method that is adapted is listed as one to be called without reflection. -/
theorem adapted_private_method_is_listed :
    let m : MethodModel :=
      { name := "m", declaringType := "app.Service", visibility := .priv
        capabilities := CapabilitySet.empty.withDeclaredAttribute Marker.adapter Marker.adaptedType
          (.of (.str "app.Sink")) }
    let c : ClassModel := { name := "app.Service", methods := [m] }
    m.member.isAccessibleFrom c = false ∧
      ∃ set, (build {} c).result = .ok set ∧ set.main.executableMethods = [.of m false] := by
  exact ⟨rfl, _, rfl, rfl⟩

end Wiring
