import Wiring.Proofs.Weaving

/-!
# Static and final members

A static method is claimed only if it says itself that it is executable and if it is reachable without
reflection, and then it is neither injected nor intercepted. No value is given to a static writer, and
static or final fields are left alone (`build_spares`).
-/

namespace Wiring

/-- The method says itself that it is executable, and no reflection is needed to reach it. -/
def MethodModel.IsListed (c : ClassModel) (m : MethodModel) : Prop :=
  m.isExplicitlyExecutable = true ∧ m.member.isAccessibleFrom c = true

/-! ## What is judged -/

theorem checkStatic_eq_ok {c : ClassModel} {m : MethodModel} :
    checkStatic c m = .ok () ↔ (m.isStatic = true → m.IsListed c) := by
  unfold checkStatic MethodModel.IsListed
  cases m.isStatic <;> cases m.isExplicitlyExecutable <;> cases m.member.isAccessibleFrom c <;> simp

theorem MethodModel.carries_executable {m : MethodModel} (r : Registry)
    (h : m.isExplicitlyExecutable = true) : m.capabilities.Carries r Marker.executable :=
  ⟨Marker.executable, List.mem_append_left _ (StringMap.mem_keys.2 h), .refl _⟩

theorem MethodModel.isExplicitlyExecutable_validated (r : Registry) (m : MethodModel) :
    (m.validated r).isExplicitlyExecutable = m.isExplicitlyExecutable := by
  unfold validated
  split
  · have hne : (Marker.executable == Marker.validated) = false := by decide
    simp [isExplicitlyExecutable, CapabilitySet.hasDeclaredMarker, CapabilitySet.withDeclared,
      CapabilitySet.mark, hne]
  · rfl

section Judged

variable {s : Strategy} {r : Registry} {c : ClassModel} {m : MethodModel} {j : Judgement}

theorem accessible_of_exposure (hx : m.capabilities.Carries r Marker.executable) {b : Bool}
    (h : judgeExposure s (c.resolve r) (m.resolve r) = .ok b) : m.member.isAccessibleFrom c = true := by
  refine eq_true_of_ne_false fun ha => ?_
  rw [judgeExposure_eq_error.2 ⟨hx, ha, rfl⟩] at h
  cases h

/-- Advice that applies to a static method is a violation. -/
theorem judgeAdvice_ne_true (hs : m.isStatic = true) :
    judgeAdvice s (c.resolve r) (m.resolve r) ≠ .ok true := by
  intro h
  rw [judgeAdvice_resolve] at h
  split_ifs at h <;> cases h

/-- A static method that is not left alone is listed, and it is neither injected nor intercepted. -/
theorem listed_of_judged (h : judgeMethod s (c.resolve r) (m.resolve r) = .ok j)
    (hs : m.isStatic = true) (hv : j.verdict ≠ .unclaimed) :
    m.IsListed c ∧ j.verdict ≠ .injection ∧ j.verdict ≠ .interception := by
  have hchecked (hc : checkStatic (c.resolve r) (m.resolve r) = .ok ()) : m.IsListed c := by
    have hlisted := checkStatic_eq_ok.1 hc hs
    exact hlisted
  simp only [judgeMethod, isCallback_resolve, injected_resolve, unlisted_resolve,
    hasStereotype_resolve] at h
  split_ifs at h with hm hi hu had
  · obtain ⟨_, hc, h⟩ := bind_eq_ok.1 h
    cases h
    exact ⟨hchecked hc, by simp, by simp⟩
  · exact absurd (hs.symm.trans hi.1) (by decide)
  · cases h
    exact absurd rfl hv
  · obtain ⟨_, hc, h⟩ := bind_eq_ok.1 h
    cases h
    exact ⟨hchecked hc, by simp, by simp⟩
  · -- Here a static method is not checked as such; advice and exposure each reject it on their own.
    have hx : m.isExplicitlyExecutable = true := eq_true_of_ne_false fun hx => hu ⟨hs, hx⟩
    obtain ⟨b, hadvice, h⟩ := bind_eq_ok.1 h
    cases b with
    | true => exact absurd hadvice (judgeAdvice_ne_true hs)
    | false =>
        obtain ⟨b, hexposure, h⟩ := bind_eq_ok.1 h
        have ha := accessible_of_exposure (m.carries_executable r hx) hexposure
        cases b with
        | true =>
            cases h
            exact ⟨⟨hx, ha⟩, by simp, by simp⟩
        | false =>
            cases h
            exact absurd rfl hv

end Judged

theorem judgeField_of_fixed {f : FieldModel} (h : f.isStatic = true ∨ f.isFinal = true) :
    judgeField f = .unclaimed :=
  if_pos (by simpa using h)

/-! ## What is spared -/

/-- Static and final members are wired only where they say so. -/
structure PlanSet.Spares (set : PlanSet) (s : Setting) (c : ClassModel)
    (rs : List (PropertyModel × Disposition)) (es : List (Candidate × Disposition)) : Prop
    extends set.Tells s.strategy c rs es where
  unlisted : ∀ m d, (.method m, d) ∈ es → m.isStatic = true → m.isExplicitlyExecutable = false →
    d = .unclaimed
  claimed : ∀ m d, (.method m, d) ∈ es → m.isStatic = true → d.isClaimed = true →
    m.IsListed c ∧ d ≠ .methodInjection ∧ d ≠ .intercepted
  writers : ∀ x, (x, .property) ∈ rs →
    ∃ m, c.writer? x = some m ∧ m.visibility ≠ .priv ∧ m.isStatic = false
  fields : ∀ f d, (.field f, d) ∈ es → f.isStatic = true ∨ f.isFinal = true → d = .unclaimed

/-- All that is referred to is a member of the class that may be wired so. -/
structure Entries.Spares (e : Entries) (c : ClassModel) : Prop where
  called : ∀ ref ∈ e.postConstructMethods ++ e.preDestroyMethods ++ e.executableMethods,
    ∃ m ∈ c.methods, (m.isStatic = true → m.IsListed c) ∧ ∃ b, ref = .of m b
  overridden : ∀ ref ∈ e.methodInjectionPoints ++ e.aroundMethods.map (·.method),
    ∃ m ∈ c.methods, m.isStatic = false ∧ ∃ b, ref = .of m b
  setters : ∀ v ∈ e.setterValues,
    ∃ m ∈ c.methods, m.visibility ≠ .priv ∧ m.isStatic = false ∧ v.setter = .of m false
  fields : ∀ ref ∈ e.fieldInjectionPoints ++ e.fieldValues.map (·.field),
    ∃ f ∈ c.fields, f.isStatic = false ∧ f.isFinal = false ∧ ∃ b, ref = .of f b

variable {s : Setting} {c : ClassModel} {rs : List (PropertyModel × Disposition)}
  {es : List (Candidate × Disposition)} {p q : Pass} {set : PlanSet}

/-- A static method that a course claims is listed, and it is neither injected nor intercepted. -/
theorem Course.listed (h : Course s c rs es p q) {m : MethodModel} {d : Disposition}
    (he : (.method ((m.resolve s.registry).deriveValidated s.registry), d) ∈ es)
    (hs : m.isStatic = true) (hd : d.isClaimed = true) :
    m.IsListed c ∧ d ≠ .methodInjection ∧ d ≠ .intercepted := by
  obtain ⟨j, hj, hbecomes⟩ := h.decided he
  rw [deriveValidated_resolve] at hj
  have hstatic : (m.validated s.registry).isStatic = true := by
    rw [m.validated_eq]
    exact hs
  obtain ⟨hlisted, hinjection, hinterception⟩ :=
    listed_of_judged (judgeMethod_of_decideMethod hj) hstatic (hbecomes.isClaimed_iff.1 hd)
  refine ⟨?_, mt hbecomes.eq_methodInjection_iff.1 hinjection,
    mt hbecomes.eq_intercepted_iff.1 hinterception⟩
  have haccessible : (m.validated s.registry).member.isAccessibleFrom c =
      m.member.isAccessibleFrom c := by
    rw [m.validated_eq]
    rfl
  rwa [MethodModel.IsListed, m.isExplicitlyExecutable_validated, haccessible] at hlisted

theorem Course.spares (hh : s.strategy.handler = .noop ∨ s.strategy.handler = .configuration)
    (h : Course s c rs es p q) : ∃ xs ys, q.planSet.Spares s c xs ys := by
  obtain ⟨xs, ys, htells, rfl, rfl⟩ := h.tells
  have hclaimed (m : MethodModel) (d : Disposition) (he : (.method m, d) ∈ ys)
      (hs : m.isStatic = true) (hd : d.isClaimed = true) :
      m.IsListed c ∧ d ≠ .methodInjection ∧ d ≠ .intercepted :=
    h.listed (List.mem_map.2 ⟨_, he, rfl⟩) hs hd
  refine ⟨xs, ys, ⟨htells, fun m d he hs hx => ?_, hclaimed, fun x hx => ?_, fun f d he hf => ?_⟩⟩
  · by_contra hd
    have hlisted := (hclaimed m d he hs (by simpa [Disposition.isClaimed] using hd)).1
    exact absurd (hx.symm.trans hlisted.1) (by decide)
  · have hd := h.reads.disposition_eq hh (List.mem_map.2 ⟨_, hx, rfl⟩)
    have hbare : (Pass.opened s c).model.bare = c.bare := by
      rw [Pass.model_opened, ClassModel.bare_resolve]
    rw [Strategy.disposeProperty, PropertyHandler.claims_eq_of_bare hh hbare] at hd
    rcases hh with hh | hh
    · rw [hh] at hd
      cases hd
    · rw [hh, PropertyHandler.claims_configuration] at hd
      have hbinds : c.binds (x.resolve s.registry) = true := by
        by_contra hb
        rw [if_neg hb] at hd
        cases hd
      exact ClassModel.binds_iff.1 hbinds
  · rw [h.runs.judged_seen he]
    exact judgeField_of_fixed hf

/-! ## What plans refer to -/

namespace PlanSet.Spares

theorem called (h : set.Spares s c rs es) {p : Disposition → Bool} (hp : p .unclaimed = false)
    {m : MethodModel} (hm : m ∈ methodsWith p es) :
    m ∈ c.methods ∧ (m.isStatic = true → m.IsListed c) := by
  obtain ⟨d, he, hd⟩ := mem_methodsWith.1 hm
  have hclaimed : d.isClaimed = true := by
    have hne : d ≠ .unclaimed := fun hu => by simp [hu, hp] at hd
    simpa [Disposition.isClaimed] using hne
  have hmem : .method m ∈ es.map (·.1) := List.mem_map.2 ⟨_, he, rfl⟩
  rw [h.candidates] at hmem
  exact ⟨ClassModel.mem_methods_of_candidates hmem, fun hs => (h.claimed m d he hs hclaimed).1⟩

theorem overridden (h : set.Spares s c rs es) {p : Disposition → Bool}
    (hp : ∀ d, p d = true → d = .methodInjection ∨ d = .intercepted) {m : MethodModel}
    (hm : m ∈ methodsWith p es) : m ∈ c.methods ∧ m.isStatic = false := by
  have hunclaimed : p .unclaimed = false := by
    refine eq_false_of_ne_true fun hd => ?_
    rcases hp _ hd with h | h <;> cases h
  obtain ⟨d, he, hd⟩ := mem_methodsWith.1 hm
  refine ⟨(h.called hunclaimed hm).1, eq_false_of_ne_true fun hs => ?_⟩
  rcases hp d hd with rfl | rfl
  · exact (h.claimed m _ he hs rfl).2.1 rfl
  · exact (h.claimed m _ he hs rfl).2.2 rfl

theorem field (h : set.Spares s c rs es) {p : Disposition → Bool} (hp : p .unclaimed = false)
    {f : FieldModel} (hf : f ∈ fieldsWith p es) :
    f ∈ c.fields ∧ f.isStatic = false ∧ f.isFinal = false := by
  obtain ⟨d, he, hd⟩ := mem_fieldsWith.1 hf
  have hmem : .field f ∈ es.map (·.1) := List.mem_map.2 ⟨_, he, rfl⟩
  rw [h.candidates] at hmem
  have hfixed (hx : f.isStatic = true ∨ f.isFinal = true) : False := by
    rw [h.fields f d he hx, hp] at hd
    cases hd
  exact ⟨ClassModel.mem_fields_of_candidates hmem, eq_false_of_ne_true fun hs => hfixed (Or.inl hs),
    eq_false_of_ne_true fun hx => hfixed (Or.inr hx)⟩

theorem main (h : set.Spares s c rs es) (haccounts : set.Accounts s c rs es) :
    set.main.memberLists.Spares c := by
  rw [haccounts.main]
  refine ⟨fun ref href => ?_, fun ref href => ?_, fun v hv => ?_, fun ref href => ?_⟩
  · simp only [List.mem_append, List.mem_map] at href
    rcases href with (⟨m, hm, rfl⟩ | ⟨m, hm, rfl⟩) | ⟨m, hm, rfl⟩
    all_goals
      obtain ⟨hmem, hs⟩ := h.called rfl hm
      exact ⟨m, hmem, hs, _, rfl⟩
  · simp only [List.mem_append, List.mem_map, List.not_mem_nil, false_and, exists_false,
      or_false] at href
    obtain ⟨m, hm, rfl⟩ := href
    obtain ⟨hmem, hs⟩ := h.overridden (fun d hd => Or.inl (by simpa using hd)) hm
    exact ⟨m, hmem, hs, _, rfl⟩
  · obtain ⟨⟨x, d⟩, he, hx⟩ := List.mem_filterMap.1 hv
    obtain ⟨he, hd⟩ := List.mem_filter.1 he
    obtain rfl : d = .property := by simpa using hd
    obtain ⟨m, hm, hvisible, hs⟩ := h.writers x he
    rw [ClassModel.setterValue?_eq, hm] at hx
    cases hx
    exact ⟨m, ClassModel.mem_methods_of_writer? hm, hvisible, hs, rfl⟩
  · simp only [List.mem_append, List.mem_map, exists_exists_and_eq_and] at href
    rcases href with ⟨f, hf, rfl⟩ | ⟨f, hf, rfl⟩
    all_goals
      obtain ⟨hmem, hs, hx⟩ := h.field rfl hf
      exact ⟨f, hmem, hs, hx, _, rfl⟩

theorem proxy (h : set.Spares s c rs es) (haccounts : set.Accounts s c rs es) {plan : Plan}
    (hproxy : plan ∈ set.proxy) : plan.memberLists.Spares c := by
  have hlists := haccounts.proxy
  rw [hproxy, Option.map_some, Option.getD_some] at hlists
  rw [hlists]
  refine ⟨by simp, fun ref href => ?_, by simp, by simp⟩
  simp only [List.nil_append, List.mem_map, exists_exists_and_eq_and] at href
  obtain ⟨m, hm, rfl⟩ := href
  obtain ⟨hmem, hs⟩ := h.overridden (fun d hd => Or.inr (by simpa using hd)) hm
  exact ⟨m, hmem, hs, _, rfl⟩

end PlanSet.Spares

/-! ## Builds -/

/-- Static and final members are never wired unless they say so. A static method that does not say itself
that it is executable is left alone; one that is claimed can be reached without reflection and is neither
injected nor intercepted. No property is bound to a static or private writer, and static and final fields are
left alone. So all that any list of any plan refers to is a member of the class that may be wired so. -/
theorem build_spares (hh : s.strategy.handler = .noop ∨ s.strategy.handler = .configuration)
    (hw : s.weaver = .standard) (h : (build s c).result = .ok set) :
    ∃ rs es, set.Spares s c rs es ∧ ∀ plan ∈ set.plans, plan.memberLists.Spares c := by
  obtain ⟨rs, es, p, q, hcourse, rfl⟩ := build_ok h
  obtain ⟨xs, ys, hspares⟩ := hcourse.spares hh
  obtain ⟨xs', ys', haccounts⟩ :=
    hcourse.accounts (PropertyHandler.plain_of_either hh) (hw ▸ Weaver.standard_plain)
  obtain ⟨rfl, rfl⟩ := hspares.unique haccounts.toTells
  refine ⟨xs', ys', hspares, fun plan hplan => ?_⟩
  rcases PlanSet.mem_plans.1 hplan with rfl | hproxy | hadapter
  · exact hspares.main haccounts
  · exact hspares.proxy haccounts hproxy
  · rw [haccounts.adapters plan hadapter]
    exact ⟨by simp, by simp, by simp, by simp⟩

theorem build_spares_of_static_methods :
    let listed : MethodModel :=
      { name := "open", declaringType := "app.Service", isStatic := true
        capabilities := CapabilitySet.empty.withDeclared Marker.executable }
    let inherited : MethodModel :=
      { name := "close", declaringType := "app.Service", isStatic := true
        capabilities := CapabilitySet.empty.withInherited Marker.executable }
    let c : ClassModel := { name := "app.Service", methods := [listed, inherited] }
    ∃ set, (build {} c).result = .ok set ∧
      set.main.executableMethods.map (·.name) = ["open"] ∧
      ∃ rs es, set.Spares {} c rs es ∧ ∀ plan ∈ set.plans, plan.memberLists.Spares c := by
  intro listed inherited c
  have hset : ∃ set, (build {} c).result = .ok set ∧
      set.main.executableMethods.map (·.name) = ["open"] := ⟨_, rfl, rfl⟩
  obtain ⟨set, h, hmethods⟩ := hset
  exact ⟨set, h, hmethods, build_spares (Or.inl rfl) rfl h⟩

end Wiring
