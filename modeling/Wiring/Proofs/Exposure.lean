import Wiring.Proofs.Access
import Wiring.Proofs.Judgements

/-!
# Exposure

A method that no rule before that of exposure takes is exposed or left: exposed if it is executable by itself,
and then it is accessible, or if its class means it and it can be called. A final method that interception
passes over is one of them (`build_exposes_meant`).
-/

namespace Wiring

/-! ## What exposure decides -/

/-- What became of a method is what exposure says, if no rule before that takes the method. -/
structure MethodModel.ObeysExposure (s : Strategy) (r : Registry) (c : ClassModel) (m : MethodModel)
    (d : Disposition) : Prop where
  reaches : m.ReachesExposure s r c ↔
    (d = .executable ∨ d = .unclaimed) ∧ (m.isStatic = true → m.isExplicitlyExecutable = true)
  executable : m.ReachesExposure s r c → (d = .executable ↔ m.Exposed s r c)
  unclaimed : m.ReachesExposure s r c → (d = .unclaimed ↔ ¬m.Exposed s r c)
  accessible : m.ReachesExposure s r c → m.capabilities.Carries r Marker.executable →
    m.member.isAccessibleFrom c = true
  passedOver : m.ReachesAdvice r → m.Fixed c → m.ReachesExposure s r c

namespace Judged

variable {s : Strategy} {r : Registry} {c : ClassModel} {m : MethodModel} {j : Judgement}
  {d : Disposition}

/-- A method that no rule before that of interception takes is intercepted, exposed or left. -/
theorem of_reachesAdvice (h : Judged s r c m j) (hr : m.ReachesAdvice r) :
    (j.verdict = .interception ∧ m.Advised s r c ∧ ¬m.Fixed c) ∨
      (j.verdict = .exposure ∧ m.ReachesExposure s r c ∧ m.Exposed s r c ∧
        (m.capabilities.Carries r Marker.executable → m.member.isAccessibleFrom c = true)) ∨
      (j.verdict = .unclaimed ∧ m.ReachesExposure s r c ∧ ¬m.Exposed s r c) := by
  cases h with
  | callback hm => exact absurd hm hr.1
  | injected hm hi hx => exact absurd (Or.inl ⟨hi, hx⟩) hr.2.1
  | dropped hm hs hx => exact absurd (Or.inr ⟨hs, hx⟩) hr.2.1
  | adapted hm he had => exact absurd had hr.2.2
  | advised _ ha hf => exact Or.inl ⟨rfl, ha, hf⟩
  | exposed hre hx ha => exact Or.inr (Or.inl ⟨rfl, hre, hx, ha⟩)
  | left hre hx => exact Or.inr (Or.inr ⟨rfl, hre, hx⟩)

theorem exposed_or_left (h : Judged s r c m j) (hd : j.verdict.Becomes d)
    (hr : m.ReachesExposure s r c) :
    (d = .executable ∧ m.Exposed s r c ∧
        (m.capabilities.Carries r Marker.executable → m.member.isAccessibleFrom c = true)) ∨
      (d = .unclaimed ∧ ¬m.Exposed s r c) := by
  rcases h.of_reachesAdvice hr.reaches with ⟨_, ha, hf⟩ | ⟨hv, _, hx, ha⟩ | ⟨hv, _, hx⟩
  · rcases hr.unadvised with hn | hp
    · exact absurd ha hn
    · exact absurd hp.1 hf
  · rw [hv] at hd
    cases hd
    exact Or.inl ⟨rfl, hx, ha⟩
  · rw [hv] at hd
    cases hd
    exact Or.inr ⟨rfl, hx⟩

/-- Exposure is decided about the methods that no other rule claims and that are not dropped as static. -/
theorem reachesExposure_iff (h : Judged s r c m j) (hd : j.verdict.Becomes d) :
    m.ReachesExposure s r c ↔
      (d = .executable ∨ d = .unclaimed) ∧ (m.isStatic = true → m.isExplicitlyExecutable = true) := by
  constructor
  · intro hr
    have hlisted (hs : m.isStatic = true) : m.isExplicitlyExecutable = true :=
      eq_true_of_ne_false fun hx => hr.reaches.2.1 (Or.inr ⟨hs, hx⟩)
    exact ⟨(h.exposed_or_left hd hr).imp And.left And.left, hlisted⟩
  · rintro ⟨hu, hlisted⟩
    cases h with
    | callback => cases hd; simp at hu
    | injected => cases hd; simp at hu
    | dropped _ hs hx => exact absurd (hx.symm.trans (hlisted hs)) (by decide)
    | adapted => cases hd <;> simp at hu
    | advised => cases hd; simp at hu
    | exposed hr => exact hr
    | left hr => exact hr

theorem reachesExposure_of_fixed (h : Judged s r c m j) (hr : m.ReachesAdvice r) (hf : m.Fixed c) :
    m.ReachesExposure s r c := by
  rcases h.of_reachesAdvice hr with ⟨_, _, hn⟩ | ⟨_, hre, _⟩ | ⟨_, hre, _⟩
  · exact absurd hf hn
  · exact hre
  · exact hre

theorem obeysExposure (h : Judged s r c m j) (hd : j.verdict.Becomes d) :
    m.ObeysExposure s r c d where
  reaches := h.reachesExposure_iff hd
  executable hr := by
    rcases h.exposed_or_left hd hr with ⟨rfl, hx, _⟩ | ⟨rfl, hx⟩
    · exact iff_of_true rfl hx
    · exact iff_of_false (by decide) hx
  unclaimed hr := by
    rcases h.exposed_or_left hd hr with ⟨rfl, hx, _⟩ | ⟨rfl, hx⟩
    · exact iff_of_false (by decide) (not_not.2 hx)
    · exact iff_of_true rfl hx
  accessible hr hx := by
    rcases h.exposed_or_left hd hr with ⟨_, _, ha⟩ | ⟨_, hn⟩
    · exact ha hx
    · exact absurd (.own hx) hn
  passedOver := h.reachesExposure_of_fixed

end Judged

/-! ## Builds -/

variable {s : Setting} {c : ClassModel} {set : PlanSet}

/-- In a build a rule before that of exposure takes a method, or it is executable just if it is exposed and
unclaimed otherwise. A method that is executable by itself is accessible then, and a final method that
interception does not take is one of these. -/
theorem build_exposes_meant (h : (build s c).result = .ok set) :
    ∃ rs es, set.Tells s.strategy c rs es ∧ ∀ m d, (.method m, d) ∈ es →
      (m.validated s.registry).ObeysExposure s.strategy s.registry c d := by
  obtain ⟨rs, es, p, q, hcourse, rfl⟩ := build_ok h
  obtain ⟨xs, ys, htells, rfl, rfl⟩ := hcourse.tells
  refine ⟨xs, ys, htells, fun m d he => ?_⟩
  obtain ⟨j, hj, hbecomes⟩ := hcourse.decided (List.mem_map.2 ⟨_, he, rfl⟩)
  rw [deriveValidated_resolve] at hj
  exact (judged_of_judgeMethod (judgeMethod_of_decideMethod hj)).obeysExposure hbecomes

/-- The class as a whole is executable and proxied. Its final method is passed over, and it is exposed. Of
two others only that of an executable supertype is. -/
theorem build_exposes_meant_of_final_method :
    let executable := CapabilitySet.empty.withDeclared Marker.executable
    let final : MethodModel := { name := "run", declaringType := "lib.Base", isFinal := true }
    let meant : MethodModel := { name := "open", declaringType := "app.Base", visibility := .prot }
    let foreign : MethodModel := { name := "close", declaringType := "app.Else", visibility := .prot }
    let c : ClassModel :=
      { name := "app.Service", capabilities := executable, methods := [final, meant, foreign]
        supertypes := [{ name := "app.Base", capabilities := executable }] }
    let s : Setting := { strategy := .ofMode .alwaysProxy }
    final.Fixed c ∧ ∃ set, (build s c).result = .ok set ∧
      set.dispositions.map (·.disposition) = [.executable, .executable, .unclaimed] ∧
      ∃ rs es, set.Tells s.strategy c rs es ∧ ∀ m d, (.method m, d) ∈ es →
        (m.validated s.registry).ObeysExposure s.strategy s.registry c d := by
  intro executable final meant foreign c s
  have hset : (build s c).result.toOption.map (·.dispositions.map (·.disposition)) =
      some [.executable, .executable, .unclaimed] := by
    decide +kernel
  obtain ⟨set, hok, hdispositions⟩ := Option.map_eq_some_iff.1 hset
  have h : (build s c).result = .ok set := by
    cases hr : (build s c).result with
    | error v => simp [hr, Except.toOption] at hok
    | ok set' => simpa [hr, Except.toOption] using hok
  exact ⟨Or.inl rfl, set, h, hdispositions, build_exposes_meant h⟩

end Wiring
