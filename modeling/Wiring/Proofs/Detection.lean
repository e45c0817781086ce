import Wiring.Proofs.Course
import Wiring.Run.Basic

/-!
# Detecting a mode

The mode of a class is detected either from its markers, each followed through a registry, or from the closure
that was cached when the class was resolved. Both ways say what the markers carry, so it does not matter whether
a class is resolved before or after its mode is detected; and a run without a mode of its own rejects a class
before its members exactly if the class is final, not abstract and carries advice (`detect_of_unresolved`).
-/

namespace Wiring

/-! ## Two ways to look for a marker -/

namespace CapabilitySet

variable {c : CapabilitySet} {r : Registry}

theorem mem_markerNames {a : String} :
    a ∈ c.markerNames ↔ a ∈ c.declared.keys ++ c.inherited.keys := by
  simp only [markerNames, List.mem_append, List.mem_filter, Bool.not_eq_true', StringMap.mem_keys]
  by_cases h : c.declared.contains a = true <;> simp [h]

theorem any_markerNames {t : String} :
    c.markerNames.any (r.carries · t) = true ↔ c.Carries r t := by
  simp only [List.any_eq_true, mem_markerNames, Registry.carries_iff, Carries]

end CapabilitySet

namespace Mode

variable {c : ClassModel} {r : Registry}

/-- The mode that a class is to be processed in, by what its markers carry. -/
def calledFor (r : Registry) (c : ClassModel) : Mode :=
  if c.isAbstract = false ∧ c.capabilities.Carries r Marker.around then .alwaysProxy
  else if c.capabilities.Carries r Marker.configurationReader then .properties
  else .simple

theorem detect_of_isResolved_eq_false (h : c.capabilities.isResolved = false) :
    detect c r = calledFor r c := by
  simp only [detect, calledFor, h, Bool.false_eq_true, if_false, Bool.and_eq_true, Bool.not_eq_true',
    CapabilitySet.any_markerNames, and_comm]

theorem detect_of_coherent (h : c.capabilities.Coherent r) (r₂ : Registry) :
    detect c r₂ = calledFor r c := by
  have hresolved : c.capabilities.isResolved = true := by
    rw [← h]
    rfl
  simp only [detect, calledFor, hresolved, if_true, Bool.and_eq_true, Bool.not_eq_true',
    h.hasStereotype_iff, and_comm]

theorem calledFor_resolve (r r' : Registry) (c : ClassModel) :
    calledFor r (c.resolve r') = calledFor r c := rfl

theorem calledFor_eq_alwaysProxy :
    calledFor r c = .alwaysProxy ↔
      c.isAbstract = false ∧ c.capabilities.Carries r Marker.around := by
  unfold calledFor
  split
  · simpa
  · rename_i h
    split <;> simpa using h

end Mode

/-! ## Rejected before its members -/

theorem build_of_run_error {s : Setting} {c : ClassModel} {e : Refusal}
    (h : (Pass.start (c.resolve s.registry)).run s = .error e) :
    build s c = ⟨.error e.violation, e.model⟩ := by
  rw [build, h]

namespace Settings

variable {s : Settings} {x : Subject}

/-- What a class is classified with in a run. -/
def setting (s : Settings) (x : Subject) : Setting :=
  { strategy := s.strategyFor x, registry := x.registry }

/-- The class is rejected when its proxy is to be made, before its properties and members are gone over. -/
def RejectsUnvisited (s : Settings) (x : Subject) : Prop :=
  ∃ e, (Pass.start (x.model.resolve x.registry)).openProxy (s.setting x) = .error e

theorem openProxy_setting (s : Settings) (x : Subject) :
    (Pass.start (x.model.resolve x.registry)).openProxy (s.setting x) =
      if (s.strategyFor x).alwaysProxies = true ∧ x.model.isFinal = true then
        .error ⟨⟨.finalClassProxy, x.model.name⟩, x.model.resolve x.registry⟩
      else .ok (Pass.opened (s.setting x) x.model) := Pass.openProxy_eq (s.setting x) x.model

theorem rejectsUnvisited_iff :
    s.RejectsUnvisited x ↔ (s.strategyFor x).alwaysProxies = true ∧ x.model.isFinal = true := by
  rw [RejectsUnvisited, openProxy_setting]
  split
  · rename_i h
    exact iff_of_true ⟨_, rfl⟩ h
  · rename_i h
    refine iff_of_false ?_ h
    rintro ⟨_, he⟩
    cases he

theorem RejectsUnvisited.classify_eq (h : s.RejectsUnvisited x) :
    s.classify x = ⟨.error ⟨.finalClassProxy, x.model.name⟩, x.model.resolve x.registry⟩ := by
  have hrun : (Pass.start (x.model.resolve x.registry)).run (s.setting x) =
      .error ⟨⟨.finalClassProxy, x.model.name⟩, x.model.resolve x.registry⟩ := by
    rw [Pass.run_eq, openProxy_setting, if_pos (rejectsUnvisited_iff.1 h)]
    rfl
  exact build_of_run_error hrun

theorem alwaysProxies_strategyFor (hs : s.mode = none) :
    (s.strategyFor x).alwaysProxies = true ↔ Mode.detect x.model x.registry = .alwaysProxy := by
  simp only [strategyFor, hs, Option.getD_none, Strategy.alwaysProxies, beq_iff_eq]
  cases Mode.detect x.model x.registry <;> simp [Strategy.ofMode]

end Settings

/-- The mode that is detected for a class that is not resolved: it stays the same when the class is resolved,
whatever registry is then at hand, and it is the one that the markers call for. In a run without a mode of its
own, no abstract class is proxied as a whole, and a class is rejected before its members exactly if it is
final, not abstract and carries advice; it is left as it was resolved then. -/
theorem detect_of_unresolved (c : ClassModel) (hc : c.capabilities.isResolved = false) (r : Registry) :
    (∀ r₂, Mode.detect (c.resolve r) r₂ = Mode.detect c r) ∧
      Mode.detect c r =
        (if c.isAbstract = false ∧ c.capabilities.Carries r Marker.around then .alwaysProxy
        else if c.capabilities.Carries r Marker.configurationReader then .properties
        else .simple) ∧
      ∀ s : Settings, s.mode = none →
        (c.isAbstract = true → (s.strategyFor ⟨r, c⟩).alwaysProxies = false) ∧
        (s.RejectsUnvisited ⟨r, c⟩ ↔
          c.isFinal = true ∧ c.isAbstract = false ∧ c.capabilities.Carries r Marker.around) ∧
        (s.RejectsUnvisited ⟨r, c⟩ →
          s.classify ⟨r, c⟩ = ⟨.error ⟨.finalClassProxy, c.name⟩, c.resolve r⟩) := by
  have hdetect : Mode.detect c r = Mode.calledFor r c := Mode.detect_of_isResolved_eq_false hc
  refine ⟨fun r₂ => ?_, hdetect, fun s hs => ?_⟩
  · have hcoherent : (c.resolve r).capabilities.Coherent r := CapabilitySet.coherent_resolve r _
    rw [Mode.detect_of_coherent hcoherent r₂, Mode.calledFor_resolve, hdetect]
  · have hproxies : (s.strategyFor ⟨r, c⟩).alwaysProxies = true ↔
        c.isAbstract = false ∧ c.capabilities.Carries r Marker.around := by
      rw [s.alwaysProxies_strategyFor hs, hdetect, Mode.calledFor_eq_alwaysProxy]
    refine ⟨fun habstract => ?_, ?_, fun h => h.classify_eq⟩
    · refine Bool.eq_false_iff.2 fun h => ?_
      rw [(hproxies.1 h).1] at habstract
      cases habstract
    · rw [Settings.rejectsUnvisited_iff, hproxies, and_comm]

theorem detect_of_unresolved_cycle :
    let r := Registry.new (.ofList [("Monitored", ["Timed", "Around"]), ("Timed", ["Monitored"])])
    let c : ClassModel :=
      { name := "app.Audited", isFinal := true
        capabilities := (CapabilitySet.empty.withDeclared "Noted").withInherited "Timed" }
    let s : Settings := {}
    c.capabilities.isResolved = false ∧ s.mode = none ∧
      Mode.detect c r = .alwaysProxy ∧ Mode.detect (c.resolve r) .empty = .alwaysProxy ∧
      Mode.detect c .empty = .simple ∧
      s.classify ⟨r, c⟩ = ⟨.error ⟨.finalClassProxy, "app.Audited"⟩, c.resolve r⟩ := by
  intro r c s
  obtain ⟨hresolve, hmode, hrun⟩ := detect_of_unresolved c rfl r
  obtain ⟨_, hrejects, hclassify⟩ := hrun s rfl
  have hmonitored : "Monitored" ∈ Registry.carried r.definitions "Timed" := by decide
  have haround : "Around" ∈ Registry.carried r.definitions "Monitored" := by decide
  have hcarries : c.capabilities.Carries r Marker.around :=
    ⟨"Timed", by decide, .step hmonitored (.step haround (.refl _))⟩
  have hproxy : Mode.detect c r = .alwaysProxy := by rw [hmode, if_pos ⟨rfl, hcarries⟩]
  exact ⟨rfl, rfl, hproxy, (hresolve .empty).trans hproxy, rfl,
    hclassify (hrejects.2 ⟨rfl, rfl, hcarries⟩)⟩

end Wiring
