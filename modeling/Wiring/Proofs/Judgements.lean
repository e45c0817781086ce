import Wiring.Proofs.Statics

/-!
# What is judged about a method

The rules for methods, one constructor each (`Judged`), in terms of what markers carry by the definitions
of a registry. Whatever is judged about a resolved method is judged by one of them
(`judged_of_judgeMethod`).
-/

namespace Wiring

namespace MethodModel

variable (s : Strategy) (r : Registry) (c : ClassModel) (m : MethodModel)

/-! ## Exposure -/

/-- No rule before that of exposure takes the method: no advice applies to it, or the advice that applies
passes it over as a final one. -/
structure ReachesExposure : Prop where
  reaches : m.ReachesAdvice r
  unadvised : ¬m.Advised s r c ∨ m.PassedOver s r c

/-- A class that is executable as a whole means the method, too. -/
inductive Meant : Prop
  | declared (h : m.member.isDeclaredOn c = true)
  | supertype {t : SupertypeModel} (ht : c.supertypes.find? (·.name == m.declaringType) = some t)
      (hx : t.capabilities.Carries r Marker.executable)
  | visible (h : m.visibility = .pub)

/-- The method can be called without reflection, or dynamic classes are trusted with it. -/
def Callable : Prop :=
  m.member.isAccessibleFrom c = true ∨
    (m.visibility ≠ .priv ∧ c.dialect = .dynamic ∧ s.legacyDialectAccess = true)

/-- The method is to be exposed, for its own sake or for that of its class. -/
inductive Exposed : Prop
  | own (hx : m.capabilities.Carries r Marker.executable)
  | ofClass (hx : c.capabilities.Carries r Marker.executable) (hm : m.Meant r c) (hc : m.Callable s c)

/-! ## Processing -/

/-- Whether the method asks for processing at startup. -/
def startsUp : Bool :=
  (Effective.mk m.capabilities c.capabilities).isTrue Marker.executable Marker.processOnStartup

end MethodModel

/-! ## Judgements -/

/-- What is judged about a method, and why. -/
inductive Judged (s : Strategy) (r : Registry) (c : ClassModel) (m : MethodModel) : Judgement → Prop
  | callback (hm : m.IsCallback) (hl : m.isStatic = true → m.IsListed c) :
      Judged s r c m ⟨.lifecycle (m.capabilities.hasDeclaredMarker Marker.postConstruct)
        (m.capabilities.hasDeclaredMarker Marker.preDestroy), false⟩
  | injected (hm : ¬m.IsCallback) (hi : m.isStatic = false)
      (hd : m.capabilities.DeclaredCarries r Marker.inject) : Judged s r c m ⟨.injection, false⟩
  | dropped (hm : ¬m.IsCallback) (hs : m.isStatic = true) (hx : m.isExplicitlyExecutable = false) :
      Judged s r c m ⟨.unclaimed, false⟩
  | adapted (hm : ¬m.IsCallback) (he : ¬m.Exempt r)
      (had : m.capabilities.Carries r Marker.adapter) (hl : m.isStatic = true → m.IsListed c) :
      Judged s r c m ⟨.adaptation, m.startsUp c⟩
  | advised (hr : m.ReachesAdvice r) (ha : m.Advised s r c) (hf : ¬m.Fixed c) :
      Judged s r c m ⟨.interception, m.startsUp c⟩
  | exposed (hr : m.ReachesExposure s r c) (hx : m.Exposed s r c)
      (ha : m.capabilities.Carries r Marker.executable → m.member.isAccessibleFrom c = true) :
      Judged s r c m ⟨.exposure, m.startsUp c⟩
  | left (hr : m.ReachesExposure s r c) (hx : ¬m.Exposed s r c) :
      Judged s r c m ⟨.unclaimed, m.startsUp c⟩

section Resolved

variable {s : Strategy} {r : Registry} {c : ClassModel} {m : MethodModel} {j : Judgement} {b : Bool}

theorem declaringTypeIsExecutable_resolve (hd : m.member.isDeclaredOn c = false) :
    declaringTypeIsExecutable (c.resolve r) (m.resolve r) = true ↔
      ∃ t, c.supertypes.find? (·.name == m.declaringType) = some t ∧
        t.capabilities.Carries r Marker.executable := by
  have hne : m.declaringType ≠ c.name := by simpa [Member.isDeclaredOn, MethodModel.member] using hd
  have htype : (c.resolve r).typeCapabilities? (m.resolve r).declaringType =
      (c.supertypes.find? (·.name == m.declaringType)).map (·.capabilities.resolve r) := by
    simp [ClassModel.typeCapabilities?, ClassModel.resolve, MethodModel.resolve, hne, List.find?_map,
      Function.comp_def]
  have hcarries (t : SupertypeModel) : (t.capabilities.resolve r).hasStereotype Marker.executable = true ↔
      t.capabilities.Carries r Marker.executable :=
    (CapabilitySet.coherent_resolve r t.capabilities).hasStereotype_iff
  rw [declaringTypeIsExecutable, htype]
  cases c.supertypes.find? (·.name == m.declaringType) <;> simp [hcarries]

theorem not_meant_resolve :
    (!(m.resolve r).member.isDeclaredOn (c.resolve r) &&
      !declaringTypeIsExecutable (c.resolve r) (m.resolve r) && (m.resolve r).visibility != .pub) =
        true ↔ ¬m.Meant r c := by
  have hdeclared : (m.resolve r).member.isDeclaredOn (c.resolve r) = m.member.isDeclaredOn c := rfl
  have hvisibility : (m.resolve r).visibility = m.visibility := rfl
  rw [hdeclared, hvisibility]
  cases hd : m.member.isDeclaredOn c with
  | true => simpa using MethodModel.Meant.declared hd
  | false =>
      simp only [Bool.not_false, Bool.true_and, Bool.and_eq_true, Bool.not_eq_true', bne_iff_ne,
        ← Bool.not_eq_true, declaringTypeIsExecutable_resolve hd]
      constructor
      · rintro ⟨ht, hv⟩ (hm | ⟨hfind, hx⟩ | hm)
        · exact absurd (hm.symm.trans hd) (by decide)
        · exact ht ⟨_, hfind, hx⟩
        · exact hv hm
      · intro hm
        exact ⟨fun ⟨_, hfind, hx⟩ => hm (.supertype hfind hx), fun hv => hm (.visible hv)⟩

theorem not_effective_resolve {t : String} :
    (!(Effective.mk (m.resolve r).capabilities (c.resolve r).capabilities).hasStereotype t) = true ↔
      ¬m.capabilities.Carries r t ∧ ¬c.capabilities.Carries r t := by
  have hclass : (c.resolve r).capabilities.hasStereotype t = true ↔ c.capabilities.Carries r t :=
    (CapabilitySet.coherent_resolve r c.capabilities).hasStereotype_iff
  rw [Bool.not_eq_true', ← Bool.not_eq_true, Effective.hasStereotype, Bool.or_eq_true,
    hasStereotype_resolve, hclass, not_or]

theorem callable_resolve :
    ((m.resolve r).member.isAccessibleFrom (c.resolve r) ||
      (s.legacyDialectAccess && (c.resolve r).dialect == .dynamic &&
        (m.resolve r).visibility != .priv)) = true ↔ m.Callable s c := by
  simp only [Bool.or_eq_true, Bool.and_eq_true, beq_iff_eq, bne_iff_ne, MethodModel.Callable]
  exact or_congr_right ⟨fun h => ⟨h.2, h.1.2, h.1.1⟩, fun h => ⟨⟨h.2.2, h.2.1⟩, h.1⟩⟩

/-- A method that is executable by itself is exposed, as it must be accessible. -/
theorem judgeExposure_eq_ok (h : judgeExposure s (c.resolve r) (m.resolve r) = .ok b) :
    (b = true ↔ m.Exposed s r c) ∧
      (m.capabilities.Carries r Marker.executable → m.member.isAccessibleFrom c = true) := by
  refine ⟨?_, fun hx => accessible_of_exposure hx h⟩
  simp only [judgeExposure, not_effective_resolve, hasStereotype_resolve] at h
  split_ifs at h with hnone hown ha hm
  · cases h
    refine iff_of_false (by simp) ?_
    rintro (hx | ⟨hx, _, _⟩)
    · exact hnone.1 hx
    · exact hnone.2 hx
  · cases h
    exact iff_of_true rfl (.own hown)
  · cases h
    refine iff_of_false (by simp) ?_
    rintro (hx | ⟨_, hmeant, _⟩)
    · exact hown hx
    · exact not_meant_resolve.1 hm hmeant
  · rw [← Except.ok.inj h, callable_resolve]
    have hclass : c.capabilities.Carries r Marker.executable :=
      by_contra fun hx => hnone ⟨hown, hx⟩
    refine ⟨.ofClass hclass (not_not.1 (mt not_meant_resolve.2 hm)), ?_⟩
    rintro (hx | ⟨_, _, hc⟩)
    · exact absurd hx hown
    · exact hc

theorem listed_of_checkStatic (h : checkStatic (c.resolve r) (m.resolve r) = .ok ())
    (hs : m.isStatic = true) : m.IsListed c := by
  have hlisted := checkStatic_eq_ok.1 h hs
  exact hlisted

theorem judged_of_judgeMethod (h : judgeMethod s (c.resolve r) (m.resolve r) = .ok j) :
    Judged s r c m j := by
  -- The tests are made on the resolved method. They become tests of what its markers carry.
  simp only [judgeMethod, isCallback_resolve, injected_resolve, unlisted_resolve,
    hasStereotype_resolve] at h
  split_ifs at h with hm hi hu had
  · obtain ⟨_, hl, h⟩ := bind_eq_ok.1 h
    cases h
    exact .callback hm (listed_of_checkStatic hl)
  · cases h
    exact .injected hm hi.1 hi.2
  · cases h
    exact .dropped hm hu.1 hu.2
  · obtain ⟨_, hl, h⟩ := bind_eq_ok.1 h
    cases h
    exact .adapted hm (not_or.2 ⟨hi, hu⟩) had (listed_of_checkStatic hl)
  · have hr : m.ReachesAdvice r := ⟨hm, not_or.2 ⟨hi, hu⟩, had⟩
    obtain ⟨b, hadvice, h⟩ := bind_eq_ok.1 h
    cases b with
    | true =>
        cases h
        obtain ⟨ha, hf⟩ := judgeAdvice_eq_true hadvice
        exact .advised hr ha hf
    | false =>
        have hreaches : m.ReachesExposure s r c := ⟨hr, judgeAdvice_eq_false.1 hadvice⟩
        obtain ⟨b, hexposure, h⟩ := bind_eq_ok.1 h
        obtain ⟨hx, ha⟩ := judgeExposure_eq_ok hexposure
        cases b with
        | true =>
            cases h
            exact .exposed hreaches (hx.1 rfl) ha
        | false =>
            cases h
            exact .left hreaches (mt hx.2 (by simp))

end Resolved

end Wiring
