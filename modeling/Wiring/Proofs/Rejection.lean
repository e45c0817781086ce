import Wiring.Proofs.Accounts

/-!
# Rejection

When a class is rejected, and for what. `Offends` says what a method does wrong in terms of what markers
carry by the definitions of a registry; a build fails by the first method that does
(`build_rejects`).
-/

namespace Wiring

namespace MethodModel

variable (s : Strategy) (r : Registry) (c : ClassModel) (m : MethodModel)

/-- The method with the mark of validation written on it, if one of its markers carries the need. -/
def validated : MethodModel :=
  if m.capabilities.Carries r Marker.requiresValidation then
    { m with capabilities := m.capabilities.withDeclared Marker.validated }
  else m

/-- The method is written to be called when a bean is made or given up. -/
def IsCallback : Prop :=
  m.capabilities.hasDeclaredMarker Marker.postConstruct = true ∨
    m.capabilities.hasDeclaredMarker Marker.preDestroy = true

/-- The method is injected, or it is static and nothing says that it is to be executable. -/
def Exempt : Prop :=
  (m.isStatic = false ∧ m.capabilities.DeclaredCarries r Marker.inject) ∨
    (m.isStatic = true ∧ m.isExplicitlyExecutable = false)

def ClassAdvised : Prop := s.alwaysProxies = true ∧ (m.visibility = .pub ∨ m.visibility = .pkg)

/-- Advice applies to the method. -/
def Advised : Prop :=
  m.ClassAdvised s ∨ (s.alwaysProxies = false ∧ m.capabilities.Carries r Marker.around) ∨
    (m.capabilities.DeclaredCarries r Marker.around ∧ c.isAbstract = false)

/-- The method is final, or as good as final. -/
def Fixed : Prop := m.isFinal = true ∨ (c.isFinal = true ∧ m.member.isDeclaredOn c = true)

/-- Advice that applies to the method is not applied, and nothing is wrong about that. -/
def PassedOver : Prop :=
  m.Fixed c ∧ ¬m.capabilities.DeclaredCarries r Marker.around ∧
    ¬(m.ClassAdvised s ∧ m.member.isDeclaredOn c = true)

instance : Decidable m.IsCallback := inferInstanceAs (Decidable (_ ∨ _))

instance : Decidable (m.Exempt r) := inferInstanceAs (Decidable (_ ∨ _))

instance : Decidable (m.ClassAdvised s) := inferInstanceAs (Decidable (_ ∧ _))

instance : Decidable (m.Advised s r c) := inferInstanceAs (Decidable (_ ∨ _))

instance : Decidable (m.Fixed c) := inferInstanceAs (Decidable (_ ∨ _))

instance : Decidable (m.PassedOver s r c) := inferInstanceAs (Decidable (_ ∧ _))

end MethodModel

/-- What an advised method does wrong. -/
inductive AdviceOffends (s : Strategy) (r : Registry) (c : ClassModel) (m : MethodModel) :
    Violation → Prop
  | finalAdvised (hf : m.Fixed c) (hd : m.capabilities.DeclaredCarries r Marker.around) :
      AdviceOffends s r c m ⟨.finalAdvisedMethod, m.member.description⟩
  | finalInherited (hf : m.Fixed c) (hd : ¬m.capabilities.DeclaredCarries r Marker.around)
      (hs : m.ClassAdvised s) (hc : m.member.isDeclaredOn c = true) :
      AdviceOffends s r c m ⟨.finalInheritedAdvice, m.member.description⟩
  | privateAdvised (hf : ¬m.Fixed c) (hv : m.visibility = .priv) :
      AdviceOffends s r c m ⟨.privateAdvisedMethod, m.member.description⟩
  | staticAdvised (hf : ¬m.Fixed c) (hv : m.visibility ≠ .priv) (hs : m.isStatic = true) :
      AdviceOffends s r c m ⟨.staticAdvisedMethod, m.member.description⟩
  | finalClass (hf : ¬m.Fixed c) (hv : m.visibility ≠ .priv) (hs : m.isStatic = false)
      (hc : c.isFinal = true) : AdviceOffends s r c m ⟨.finalClassProxy, c.name⟩

/-- What a method does wrong. -/
inductive Offends (s : Strategy) (r : Registry) (c : ClassModel) (m : MethodModel) :
    Violation → Prop
  | staticCallback (hm : m.IsCallback) (hs : m.isStatic = true)
      (hx : m.isExplicitlyExecutable = false) :
      Offends s r c m ⟨.staticNotExecutable, m.member.description⟩
  | hiddenCallback (hm : m.IsCallback) (hs : m.isStatic = true)
      (hx : m.isExplicitlyExecutable = true) (ha : m.member.isAccessibleFrom c = false) :
      Offends s r c m ⟨.inaccessibleMethod, m.member.description⟩
  | hiddenAdapter (hm : ¬m.IsCallback) (he : ¬m.Exempt r)
      (had : m.capabilities.Carries r Marker.adapter) (hs : m.isStatic = true)
      (ha : m.member.isAccessibleFrom c = false) :
      Offends s r c m ⟨.inaccessibleMethod, m.member.description⟩
  | advised {v : Violation} (hm : ¬m.IsCallback) (he : ¬m.Exempt r)
      (had : ¬m.capabilities.Carries r Marker.adapter) (ha : m.Advised s r c)
      (hv : AdviceOffends s r c m v) : Offends s r c m v
  | hiddenExecutable (hm : ¬m.IsCallback) (he : ¬m.Exempt r)
      (had : ¬m.capabilities.Carries r Marker.adapter)
      (hp : ¬m.Advised s r c ∨ m.PassedOver s r c)
      (hx : m.capabilities.Carries r Marker.executable) (ha : m.member.isAccessibleFrom c = false) :
      Offends s r c m ⟨.inaccessibleExecutable, m.member.description⟩

/-! ## Decisions about methods -/

theorem checkStatic_eq_error {c : ClassModel} {m : MethodModel} {v : Violation} :
    checkStatic c m = .error v ↔ m.isStatic = true ∧
      ((m.isExplicitlyExecutable = false ∧ v = ⟨.staticNotExecutable, m.member.description⟩) ∨
        (m.isExplicitlyExecutable = true ∧ m.member.isAccessibleFrom c = false ∧
          v = ⟨.inaccessibleMethod, m.member.description⟩)) := by
  unfold checkStatic
  cases m.isStatic <;> cases m.isExplicitlyExecutable <;> cases m.member.isAccessibleFrom c <;>
    simp [eq_comm]

theorem decideMethod_eq_error {s : Strategy} {c : ClassModel} {m : MethodModel} {v : Violation} :
    decideMethod s c m = .error v ↔
      if m.capabilities.hasDeclaredMarker Marker.postConstruct ||
          m.capabilities.hasDeclaredMarker Marker.preDestroy then checkStatic c m = .error v
      else if !m.isStatic && m.capabilities.hasDeclaredStereotype Marker.inject then False
      else if m.isStatic && !m.isExplicitlyExecutable then False
      else if m.capabilities.hasStereotype Marker.adapter then checkStatic c m = .error v
      else judgeAdvice s c m = .error v ∨
        (judgeAdvice s c m = .ok true ∧ checkProxyable c = .error v) ∨
        (judgeAdvice s c m = .ok false ∧ judgeExposure s c m = .error v) := by
  unfold decideMethod judgeMethod
  dsimp only
  split
  · cases checkStatic c m <;> simp [bind, Except.bind, pure, Except.pure]
  · split
    · simp [bind, Except.bind, pure, Except.pure]
    · split
      · simp [bind, Except.bind, pure, Except.pure]
      · split
        · cases checkStatic c m <;> simp [bind, Except.bind, pure, Except.pure]
        · cases judgeAdvice s c m with
          | error w => simp [bind, Except.bind]
          | ok b =>
              cases b with
              | true => cases checkProxyable c <;> simp [bind, Except.bind, pure, Except.pure]
              | false =>
                  cases judgeExposure s c m with
                  | error w => simp [bind, Except.bind]
                  | ok b => cases b <;> simp [bind, Except.bind, pure, Except.pure]

/-! ## Decisions about resolved methods -/

section Resolved

variable {s : Strategy} {r : Registry} {c : ClassModel} {m : MethodModel} {v : Violation} {t : String}

theorem hasStereotype_resolve :
    (m.resolve r).capabilities.hasStereotype t = true ↔ m.capabilities.Carries r t :=
  (CapabilitySet.coherent_resolve r m.capabilities).hasStereotype_iff

theorem hasDeclaredStereotype_resolve :
    (m.resolve r).capabilities.hasDeclaredStereotype t = true ↔ m.capabilities.DeclaredCarries r t :=
  (CapabilitySet.coherent_resolve r m.capabilities).hasDeclaredStereotype_iff

theorem description_resolve : (m.resolve r).member.description = m.member.description :=
  MethodModel.description_of_bare (m.bare_resolve r)

theorem classAdvice_iff : classAdvice s m = true ↔ m.ClassAdvised s := by
  simp [classAdvice, MethodModel.ClassAdvised]

theorem judgeAdvice_resolve :
    judgeAdvice s (c.resolve r) (m.resolve r) =
      if ¬m.Advised s r c then .ok false
      else if m.Fixed c then
        if m.capabilities.DeclaredCarries r Marker.around then
          .error ⟨.finalAdvisedMethod, m.member.description⟩
        else if m.ClassAdvised s ∧ m.member.isDeclaredOn c = true then
          .error ⟨.finalInheritedAdvice, m.member.description⟩
        else .ok false
      else if m.visibility = .priv then .error ⟨.privateAdvisedMethod, m.member.description⟩
      else if m.isStatic = true then .error ⟨.staticAdvisedMethod, m.member.description⟩
      else .ok true := by
  have hadvised : (!isAdvised s (c.resolve r) (m.resolve r)) = true ↔ ¬m.Advised s r c := by
    have hclass : classAdvice s (m.resolve r) = true ↔ m.ClassAdvised s := classAdvice_iff
    have habstract : (c.resolve r).isAbstract = c.isAbstract := rfl
    simp only [isAdvised, MethodModel.declaresAdvice, MethodModel.Advised, Bool.not_eq_true',
      ← Bool.not_eq_true, Bool.or_eq_true, Bool.and_eq_true, hclass, hasStereotype_resolve,
      hasDeclaredStereotype_resolve, habstract, or_assoc]
  have hfixed : ((m.resolve r).isFinal ||
      ((c.resolve r).isFinal && (m.resolve r).member.isDeclaredOn (c.resolve r))) = true ↔
        m.Fixed c := by
    rw [Bool.or_eq_true, Bool.and_eq_true]
    rfl
  have hinherited : (classAdvice s (m.resolve r) &&
      (m.resolve r).member.isDeclaredOn (c.resolve r)) = true ↔
        m.ClassAdvised s ∧ m.member.isDeclaredOn c = true := by
    rw [Bool.and_eq_true]
    exact and_congr_left' classAdvice_iff
  unfold judgeAdvice
  simp only [hadvised, hfixed, hinherited, MethodModel.declaresAdvice,
    hasDeclaredStereotype_resolve, description_resolve, beq_iff_eq]
  rfl

theorem judgeAdvice_eq_false :
    judgeAdvice s (c.resolve r) (m.resolve r) = .ok false ↔
      ¬m.Advised s r c ∨ m.PassedOver s r c := by
  rw [judgeAdvice_resolve, MethodModel.PassedOver]
  by_cases ha : m.Advised s r c
  · by_cases hf : m.Fixed c
    · by_cases hd : m.capabilities.DeclaredCarries r Marker.around
      · simp [ha, hf, hd]
      · by_cases hc : m.ClassAdvised s ∧ m.member.isDeclaredOn c = true
        · simp [ha, hf, hd, hc]
        · simp [ha, hf, hd, hc]
    · by_cases hv : m.visibility = .priv
      · simp [ha, hf, hv]
      · by_cases hs : m.isStatic = true <;> simp [ha, hf, hv, hs]
  · simp [ha]

theorem adviceOffends_iff :
    (judgeAdvice s (c.resolve r) (m.resolve r) = .error v ∨
        (judgeAdvice s (c.resolve r) (m.resolve r) = .ok true ∧
          checkProxyable (c.resolve r) = .error v)) ↔
      m.Advised s r c ∧ AdviceOffends s r c m v := by
  have hfinal : (c.resolve r).isFinal = c.isFinal := rfl
  have hname : (c.resolve r).name = c.name := rfl
  rw [judgeAdvice_resolve, Pass.checkProxyable_eq_error, hfinal, hname]
  constructor
  · rintro (h | ⟨h, hc, rfl⟩)
    · split_ifs at h with ha hf hd hi hv hs
      · cases h
        exact ⟨ha, .finalAdvised hf hd⟩
      · cases h
        exact ⟨ha, .finalInherited hf hd hi.1 hi.2⟩
      · cases h
        exact ⟨ha, .privateAdvised hf hv⟩
      · cases h
        exact ⟨ha, .staticAdvised hf hv hs⟩
    · split_ifs at h with ha hf hd hi hv hs
      · cases h
      · exact ⟨ha, .finalClass hf hv (Bool.eq_false_iff.2 hs) hc⟩
      · cases h
  · rintro ⟨ha, hv⟩
    cases hv with
    | finalAdvised hf hd => simp [ha, hf, hd]
    | finalInherited hf hd hs hc => simp [ha, hf, hd, hs, hc]
    | privateAdvised hf hv => simp [ha, hf, hv]
    | staticAdvised hf hv hs => simp [ha, hf, hv, hs]
    | finalClass hf hv hs hc => simp [ha, hf, hv, hs, hc]

theorem judgeExposure_eq_error :
    judgeExposure s (c.resolve r) (m.resolve r) = .error v ↔
      m.capabilities.Carries r Marker.executable ∧ m.member.isAccessibleFrom c = false ∧
        v = ⟨.inaccessibleExecutable, m.member.description⟩ := by
  have ha : (m.resolve r).member.isAccessibleFrom (c.resolve r) = m.member.isAccessibleFrom c := rfl
  unfold judgeExposure
  by_cases hx : m.capabilities.Carries r Marker.executable
  · have hs := hasStereotype_resolve.2 hx
    cases hacc : m.member.isAccessibleFrom c <;>
      simp [Effective.hasStereotype, hs, ha, hacc, hx, description_resolve, eq_comm]
  · have hs := Bool.eq_false_iff.2 (mt hasStereotype_resolve.1 hx)
    simp only [hs, hx, false_and, iff_false]
    split
    · simp
    · simp only [Bool.false_eq_true, if_false]
      split <;> simp

theorem isCallback_resolve :
    ((m.resolve r).capabilities.hasDeclaredMarker Marker.postConstruct ||
      (m.resolve r).capabilities.hasDeclaredMarker Marker.preDestroy) = true ↔ m.IsCallback := by
  rw [Bool.or_eq_true]
  rfl

theorem injected_resolve :
    (!(m.resolve r).isStatic &&
      (m.resolve r).capabilities.hasDeclaredStereotype Marker.inject) = true ↔
        m.isStatic = false ∧ m.capabilities.DeclaredCarries r Marker.inject := by
  rw [Bool.and_eq_true, hasDeclaredStereotype_resolve, Bool.not_eq_true']
  rfl

theorem unlisted_resolve :
    ((m.resolve r).isStatic && !(m.resolve r).isExplicitlyExecutable) = true ↔
      m.isStatic = true ∧ m.isExplicitlyExecutable = false := by
  rw [Bool.and_eq_true, Bool.not_eq_true']
  rfl

theorem offends_iff :
    decideMethod s (c.resolve r) (m.resolve r) = .error v ↔ Offends s r c m v := by
  have hstatic : checkStatic (c.resolve r) (m.resolve r) = .error v ↔ m.isStatic = true ∧
      ((m.isExplicitlyExecutable = false ∧ v = ⟨.staticNotExecutable, m.member.description⟩) ∨
        (m.isExplicitlyExecutable = true ∧ m.member.isAccessibleFrom c = false ∧
          v = ⟨.inaccessibleMethod, m.member.description⟩)) := by
    rw [checkStatic_eq_error, description_resolve]
    rfl
  rw [decideMethod_eq_error]
  simp only [isCallback_resolve, injected_resolve, unlisted_resolve, hasStereotype_resolve, hstatic,
    judgeAdvice_eq_false, judgeExposure_eq_error]
  rw [← or_assoc, adviceOffends_iff]
  constructor
  · intro h
    split_ifs at h with hm hi hu had
    · obtain ⟨hs, ⟨hx, rfl⟩ | ⟨hx, ha, rfl⟩⟩ := h
      · exact .staticCallback hm hs hx
      · exact .hiddenCallback hm hs hx ha
    · obtain ⟨hs, ⟨hx, rfl⟩ | ⟨hx, ha, rfl⟩⟩ := h
      · exact absurd ⟨hs, hx⟩ hu
      · exact .hiddenAdapter hm (not_or.2 ⟨hi, hu⟩) had hs ha
    · rcases h with ⟨ha, hv⟩ | ⟨hp, hx, ha, rfl⟩
      · exact .advised hm (not_or.2 ⟨hi, hu⟩) had ha hv
      · exact .hiddenExecutable hm (not_or.2 ⟨hi, hu⟩) had hp hx ha
  · intro h
    cases h with
    | staticCallback hm hs hx =>
        rw [if_pos hm]
        exact ⟨hs, Or.inl ⟨hx, rfl⟩⟩
    | hiddenCallback hm hs hx ha =>
        rw [if_pos hm]
        exact ⟨hs, Or.inr ⟨hx, ha, rfl⟩⟩
    | hiddenAdapter hm he had hs ha =>
        obtain ⟨hi, hu⟩ := not_or.1 he
        rw [if_neg hm, if_neg hi, if_neg hu, if_pos had]
        have hx : m.isExplicitlyExecutable = true := eq_true_of_ne_false fun hx => hu ⟨hs, hx⟩
        exact ⟨hs, Or.inr ⟨hx, ha, rfl⟩⟩
    | advised hm he had ha hv =>
        obtain ⟨hi, hu⟩ := not_or.1 he
        rw [if_neg hm, if_neg hi, if_neg hu, if_neg had]
        exact Or.inl ⟨ha, hv⟩
    | hiddenExecutable hm he had hp hx ha =>
        obtain ⟨hi, hu⟩ := not_or.1 he
        rw [if_neg hm, if_neg hi, if_neg hu, if_neg had]
        exact Or.inr ⟨hp, hx, ha, rfl⟩

theorem deriveValidated_resolve : (m.resolve r).deriveValidated r = (m.validated r).resolve r := by
  have hneeds := hasStereotype_resolve (r := r) (m := m) (t := Marker.requiresValidation)
  unfold MethodModel.deriveValidated MethodModel.validated
  by_cases hr : m.capabilities.Carries r Marker.requiresValidation
  · have hn := hneeds.2 hr
    rw [if_pos hr]
    -- A mark that is written already is not derived, and would change nothing.
    by_cases hv : (m.resolve r).capabilities.hasDeclaredMarker Marker.validated = true
    · have hmark : CapabilitySet.mark m.capabilities.declared Marker.validated =
          m.capabilities.declared := CapabilitySet.mark_eq_self hv
      rw [if_neg (by simp [hv])]
      simp only [MethodModel.resolve, CapabilitySet.resolve, CapabilitySet.withDeclared, hmark]
    · rw [if_pos (by simp [hn, hv])]
      rfl
  · have hn := Bool.eq_false_iff.2 (mt hneeds.1 hr)
    rw [if_neg hr, if_neg (by simp [hn])]

theorem violation?_seen :
    (Candidate.seen r (.method m)).violation? s (c.resolve r) = some v ↔
      Offends s r c (m.validated r) v := by
  rw [← offends_iff, ← deriveValidated_resolve]
  simp only [Candidate.seen, Candidate.violation?]
  split
  · rename_i w hw
    simp [hw]
  · rename_i j hj
    simp [hj]

end Resolved

/-! ## Builds -/

/-- The first method, in the order of classification, that does something wrong. -/
def FirstOffence (s : Setting) (c : ClassModel) (v : Violation) : Prop :=
  ∃ pre m post, c.candidates s.strategy = pre ++ .method m :: post ∧
    Offends s.strategy s.registry c (m.validated s.registry) v ∧
    ∀ m', .method m' ∈ pre → ∀ w, ¬Offends s.strategy s.registry c (m'.validated s.registry) w

variable {s : Setting} {c : ClassModel} {v : Violation}

theorem violation?_eq_none {x : Candidate} :
    (x.seen s.registry).violation? s.strategy (c.resolve s.registry) = none ↔
      ∀ m, x = .method m → ∀ w, ¬Offends s.strategy s.registry c (m.validated s.registry) w := by
  cases x with
  | field f => simp [Candidate.seen, Candidate.violation?]
  | method m =>
      simp only [Candidate.method.injEq, forall_eq', ← violation?_seen,
        Option.eq_none_iff_forall_ne_some]

theorem firstViolation?_eq_some : firstViolation? s c = some v ↔ FirstOffence s c v := by
  rw [firstViolation?, List.findSome?_map, List.findSome?_eq_some_iff]
  constructor
  · rintro ⟨pre, x, post, hl, hx, hpre⟩
    cases x with
    | field f => simp [Candidate.seen, Candidate.violation?] at hx
    | method m =>
        refine ⟨pre, m, post, hl, violation?_seen.1 hx, fun m' hm' => ?_⟩
        exact violation?_eq_none.1 (hpre _ hm') m' rfl
  · rintro ⟨pre, m, post, hl, hm, hpre⟩
    refine ⟨pre, .method m, post, hl, violation?_seen.2 hm, fun x hx => ?_⟩
    exact violation?_eq_none.2 fun m' hm' => hpre m' (hm' ▸ hx)

theorem exists_firstOffence :
    (∃ v, FirstOffence s c v) ↔ ∃ m v, .method m ∈ c.candidates s.strategy ∧
      Offends s.strategy s.registry c (m.validated s.registry) v := by
  constructor
  · rintro ⟨v, pre, m, post, hl, hm, _⟩
    exact ⟨m, v, by simp [hl], hm⟩
  · rintro ⟨m, v, hl, hm⟩
    cases hf : firstViolation? s c with
    | some w => exact ⟨w, firstViolation?_eq_some.1 hf⟩
    | none =>
        rw [firstViolation?, List.findSome?_map, List.findSome?_eq_none_iff] at hf
        exact absurd hm (violation?_eq_none.1 (hf _ hl) m rfl v)

/-- A class is rejected just if it is to be proxied as a whole and is final, which leaves its methods
unmarked, or if some method does something wrong; the first one that does tells the violation. -/
theorem build_rejects (hh : s.strategy.handler = .noop ∨ s.strategy.handler = .configuration) :
    ((∃ v, (build s c).result = .error v) ↔
      (s.strategy.alwaysProxies = true ∧ c.isFinal = true) ∨
        ∃ m v, .method m ∈ c.candidates s.strategy ∧
          Offends s.strategy s.registry c (m.validated s.registry) v) ∧
      (∀ v, (build s c).result = .error v ↔
        (s.strategy.alwaysProxies = true ∧ c.isFinal = true ∧ v = ⟨.finalClassProxy, c.name⟩) ∨
          (¬(s.strategy.alwaysProxies = true ∧ c.isFinal = true) ∧ FirstOffence s c v)) ∧
      (s.strategy.alwaysProxies = true → c.isFinal = true →
        (build s c).model = c.resolve s.registry) := by
  have ht : s.strategy.handler.Total := (PropertyHandler.plain_of_either hh).total
  have herror (v : Violation) := build_eq_error (s := s) (c := c) (fun _ => ht) (v := v)
  simp only [firstViolation?_eq_some] at herror
  refine ⟨?_, herror, model_build_of_final⟩
  rw [← exists_firstOffence]
  simp only [herror]
  by_cases hf : s.strategy.alwaysProxies = true ∧ c.isFinal = true
  · simp [hf.1, hf.2]
  · constructor
    · rintro ⟨v, ⟨ha, hc, _⟩ | ⟨_, hv⟩⟩
      · exact Or.inl ⟨ha, hc⟩
      · exact Or.inr ⟨v, hv⟩
    · rintro (h | ⟨v, hv⟩)
      · exact absurd h hf
      · exact ⟨v, Or.inr ⟨hf, hv⟩⟩

theorem build_rejects_of_static_callback :
    let c : ClassModel :=
      { name := "app.Service"
        methods := [{ name := "open", declaringType := "app.Service", isStatic := true
                      capabilities := CapabilitySet.empty.withDeclared Marker.preDestroy }] }
    (build {} c).result = .error ⟨.staticNotExecutable, "app.Service#open()"⟩ ∧
      FirstOffence {} c ⟨.staticNotExecutable, "app.Service#open()"⟩ := by
  intro c
  have h : (build {} c).result = .error ⟨.staticNotExecutable, "app.Service#open()"⟩ := rfl
  rcases ((build_rejects (s := {}) (c := c) (Or.inl rfl)).2.1 _).1 h with ⟨ha, _⟩ | ⟨_, hv⟩
  · cases ha
  · exact ⟨h, hv⟩

end Wiring
