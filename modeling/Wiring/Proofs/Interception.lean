import Wiring.Proofs.Rejection

/-!
# Interception

What a method becomes is what was decided about it (`Course.decided`). A method of a class that is built is
intercepted just if no rule before that of interception takes it, advice applies to it and it can be
overridden; advice that is written on a method of a concrete class is never lost (`build_intercepts`).
-/

namespace Wiring

/-! ## Verdicts and dispositions -/

/-- What a verdict comes to. -/
inductive Verdict.Becomes : Verdict → Disposition → Prop
  | unclaimed : Becomes .unclaimed .unclaimed
  | lifecycle (post pre : Bool) : Becomes (.lifecycle post pre) (.lifecycle post pre)
  | injection : Becomes .injection .methodInjection
  | adapted (n : Nat) : Becomes .adaptation (.adapter n)
  | declined : Becomes .adaptation .adapterDeclined
  | intercepted : Becomes .interception .intercepted
  | exposed : Becomes .exposure .executable

theorem Verdict.Becomes.eq_intercepted_iff {v : Verdict} {d : Disposition} (h : v.Becomes d) :
    d = .intercepted ↔ v = .interception := by
  cases h <;> simp

theorem Verdict.Becomes.isClaimed_iff {v : Verdict} {d : Disposition} (h : v.Becomes d) :
    d.isClaimed = true ↔ v ≠ .unclaimed := by
  cases h <;> simp [Disposition.isClaimed]

theorem Verdict.Becomes.eq_methodInjection_iff {v : Verdict} {d : Disposition} (h : v.Becomes d) :
    d = .methodInjection ↔ v = .injection := by
  cases h <;> simp

theorem judgeMethod_of_decideMethod {s : Strategy} {c : ClassModel} {m : MethodModel} {j : Judgement}
    (h : decideMethod s c m = .ok j) : judgeMethod s c m = .ok j := by
  obtain ⟨i, hi, h⟩ := bind_eq_ok.1 h
  by_cases hv : i.verdict = .interception
  · rw [if_pos hv] at h
    obtain ⟨_, _, h⟩ := bind_eq_ok.1 h
    cases h
    exact hi
  · rw [if_neg hv] at h
    cases h
    exact hi

namespace Pass

variable {s : Setting} {p q : Pass} {m : MethodModel} {v : Verdict} {d : Disposition}

theorem Registers.becomes (h : Registers s p m v q d) : v.Becomes d := by
  cases h with
  | unclaimed => exact .unclaimed
  | lifecycle post pre => exact .lifecycle post pre
  | injection => exact .injection
  | adapted => exact .adapted _
  | declined => exact .declined
  | intercepted => exact .intercepted
  | exposed => exact .exposed

theorem Enters.decided (h : Enters s p (.method m) d q) (hp : p.Unproxied) :
    ∃ j, decideMethod s.strategy p.model m = .ok j ∧ j.verdict.Becomes d := by
  have hnone := (h.unproxied hp).2
  cases h with
  | @method _ j q d hj hr =>
      refine ⟨j, ?_, hr.becomes⟩
      cases hd : decideMethod s.strategy p.model m with
      | error w => simp [Candidate.violation?, hd] at hnone
      | ok i =>
          have hi := judgeMethod_of_decideMethod hd
          rw [hj] at hi
          cases hi
          rfl

/-- What becomes of a method in a run was decided about it, whatever else the run goes over. -/
theorem Runs.decided {es : List (Candidate × Disposition)} (h : Runs s p es q) (hp : p.Unproxied)
    (he : (.method m, d) ∈ es) :
    ∃ j, decideMethod s.strategy p.model m = .ok j ∧ j.verdict.Becomes d := by
  induction h with
  | nil p => cases he
  | @cons p q p' l x d' es hx hes ih =>
      have hstart : ({ p with model := p.model.derive s.registry l } : Pass).Unproxied := hp
      rcases List.mem_cons.1 he with he | he
      · cases he
        exact hx.decided hstart
      · obtain ⟨j, hj, hd⟩ := ih (hx.unproxied hstart).1 he
        rw [hx.model_eq] at hj
        exact ⟨j, hj, hd⟩

end Pass

theorem Course.decided {s : Setting} {c : ClassModel} {rs : List (PropertyModel × Disposition)}
    {es : List (Candidate × Disposition)} {p q : Pass} (h : Course s c rs es p q) {m : MethodModel}
    {d : Disposition} (he : (.method m, d) ∈ es) :
    ∃ j, decideMethod s.strategy (c.resolve s.registry) m = .ok j ∧ j.verdict.Becomes d := by
  have hp := Pass.unproxied_of_reads h.notFinal h.properties h.reads
  obtain ⟨js, _, hm⟩ := Pass.model_of_reads h.properties h.reads
  obtain ⟨j, hj, hd⟩ := h.runs.decided hp he
  rw [hm] at hj
  exact ⟨j, hj, hd⟩

/-! ## The verdict of interception -/

namespace MethodModel

variable (s : Strategy) (r : Registry) (c : ClassModel) (m : MethodModel)

/-- No rule before that of interception takes the method. -/
def ReachesAdvice : Prop :=
  ¬m.IsCallback ∧ ¬m.Exempt r ∧ ¬m.capabilities.Carries r Marker.adapter

instance : Decidable (m.ReachesAdvice r) := inferInstanceAs (Decidable (_ ∧ _))

/-- Advice is to be applied to the method, which can be overridden. -/
structure Intercepts : Prop where
  reaches : m.ReachesAdvice r
  advised : m.Advised s r c
  overridable : ¬m.Fixed c

/-- Being marked as validated changes the markers of a method only. -/
theorem validated_eq : m.validated r = { m with capabilities := (m.validated r).capabilities } := by
  unfold validated
  split <;> rfl

end MethodModel

section Resolved

variable {s : Strategy} {r : Registry} {c : ClassModel} {m : MethodModel} {j : Judgement}

theorem judgeMethod_interception (h : judgeMethod s (c.resolve r) (m.resolve r) = .ok j) :
    j.verdict = .interception ↔
      m.ReachesAdvice r ∧ judgeAdvice s (c.resolve r) (m.resolve r) = .ok true := by
  simp only [judgeMethod, isCallback_resolve, injected_resolve, unlisted_resolve,
    hasStereotype_resolve] at h
  split_ifs at h with hm hi hu had
  · obtain ⟨_, _, h⟩ := bind_eq_ok.1 h
    cases h
    simp [MethodModel.ReachesAdvice, hm]
  · cases h
    simp [MethodModel.ReachesAdvice, MethodModel.Exempt, hi]
  · cases h
    simp [MethodModel.ReachesAdvice, MethodModel.Exempt, hu]
  · obtain ⟨_, _, h⟩ := bind_eq_ok.1 h
    cases h
    simp [MethodModel.ReachesAdvice, had]
  · have hreaches : m.ReachesAdvice r := ⟨hm, not_or.2 ⟨hi, hu⟩, had⟩
    obtain ⟨b, hb, h⟩ := bind_eq_ok.1 h
    rw [hb]
    cases b with
    | true =>
        cases h
        simp [hreaches]
    | false =>
        obtain ⟨b, _, h⟩ := bind_eq_ok.1 h
        cases b <;> cases h <;> simp

theorem judgeAdvice_eq_true (h : judgeAdvice s (c.resolve r) (m.resolve r) = .ok true) :
    m.Advised s r c ∧ ¬m.Fixed c := by
  rw [judgeAdvice_resolve] at h
  split_ifs at h with ha hf hd hi hv hs
  · cases h
  · exact ⟨ha, hf⟩
  · cases h

/-- About a method that is decided on, nothing is wrong. -/
theorem sound_of_decided (h : decideMethod s (c.resolve r) (m.resolve r) = .ok j) {v : Violation} :
    ¬Offends s r c m v := by
  intro hv
  rw [offends_iff.2 hv] at h
  cases h

/-- Advice that applies to a method without fault finds no fault with it either. -/
theorem adviceSound_of_decided (h : decideMethod s (c.resolve r) (m.resolve r) = .ok j)
    (hr : m.ReachesAdvice r) (ha : m.Advised s r c) {v : Violation} : ¬AdviceOffends s r c m v :=
  fun hv => sound_of_decided h (.advised hr.1 hr.2.1 hr.2.2 ha hv)

theorem visible_of_intercepts (h : decideMethod s (c.resolve r) (m.resolve r) = .ok j)
    (hm : m.Intercepts s r c) : m.visibility ≠ .priv ∧ m.isStatic = false ∧ c.isFinal = false := by
  have hsound {v : Violation} := adviceSound_of_decided h hm.reaches hm.advised (v := v)
  have hvisible : m.visibility ≠ .priv := fun hv => hsound (.privateAdvised hm.overridable hv)
  have hinstance : m.isStatic = false :=
    eq_false_of_ne_true fun hs => hsound (.staticAdvised hm.overridable hvisible hs)
  exact ⟨hvisible, hinstance,
    eq_false_of_ne_true fun hc => hsound (.finalClass hm.overridable hvisible hinstance hc)⟩

theorem interception_iff (h : decideMethod s (c.resolve r) (m.resolve r) = .ok j) :
    j.verdict = .interception ↔ m.Intercepts s r c := by
  rw [judgeMethod_interception (judgeMethod_of_decideMethod h)]
  constructor
  · rintro ⟨hr, hadvice⟩
    obtain ⟨ha, hf⟩ := judgeAdvice_eq_true hadvice
    exact ⟨hr, ha, hf⟩
  · intro hm
    obtain ⟨hvisible, hinstance, _⟩ := visible_of_intercepts h hm
    refine ⟨hm.reaches, ?_⟩
    rw [judgeAdvice_resolve, if_neg (not_not_intro hm.advised), if_neg hm.overridable,
      if_neg hvisible, if_neg (by simp [hinstance])]

/-- Advice that is written on a method of a concrete class applies, and the method is not final. -/
theorem intercepts_of_declared (h : decideMethod s (c.resolve r) (m.resolve r) = .ok j)
    (hr : m.ReachesAdvice r) (hd : m.capabilities.DeclaredCarries r Marker.around)
    (hc : c.isAbstract = false) : m.Intercepts s r c := by
  have ha : m.Advised s r c := Or.inr (Or.inr ⟨hd, hc⟩)
  exact ⟨hr, ha, fun hf => adviceSound_of_decided h hr ha (.finalAdvised hf hd)⟩

end Resolved

/-! ## Builds -/

/-- Of a class that is built, a method is intercepted just if no rule before that of interception takes
it, advice applies to it and it is not final, nor declared on a final class. Such a method is neither
private nor static, and its class is not final. Advice written on a method of a concrete class is applied
as soon as no rule before takes the method. -/
theorem build_intercepts {s : Setting} {c : ClassModel} {set : PlanSet}
    (h : (build s c).result = .ok set) :
    ∃ rs es, set.Tells s.strategy c rs es ∧ ∀ m d, (.method m, d) ∈ es →
      (d = .intercepted ↔ (m.validated s.registry).Intercepts s.strategy s.registry c) ∧
      (d = .intercepted → m.isFinal = false ∧ m.visibility ≠ .priv ∧ m.isStatic = false ∧
        c.isFinal = false) ∧
      (c.isAbstract = false → (m.validated s.registry).ReachesAdvice s.registry →
        (m.validated s.registry).capabilities.DeclaredCarries s.registry Marker.around →
        d = .intercepted) := by
  obtain ⟨rs, es, p, q, hcourse, rfl⟩ := build_ok h
  obtain ⟨xs, ys, htells, rfl, rfl⟩ := hcourse.tells
  refine ⟨xs, ys, htells, fun m d he => ?_⟩
  obtain ⟨j, hj, hd⟩ := hcourse.decided
    (m := (m.resolve s.registry).deriveValidated s.registry) (List.mem_map_of_mem he)
  rw [deriveValidated_resolve] at hj
  have hiff := hd.eq_intercepted_iff.trans (interception_iff hj)
  refine ⟨hiff, fun hd => ?_, fun hc hr ha => hiff.2 (intercepts_of_declared hj hr ha hc)⟩
  have hm := hiff.1 hd
  obtain ⟨hvisible, hinstance, hc⟩ := visible_of_intercepts hj hm
  have hfinal : (m.validated s.registry).isFinal = false :=
    eq_false_of_ne_true fun hf => hm.overridable (Or.inl hf)
  rw [m.validated_eq s.registry] at hvisible hinstance hfinal
  exact ⟨hfinal, hvisible, hinstance, hc⟩

theorem build_intercepts_of_final_inherited :
    let run : MethodModel :=
      { name := "run", declaringType := "app.Service"
        capabilities := CapabilitySet.empty.withDeclared Marker.around }
    let stop : MethodModel :=
      { name := "stop", declaringType := "app.Service", isFinal := true
        capabilities := CapabilitySet.empty.withInherited Marker.around }
    let c : ClassModel := { name := "app.Service", methods := [run, stop] }
    ∃ set, (build {} c).result = .ok set ∧
      set.dispositions.map (·.disposition) = [.intercepted, .unclaimed] ∧
      ∃ rs es, set.Tells {} c rs es ∧ ∀ d, (.method run, d) ∈ es → d = .intercepted := by
  intro run stop c
  have hset : ∃ set, (build {} c).result = .ok set ∧
      set.dispositions.map (·.disposition) = [.intercepted, .unclaimed] := ⟨_, rfl, rfl⟩
  obtain ⟨set, h, hd⟩ := hset
  obtain ⟨rs, es, htells, hes⟩ := build_intercepts h
  refine ⟨set, h, hd, rs, es, htells, fun d he => ?_⟩
  exact (hes run d he).2.2 rfl (by decide) (by decide)

end Wiring
