import Wiring.Proofs.Enumeration

/-!
# Traversals

A pass that goes over positions is a run over candidates (`Pass.Runs`), each of which enters the plans
in one of a few ways (`Pass.Enters`). A run stops at the first candidate about which a violation is
decided (`Pass.visits_ok`, `Pass.visits_error`), and what is decided about a candidate depends on no
other one.
-/

namespace Wiring

section Results

variable {ε α β : Type}

theorem bind_eq_ok {x : Except ε α} {f : α → Except ε β} {b : β} :
    x >>= f = .ok b ↔ ∃ a, x = .ok a ∧ f a = .ok b := by
  cases x <;> simp [bind, Except.bind]

theorem bind_eq_error {x : Except ε α} {f : α → Except ε β} {e : ε} :
    x >>= f = .error e ↔ x = .error e ∨ ∃ a, x = .ok a ∧ f a = .error e := by
  cases x <;> simp [bind, Except.bind]

theorem toOption_eq_some {x : Except ε α} {a : α} : x.toOption = some a ↔ x = .ok a := by
  cases x <;> simp [Except.toOption]

end Results

/-! ## What is decided about a candidate -/

/-- What is decided about a method, with the proxy that it calls for. -/
def decideMethod (s : Strategy) (c : ClassModel) (m : MethodModel) : Except Violation Judgement := do
  let j ← judgeMethod s c m
  if j.verdict = .interception then checkProxyable c
  return j

namespace Candidate

/-- The violation that is decided about a candidate. -/
def violation? (s : Strategy) (c : ClassModel) : Candidate → Option Violation
  | .field _ => none
  | .method m =>
    match decideMethod s c m with
    | .error v => some v
    | .ok _ => none

def isProcessed (s : Strategy) (c : ClassModel) : Candidate → Bool
  | .field _ => false
  | .method m =>
    match judgeMethod s c m with
    | .error _ => false
    | .ok j => j.processed

end Candidate

theorem demandProxy_some (w : Weaver) (c : ClassModel) (main : Plan) (b : Bool)
    (t : Option MethodModel) (proxy : Plan) : demandProxy w c main b t (some proxy) = .ok proxy := rfl

def newProxy (w : Weaver) (c : ClassModel) (main : Plan) (alwaysProxies : Bool)
    (trigger : Option MethodModel) : Plan :=
  ((w.proxyPlan c main (proxyAdvice c alwaysProxies trigger)).withShape c).withSuperBean main.name

theorem demandProxy_none (w : Weaver) (c : ClassModel) (main : Plan) (b : Bool)
    (t : Option MethodModel) :
    demandProxy w c main b t none = (checkProxyable c).map fun _ => newProxy w c main b t := by
  unfold demandProxy newProxy
  cases checkProxyable c <;> rfl

namespace Pass

/-! ## Recording -/

section Recording

variable (p : Pass) (k : MemberKind) (m : Member) (d : Disposition) (typeName : String)

@[simp] theorem model_originate : (p.originate d typeName).model = p.model := by
  unfold originate; split <;> rfl

@[simp] theorem adapters_originate : (p.originate d typeName).adapters = p.adapters := by
  unfold originate; split <;> rfl

@[simp] theorem dispositions_originate :
    (p.originate d typeName).dispositions = p.dispositions := by
  unfold originate; split <;> rfl

@[simp] theorem model_record : (p.record k m d).model = p.model := by
  unfold record note; split <;> simp

@[simp] theorem adapters_record : (p.record k m d).adapters = p.adapters := by
  unfold record note; split <;> simp

@[simp] theorem dispositions_record :
    (p.record k m d).dispositions = p.dispositions ++ [⟨k, m.description, d⟩] := by
  unfold record note; split <;> simp

theorem main_record :
    (p.record k m d).main =
      if d.isClaimed = true ∧ m.isDeclaredOn p.model = false ∧ (d = .intercepted → p.proxy = none)
      then p.main.addOriginating m.declaringType else p.main := by
  unfold record note originate
  cases hm : m.isDeclaredOn p.model <;> cases d <;> cases hp : p.proxy <;>
    simp [Disposition.isClaimed]

theorem proxy_record :
    (p.record k m d).proxy = p.proxy.map fun proxy =>
      if d = .intercepted ∧ m.isDeclaredOn p.model = false
      then proxy.addOriginating m.declaringType else proxy := by
  unfold record note originate
  cases hm : m.isDeclaredOn p.model <;> cases d <;> cases hp : p.proxy <;>
    simp [Disposition.isClaimed, hp]

end Recording

/-! ## Steps -/

def flagged (p : Pass) (processed : Bool) : Pass :=
  if processed then { p with main := p.main.withMethodProcessing true } else p

section Flagging

variable (p : Pass) (b : Bool)

@[simp] theorem model_flagged : (p.flagged b).model = p.model := by
  cases b <;> rfl

@[simp] theorem proxy_flagged : (p.flagged b).proxy = p.proxy := by
  cases b <;> rfl

@[simp] theorem adapters_flagged : (p.flagged b).adapters = p.adapters := by
  cases b <;> rfl

@[simp] theorem dispositions_flagged : (p.flagged b).dispositions = p.dispositions := by
  cases b <;> rfl

end Flagging

theorem visitMethod_eq (s : Setting) (p : Pass) (m : MethodModel) :
    p.visitMethod s m = judgeMethod s.strategy p.model m >>= fun j =>
      (p.flagged j.processed).register s m j.verdict >>= fun e =>
        .ok (e.1.record .method m.member e.2) := rfl

/-- How a method enters the plans, by what it is to be. -/
inductive Registers (s : Setting) (p : Pass) (m : MethodModel) :
    Verdict → Pass → Disposition → Prop
  | unclaimed : Registers s p m .unclaimed p .unclaimed
  | lifecycle (post pre : Bool) {main main' : Plan}
      (hpost : main = if post then p.main.addPostConstruct m (m.member.requiresReflection p.model)
        else p.main)
      (hpre : main' = if pre then main.addPreDestroy m (m.member.requiresReflection p.model)
        else main) :
      Registers s p m (.lifecycle post pre) { p with main := main' } (.lifecycle post pre)
  | injection :
      Registers s p m .injection
        { p with main := p.main.addMethodInjection m (m.member.requiresReflection p.model) }
        .methodInjection
  | adapted {plan : Plan} (h : s.weaver.adapterPlan p.model m p.adapters.length = some plan) :
      Registers s p m .adaptation
        { p with main := p.main.addExecutable m, adapters := p.adapters ++ [plan] }
        (.adapter p.adapters.length)
  | declined (h : s.weaver.adapterPlan p.model m p.adapters.length = none) :
      Registers s p m .adaptation p .adapterDeclined
  | intercepted {proxy : Plan}
      (h : demandProxy s.weaver p.model p.main s.strategy.alwaysProxies (some m) p.proxy =
        .ok proxy) :
      Registers s p m .interception
        { p with
          proxy := some (s.weaver.interceptMethod proxy p.model m
            (interceptorBindings s.registry p.model m)) }
        .intercepted
  | exposed :
      Registers s p m .exposure { p with main := p.main.addExecutable m } .executable

theorem registers_of_register {s : Setting} {p q : Pass} {m : MethodModel} {v : Verdict}
    {d : Disposition} (h : p.register s m v = .ok (q, d)) : Registers s p m v q d := by
  cases v with
  | unclaimed => cases h; exact .unclaimed
  | lifecycle post pre => cases h; exact .lifecycle post pre rfl rfl
  | injection => cases h; exact .injection
  | adaptation =>
      simp only [register, synthesizeAdapter] at h
      cases ha : s.weaver.adapterPlan p.model m p.adapters.length with
      | none => simp only [ha, Option.map_none] at h; cases h; exact .declined ha
      | some plan => simp only [ha, Option.map_some] at h; cases h; exact .adapted ha
  | interception =>
      obtain ⟨proxy, hproxy, h⟩ := bind_eq_ok.1 h
      cases h
      exact .intercepted hproxy
  | exposure => cases h; exact .exposed

/-- How a candidate enters the plans and what becomes of it. -/
inductive Enters (s : Setting) (p : Pass) : Candidate → Disposition → Pass → Prop
  | field (f : FieldModel) : Enters s p (.field f) (judgeField f) (p.visitField s f)
  | method {m : MethodModel} {j : Judgement} {q : Pass} {d : Disposition}
      (hj : judgeMethod s.strategy p.model m = .ok j)
      (hr : Registers s (p.flagged j.processed) m j.verdict q d) :
      Enters s p (.method m) d (q.record .method m.member d)

theorem enters_of_visitMethod {s : Setting} {p q : Pass} {m : MethodModel}
    (h : p.visitMethod s m = .ok q) : ∃ d, Enters s p (.method m) d q := by
  obtain ⟨j, hj, h⟩ := bind_eq_ok.1 h
  obtain ⟨⟨q', d⟩, hr, h⟩ := bind_eq_ok.1 h
  cases h
  exact ⟨d, .method hj (registers_of_register hr)⟩

/-! ## Positions -/

end Pass

def MemberSlot.method? : MemberSlot → Option Nat
  | .field _ => none
  | .method i => some i

namespace ClassModel

/-- The class with the methods at some positions marked as validated if they require it. -/
def derive (c : ClassModel) (r : Registry) (l : List MemberSlot) : ClassModel :=
  c.modifyMethods (·.deriveValidated r) (l.filterMap MemberSlot.method?)

theorem derive_append (c : ClassModel) (r : Registry) (l k : List MemberSlot) :
    c.derive r (l ++ k) = (c.derive r l).derive r k := by
  simp [derive, modifyMethods_append]

/-- Which methods are marked counts, not in which order. -/
theorem derive_congr (c : ClassModel) (r : Registry) {l k : List MemberSlot}
    (h : ∀ slot, slot ∈ l ↔ slot ∈ k) : c.derive r l = c.derive r k := by
  have hidem (m : MethodModel) : (m.deriveValidated r).deriveValidated r = m.deriveValidated r :=
    m.deriveValidated_deriveValidated r
  have hmethods : (c.derive r l).methods = (c.derive r k).methods := by
    apply List.ext_getElem?
    intro i
    rw [derive, derive, getElem?_modifyMethods hidem, getElem?_modifyMethods hidem]
    simp only [List.mem_filterMap, h]
  exact congrArg (fun ms => { c with methods := ms }) hmethods

theorem derived?_derive (c : ClassModel) (r : Registry) (l : List MemberSlot) (slot : MemberSlot) :
    (c.derive r l).derived? r slot = c.derived? r slot := by
  cases slot with
  | field i => rfl
  | method i =>
      have hm := getElem?_modifyMethods (c := c) (fun m => m.deriveValidated_deriveValidated r)
        (l.filterMap MemberSlot.method?) i
      simp only [derived?, derive, hm, Option.map_map]
      congr 1
      funext m
      by_cases hi : i ∈ l.filterMap MemberSlot.method?
      · simp only [Function.comp_apply, if_pos hi, MethodModel.deriveValidated_deriveValidated]
      · simp only [Function.comp_apply, if_neg hi]

theorem derive_of_derived?_eq_none {c : ClassModel} {r : Registry} {slot : MemberSlot}
    (h : c.derived? r slot = none) : c.derive r [slot] = c := by
  cases slot with
  | field i => rfl
  | method i =>
      have hi : c.methods.length ≤ i := by simpa [derived?] using h
      simp [derive, MemberSlot.method?, modifyMethods, List.modify_eq_self hi]

end ClassModel

namespace Pass

theorem visit_eq {s : Setting} {p : Pass} {slot : MemberSlot} :
    visit s p slot =
      match p.model.derived? s.registry slot with
      | none => .ok p
      | some (.field f) => .ok (p.visitField s f)
      | some (.method m) =>
        let c := p.model.derive s.registry [slot]
        (visitMethod { p with model := c } s m).mapError fun v => ⟨v, c⟩ := by
  cases slot with
  | field i =>
      cases h : p.model.fields[i]? with
      | none => simp [visit, ClassModel.derived?, h]
      | some f => simp [visit, ClassModel.derived?, h]
  | method i =>
      have hc : p.model.deriveValidated s.registry i = p.model.derive s.registry [.method i] := rfl
      cases h : p.model.methods[i]? with
      | none =>
          have hd : p.model.derived? s.registry (.method i) = none := by
            simp [ClassModel.derived?, h]
          have hm := ClassModel.derive_of_derived?_eq_none hd
          simp only [visit, hc, hm, h, hd]
      | some m =>
          have hm : (p.model.derive s.registry [.method i]).methods[i]? =
              some (m.deriveValidated s.registry) := by
            simp [ClassModel.derive, MemberSlot.method?, ClassModel.modifyMethods, h]
          simp only [visit, hc, hm, ClassModel.derived?, h, Option.map_some]

/-! ## Runs -/

/-- A run over candidates, with what becomes of each. Methods may be marked in between. -/
inductive Runs (s : Setting) : Pass → List (Candidate × Disposition) → Pass → Prop
  | nil (p : Pass) : Runs s p [] p
  | cons {p q p' : Pass} (l : List MemberSlot) {x : Candidate} {d : Disposition}
      {es : List (Candidate × Disposition)}
      (hx : Enters s { p with model := p.model.derive s.registry l } x d q)
      (hes : Runs s q es p') : Runs s p ((x, d) :: es) p'

theorem Registers.model_eq {s : Setting} {p q : Pass} {m : MethodModel} {v : Verdict}
    {d : Disposition} (h : Registers s p m v q d) : q.model = p.model := by
  cases h <;> rfl

theorem Enters.model_eq {s : Setting} {p q : Pass} {x : Candidate} {d : Disposition}
    (h : Enters s p x d q) : q.model = p.model := by
  cases h with
  | field f => simp [visitField]
  | method hj hr => simp [hr.model_eq]

/-- What stands at a position does not depend on the candidates that have entered before. -/
theorem Enters.derived?_eq {s : Setting} {p q : Pass} {l : List MemberSlot} {x : Candidate}
    {d : Disposition} (h : Enters s { p with model := p.model.derive s.registry l } x d q) :
    q.model.derived? s.registry = p.model.derived? s.registry := by
  funext slot
  rw [h.model_eq, ClassModel.derived?_derive]

theorem Runs.model_eq {s : Setting} {p q : Pass} {es : List (Candidate × Disposition)}
    (h : Runs s p es q) : ∃ l, q.model = p.model.derive s.registry l := by
  induction h with
  | nil p => exact ⟨[], rfl⟩
  | cons l hx _ ih =>
      obtain ⟨k, hq⟩ := ih
      exact ⟨l ++ k, by rw [hq, hx.model_eq, ClassModel.derive_append]⟩

theorem visit_ok {s : Setting} {p q : Pass} {slot : MemberSlot} (h : visit s p slot = .ok q) :
    (p.model.derived? s.registry slot = none ∧ q = p) ∨
      ∃ x d, p.model.derived? s.registry slot = some x ∧
        Enters s { p with model := p.model.derive s.registry [slot] } x d q := by
  rw [visit_eq] at h
  split at h
  · rename_i hx
    cases h
    exact Or.inl ⟨hx, rfl⟩
  · rename_i f hx
    cases h
    have hs : p.model.derive s.registry [slot] = p.model := by
      cases slot with
      | field i => rfl
      | method i => simp [ClassModel.derived?] at hx
    exact Or.inr ⟨.field f, judgeField f, hx, by rw [hs]; exact .field f⟩
  · rename_i m hx
    cases hv : visitMethod { p with model := p.model.derive s.registry [slot] } s m with
    | error v => simp [hv, Except.mapError] at h
    | ok q' =>
        obtain rfl : q' = q := by simpa [hv, Except.mapError] using h
        obtain ⟨d, hd⟩ := enters_of_visitMethod hv
        exact Or.inr ⟨.method m, d, hx, hd⟩

theorem visit_error {s : Setting} {p : Pass} {slot : MemberSlot} {e : Refusal}
    (h : visit s p slot = .error e) :
    e.model = p.model.derive s.registry [slot] ∧
      ∃ m, p.model.derived? s.registry slot = some (.method m) ∧
        visitMethod { p with model := e.model } s m = .error e.violation := by
  rw [visit_eq] at h
  split at h
  · cases h
  · cases h
  · rename_i m hx
    cases hv : visitMethod { p with model := p.model.derive s.registry [slot] } s m with
    | error v =>
        obtain rfl : ⟨v, p.model.derive s.registry [slot]⟩ = e := by
          simpa [hv, Except.mapError] using h
        exact ⟨rfl, m, hx, hv⟩
    | ok q' => simp [hv, Except.mapError] at h

/-- A traversal that succeeds is a run over what stands at its positions. -/
theorem visits_ok {s : Setting} {l : List MemberSlot} {p q : Pass}
    (h : l.foldlM (visit s) p = .ok q) :
    q.model = p.model.derive s.registry l ∧
      ∃ es, es.map (·.1) = l.filterMap (p.model.derived? s.registry) ∧ Runs s p es q := by
  induction l generalizing p with
  | nil =>
      cases h
      exact ⟨rfl, [], rfl, .nil _⟩
  | cons slot l ih =>
      rw [List.foldlM_cons] at h
      obtain ⟨p₁, h₁, h₂⟩ := bind_eq_ok.1 h
      obtain ⟨hmodel, es, hes, hruns⟩ := ih h₂
      have hcons := p.model.derive_append s.registry [slot] l
      rw [List.singleton_append] at hcons
      rcases visit_ok h₁ with ⟨hx, hp₁⟩ | ⟨x, d, hx, hd⟩
      · subst hp₁
        rw [hcons, ClassModel.derive_of_derived?_eq_none hx, List.filterMap_cons_none hx]
        exact ⟨hmodel, es, hes, hruns⟩
      · have hp₁ : p₁.model = p.model.derive s.registry [slot] := hd.model_eq
        refine ⟨by rw [hcons, hmodel, hp₁], (x, d) :: es, ?_, .cons _ hd hruns⟩
        rw [List.filterMap_cons_some hx, List.map_cons, hes, hd.derived?_eq]

/-- A traversal that fails is a run up to a method about which a violation is found. -/
theorem visits_error {s : Setting} {l : List MemberSlot} {p : Pass} {e : Refusal}
    (h : l.foldlM (visit s) p = .error e) :
    ∃ pre slot post, l = pre ++ slot :: post ∧
      e.model = p.model.derive s.registry (pre ++ [slot]) ∧
      ∃ es q m, es.map (·.1) = pre.filterMap (p.model.derived? s.registry) ∧ Runs s p es q ∧
        p.model.derived? s.registry slot = some (.method m) ∧
        visitMethod { q with model := e.model } s m = .error e.violation := by
  induction l generalizing p with
  | nil => cases h
  | cons slot l ih =>
      rw [List.foldlM_cons] at h
      rcases bind_eq_error.1 h with h | ⟨p₁, h₁, h₂⟩
      · obtain ⟨hmodel, m, hx, hv⟩ := visit_error h
        exact ⟨[], slot, l, rfl, hmodel, [], p, m, rfl, .nil p, hx, hv⟩
      · obtain ⟨pre, slot', post, rfl, hmodel, es, q, m, hes, hruns, hx', hv⟩ := ih h₂
        have hcons := p.model.derive_append s.registry [slot] (pre ++ [slot'])
        rw [List.singleton_append] at hcons
        refine ⟨slot :: pre, slot', post, rfl, ?_⟩
        rw [List.cons_append, hcons]
        rcases visit_ok h₁ with ⟨hx, hp₁⟩ | ⟨x, d, hx, hd⟩
        · subst hp₁
          rw [ClassModel.derive_of_derived?_eq_none hx, List.filterMap_cons_none hx]
          exact ⟨hmodel, es, q, m, hes, hruns, hx', hv⟩
        · have hp₁ : p₁.model = p.model.derive s.registry [slot] := hd.model_eq
          rw [hp₁] at hmodel
          rw [hd.derived?_eq] at hes hx'
          refine ⟨hmodel, (x, d) :: es, q, m, ?_, .cons _ hd hruns, hx', hv⟩
          rw [List.filterMap_cons_some hx, List.map_cons, hes]

/-! ## Decisions -/

/-- A final class has no proxy. -/
def Unproxied (p : Pass) : Prop := p.model.isFinal = true → p.proxy = none

theorem checkProxyable_eq_ok {c : ClassModel} : checkProxyable c = .ok () ↔ c.isFinal = false := by
  unfold checkProxyable
  split <;> simp_all

theorem checkProxyable_eq_error {c : ClassModel} {v : Violation} :
    checkProxyable c = .error v ↔ c.isFinal = true ∧ v = ⟨.finalClassProxy, c.name⟩ := by
  unfold checkProxyable
  by_cases h : c.isFinal = true
  · simp [h, eq_comm]
  · simp [h]

theorem demandProxy_eq_error {s : Setting} {p : Pass} (hp : p.Unproxied) {b : Bool}
    {t : Option MethodModel} {v : Violation} :
    demandProxy s.weaver p.model p.main b t p.proxy = .error v ↔
      checkProxyable p.model = .error v := by
  cases hc : checkProxyable p.model with
  | error v' =>
      simp [hp (checkProxyable_eq_error.1 hc).1, demandProxy_none, hc, Except.map]
  | ok _ =>
      cases hq : p.proxy with
      | none => simp [demandProxy_none, hc, Except.map]
      | some proxy => simp [demandProxy_some]

theorem register_eq_error {s : Setting} {p : Pass} (hp : p.Unproxied) {m : MethodModel}
    {w : Verdict} {v : Violation} :
    p.register s m w = .error v ↔ w = .interception ∧ checkProxyable p.model = .error v := by
  cases w with
  | interception =>
      have hd := demandProxy_eq_error (s := s) hp (b := s.strategy.alwaysProxies) (t := some m)
        (v := v)
      simp only [register, bind_eq_error, hd, true_and, or_iff_left_iff_imp]
      rintro ⟨_, _, h⟩
      cases h
  | adaptation =>
      simp only [register, synthesizeAdapter]
      cases s.weaver.adapterPlan p.model m p.adapters.length <;> simp
  | _ => simp [register]

theorem visitMethod_eq_error {s : Setting} {p : Pass} (hp : p.Unproxied) {m : MethodModel}
    {v : Violation} :
    p.visitMethod s m = .error v ↔ decideMethod s.strategy p.model m = .error v := by
  have hflag : ∀ b, (p.flagged b).Unproxied := by
    intro b
    cases b <;> exact hp
  rw [visitMethod_eq, bind_eq_error, decideMethod, bind_eq_error]
  constructor
  · rintro (h | ⟨j, hj, h⟩)
    · exact Or.inl h
    · refine Or.inr ⟨j, hj, ?_⟩
      rcases bind_eq_error.1 h with h | ⟨_, _, h⟩
      · obtain ⟨hw, hc⟩ := (register_eq_error (hflag _)).1 h
        rw [model_flagged] at hc
        simp [hw, hc, bind, Except.bind]
      · cases h
  · rintro (h | ⟨j, hj, h⟩)
    · exact Or.inl h
    · refine Or.inr ⟨j, hj, ?_⟩
      by_cases hw : j.verdict = .interception
      · rw [if_pos hw] at h
        rcases bind_eq_error.1 h with h | ⟨_, _, h⟩
        · refine bind_eq_error.2 (Or.inl ((register_eq_error (hflag _)).2 ⟨hw, ?_⟩))
          rwa [model_flagged]
        · cases h
      · rw [if_neg hw] at h
        cases h

/-- A step leaves a final class without proxy, and no violation was decided about its candidate. -/
theorem Enters.unproxied {s : Setting} {p q : Pass} {x : Candidate} {d : Disposition}
    (h : Enters s p x d q) (hp : p.Unproxied) :
    q.Unproxied ∧ x.violation? s.strategy p.model = none := by
  cases h with
  | field f =>
      refine ⟨fun hfinal => ?_, rfl⟩
      have hproxy : p.proxy = none := hp (by simpa [visitField] using hfinal)
      simp [visitField, proxy_record, hproxy]
  | @method m j q d hj hr =>
      have hflag : (p.flagged j.processed).Unproxied := by
        cases j.processed <;> exact hp
      have hchecked : j.verdict = .interception → checkProxyable p.model = .ok () := by
        intro hw
        rw [hw] at hr
        cases hr with
        | intercepted hd =>
            cases hc : checkProxyable p.model with
            | ok _ => rfl
            | error v =>
                rw [← model_flagged p j.processed] at hc
                rw [(demandProxy_eq_error hflag).2 hc] at hd
                cases hd
      constructor
      · intro hfinal
        rw [model_record, hr.model_eq, model_flagged] at hfinal
        have hproxy := hp hfinal
        generalize hw : j.verdict = w at hr
        cases hr with
        | intercepted hd =>
            have hopen := checkProxyable_eq_ok.1 (hchecked hw)
            simp [hfinal] at hopen
        | _ => simp [proxy_record, hproxy]
      · simp only [Candidate.violation?, decideMethod, hj]
        by_cases hw : j.verdict = .interception
        · simp [hw, hchecked hw, bind, Except.bind, pure, Except.pure]
        · simp [hw, bind, Except.bind, pure, Except.pure]

theorem Runs.unproxied {s : Setting} {p q : Pass} {es : List (Candidate × Disposition)}
    (h : Runs s p es q) (hp : p.Unproxied) :
    q.Unproxied ∧ ∀ e ∈ es, e.1.violation? s.strategy p.model = none := by
  induction h with
  | nil p => exact ⟨hp, by simp⟩
  | @cons p q p' l x d es hx hes ih =>
      have hstart : ({ p with model := p.model.derive s.registry l } : Pass).Unproxied := hp
      obtain ⟨hq, hv⟩ := hx.unproxied hstart
      obtain ⟨hp', hes'⟩ := ih hq
      rw [hx.model_eq] at hes'
      refine ⟨hp', fun e he => ?_⟩
      rcases List.mem_cons.1 he with rfl | he
      · exact hv
      · exact hes' e he

end Pass

end Wiring
