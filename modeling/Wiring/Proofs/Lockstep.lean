import Mathlib.Data.List.Forall2
import Wiring.Proofs.Accounts

/-!
# Two strategies in lockstep

Passes over one class under two strategies of one mode go in lockstep, as far as each decides about a method
what the other decides, or exposes it where the other leaves it. What is to be known of the strategies is
collected in a `Pairing`: how main plans and dispositions are related, and that entries keep them related. From
that, builds come to results that are related and leave one class behind (`Pairing.build`).
-/

namespace Wiring

/-! ## Results side by side -/

/-- Two results that are related, or one error. -/
inductive Concur {ε α β : Type} (R : α → β → Prop) : Except ε α → Except ε β → Prop
  | ok {a : α} {b : β} (h : R a b) : Concur R (.ok a) (.ok b)
  | error (e : ε) : Concur R (.error e) (.error e)

namespace Concur

variable {ε ε' α β γ δ : Type} {R : α → β → Prop} {T : γ → δ → Prop} {x : Except ε α}
  {y : Except ε β}

theorem bind (h : Concur R x y) {f : α → Except ε γ} {g : β → Except ε δ}
    (hf : ∀ a b, R a b → Concur T (f a) (g b)) : Concur T (x >>= f) (y >>= g) := by
  cases h with
  | ok h => exact hf _ _ h
  | error e => exact .error e

theorem foldlM {f : α → γ → Except ε α} {g : β → γ → Except ε β}
    (hf : ∀ a b c, R a b → Concur R (f a c) (g b c)) (cs : List γ) {a : α} {b : β} (h : R a b) :
    Concur R (cs.foldlM f a) (cs.foldlM g b) := by
  induction cs generalizing a b with
  | nil => exact .ok h
  | cons c cs ih =>
      rw [List.foldlM_cons, List.foldlM_cons]
      exact (hf a b c h).bind fun a b h => ih h

theorem mapError (h : Concur R x y) (f : ε → ε') : Concur R (x.mapError f) (y.mapError f) := by
  cases h with
  | ok h => exact .ok h
  | error e => exact .error (f e)

theorem imp (h : Concur R x y) {S : α → β → Prop}
    (hS : ∀ a b, x = .ok a → y = .ok b → R a b → S a b) : Concur S x y := by
  cases h with
  | ok h => exact .ok (hS _ _ rfl rfl h)
  | error e => exact .error e

theorem eq_map (h : Concur R x y) {f : α → β} (hf : ∀ a b, R a b → b = f a) : y = x.map f := by
  cases h with
  | ok h => exact congrArg Except.ok (hf _ _ h)
  | error e => rfl

end Concur

/-! ## Entries -/

/-- An entry that classification makes on a main plan. -/
inductive Entry where
  | postConstruct (m : MethodModel) (requiresReflection : Bool)
  | preDestroy (m : MethodModel) (requiresReflection : Bool)
  | methodInjection (m : MethodModel) (requiresReflection : Bool)
  | fieldInjection (f : FieldModel) (requiresReflection : Bool)
  | fieldValue (f : FieldModel) (requiresReflection : Bool)
  | setterValue (property : String) (setter : MethodModel)
  | executable (m : MethodModel)
  | processing
  | originating (typeName : String)

/-- Makes an entry. The switch says whether values are optional. -/
def Plan.enter (p : Plan) (optional : Bool) : Entry → Plan
  | .postConstruct m reflection => p.addPostConstruct m reflection
  | .preDestroy m reflection => p.addPreDestroy m reflection
  | .methodInjection m reflection => p.addMethodInjection m reflection
  | .fieldInjection f reflection => p.addFieldInjection f reflection
  | .fieldValue f reflection => p.addFieldValue f optional reflection
  | .setterValue property setter => p.addSetterValue property setter optional
  | .executable m => p.addExecutable m
  | .processing => p.withMethodProcessing true
  | .originating typeName => p.addOriginating typeName

/-- A handler that comes with the strategies enters a value for a property, or leaves the plan as it is. -/
theorem PropertyHandler.enters_of_either {h : PropertyHandler} (hh : h = noop ∨ h = configuration)
    (c : ClassModel) (x : PropertyModel) :
    (∀ plan optional, h.visit c plan optional x = .ok (false, plan)) ∨
      ∃ m, ∀ plan optional,
        h.visit c plan optional x = .ok (true, plan.enter optional (.setterValue x.name m)) := by
  rcases hh with rfl | rfl
  · exact Or.inl fun _ _ => rfl
  · simp only [configuration_visit]
    by_cases hx : c.binds x = true
    · obtain ⟨m, hm, _⟩ := ClassModel.binds_iff.1 hx
      refine Or.inr ⟨m, fun plan optional => ?_⟩
      rw [if_pos hx, ClassModel.setterValue?_eq, hm]
      rfl
    · exact Or.inl fun _ _ => if_neg hx

/-! ## Pairings -/

/-- The second of two strategies exposes a method that the first leaves unclaimed, and is entitled to. -/
structure Exposes (s t : Strategy) (plans : Plan → Plan → Prop)
    (dispositions : MemberDisposition → MemberDisposition → Prop) (c : ClassModel) (m : MethodModel) :
    Prop where
  judged : ∃ b, judgeMethod s c m = .ok ⟨.unclaimed, b⟩ ∧ judgeMethod t c m = .ok ⟨.exposure, b⟩
  plans : ∀ p q, plans p q → plans p (q.addExecutable m) ∧
    plans p ((q.addExecutable m).addOriginating m.declaringType)
  disposition : dispositions ⟨.method, m.member.description, .unclaimed⟩
    ⟨.method, m.member.description, .executable⟩

/-- Two strategies of one mode and one handler, with relations between the main plans and between the
dispositions of two passes under them. Entries that both passes make keep plans related. -/
structure Pairing (s t : Strategy) where
  plans : Plan → Plan → Prop
  dispositions : MemberDisposition → MemberDisposition → Prop
  mode : t.mode = s.mode
  handler : t.handler = s.handler
  start (c : ClassModel) : plans (Pass.start c).main (Pass.start c).main
  name {p q : Plan} (h : plans p q) : q.name = p.name
  enter {p q : Plan} (h : plans p q) (e : Entry) :
    plans (p.enter s.optionalFieldValues e) (q.enter t.optionalFieldValues e)
  refl (x : MemberDisposition) : dispositions x x
  judged (c : ClassModel) (m : MethodModel) :
    judgeMethod t c m = judgeMethod s c m ∨ Exposes s t plans dispositions c m

/-- What the weaver makes of a proxy does not depend on the main plan. -/
def Weaver.IgnoresMain (w : Weaver) : Prop :=
  ∀ c main main' advice, w.proxyPlan c main' advice = w.proxyPlan c main advice

theorem Weaver.standard_ignoresMain : standard.IgnoresMain := fun _ _ _ _ => rfl

namespace Pairing

theorem alwaysProxies_eq {s t : Strategy} (P : Pairing s t) : t.alwaysProxies = s.alwaysProxies := by
  rw [Strategy.alwaysProxies, P.mode, Strategy.alwaysProxies]

theorem readsProperties_eq {s t : Strategy} (P : Pairing s t) :
    t.readsProperties = s.readsProperties := by
  rw [Strategy.readsProperties, P.mode, Strategy.readsProperties]

section Relations

variable {s t : Strategy} (P : Pairing s t) {p q : Pass}

/-- Two passes over one class that differ in main plans and dispositions that are related. -/
inductive Relates : Pass → Pass → Prop
  | intro {p : Pass} {main : Plan} {ds : List MemberDisposition} (hmain : P.plans p.main main)
      (hds : List.Forall₂ P.dispositions p.dispositions ds) :
      Relates p { p with main, dispositions := ds }

/-- Two plan sets that differ in main plans and dispositions that are related. -/
inductive Matches : PlanSet → PlanSet → Prop
  | intro {set : PlanSet} {main : Plan} {ds : List MemberDisposition}
      (hmain : P.plans set.main main) (hds : List.Forall₂ P.dispositions set.dispositions ds) :
      Matches set { set with main, dispositions := ds }

namespace Relates

variable {P}

theorem of_fields (hmodel : q.model = p.model) (hproxy : q.proxy = p.proxy)
    (hadapters : q.adapters = p.adapters) (hmain : P.plans p.main q.main)
    (hds : List.Forall₂ P.dispositions p.dispositions q.dispositions) : P.Relates p q := by
  obtain ⟨model, main, proxy, adapters, ds⟩ := q
  subst hmodel hproxy hadapters
  exact .intro hmain hds

theorem withModel (h : P.Relates p q) (c : ClassModel) :
    P.Relates { p with model := c } { q with model := c } := by
  cases h with
  | intro hmain hds => exact .intro (p := { p with model := c }) hmain hds

theorem enter (h : P.Relates p q) (e : Entry) :
    P.Relates { p with main := p.main.enter s.optionalFieldValues e }
      { q with main := q.main.enter t.optionalFieldValues e } := by
  cases h with
  | intro hmain hds => exact of_fields rfl rfl rfl (P.enter hmain e) hds

theorem note (h : P.Relates p q) (k : MemberKind) (member : String) (d : Disposition) :
    P.Relates (p.note k member d) (q.note k member d) := by
  cases h with
  | intro hmain hds =>
      exact of_fields rfl rfl rfl hmain (List.rel_append hds (.cons (P.refl _) .nil))

theorem record (h : P.Relates p q) (k : MemberKind) (m : Member) (d : Disposition) :
    P.Relates (p.record k m d) (q.record k m d) := by
  cases h with
  | intro hmain hds =>
      refine of_fields (by simp) (by simp [Pass.proxy_record]) (by simp) ?_ ?_
      · rw [Pass.main_record, Pass.main_record]
        split
        · exact P.enter hmain (.originating m.declaringType)
        · exact hmain
      · rw [Pass.dispositions_record, Pass.dispositions_record]
        exact List.rel_append hds (.cons (P.refl _) .nil)

theorem flagged (h : P.Relates p q) (b : Bool) : P.Relates (p.flagged b) (q.flagged b) := by
  cases b with
  | false => exact h
  | true => exact h.enter .processing

theorem originating (h : P.Relates p q) (ts : List String) :
    P.Relates { p with main := ts.foldl Plan.addOriginating p.main }
      { q with main := ts.foldl Plan.addOriginating q.main } := by
  induction ts generalizing p q with
  | nil => exact h
  | cons t ts ih => exact ih (h.enter (.originating t))

end Relates

end Relations

/-! ## Steps -/

variable {s : Setting} {t : Strategy} {P : Pairing s.strategy t} {p q : Pass}

namespace Relates

theorem demandProxy_eq (hw : s.weaver.IgnoresMain) {main : Plan} (hmain : P.plans p.main main)
    (b : Bool) (trigger : Option MethodModel) :
    demandProxy s.weaver p.model main b trigger p.proxy =
      demandProxy s.weaver p.model p.main b trigger p.proxy := by
  cases p.proxy with
  | some proxy => rfl
  | none =>
      have hnew : newProxy s.weaver p.model main b trigger =
          newProxy s.weaver p.model p.main b trigger := by
        rw [newProxy, newProxy, hw p.model p.main main, P.name hmain]
      rw [demandProxy_none, demandProxy_none, hnew]

theorem openProxy (h : P.Relates p q) (hw : s.weaver.IgnoresMain) :
    Concur P.Relates (p.openProxy s) (q.openProxy { s with strategy := t }) := by
  cases h with
  | intro hmain hds =>
      simp only [Pass.openProxy, P.alwaysProxies_eq, demandProxy_eq hw hmain]
      split
      · split
        · exact .ok (of_fields rfl rfl rfl hmain hds)
        · exact .error _
      · exact .ok (.intro hmain hds)

theorem visitProperty (h : P.Relates p q)
    (hh : s.strategy.handler = .noop ∨ s.strategy.handler = .configuration) (x : PropertyModel) :
    Concur P.Relates (p.visitProperty s x) (q.visitProperty { s with strategy := t } x) := by
  cases h with
  | intro hmain hds =>
      have h := (Relates.intro (P := P) hmain hds).withModel (p.model.validateAccessors s.registry x)
      rcases PropertyHandler.enters_of_either hh (p.model.validateAccessors s.registry x) x with
        hv | ⟨m, hv⟩
      · simp only [Pass.visitProperty, P.handler, hv]
        exact .ok (h.note ..)
      · simp only [Pass.visitProperty, P.handler, hv]
        exact .ok (((h.enter (.setterValue x.name m)).originating _).note ..)

theorem visitField (h : P.Relates p q) (f : FieldModel) :
    P.Relates (p.visitField s f) (q.visitField { s with strategy := t } f) := by
  cases h with
  | intro hmain hds =>
      have h := Relates.intro (P := P) hmain hds
      rcases judgeField_cases f with hj | hj | hj <;> rw [Pass.visitField, Pass.visitField, hj]
      · exact h.record ..
      · exact (h.enter (.fieldValue f _)).record ..
      · exact (h.enter (.fieldInjection f _)).record ..

theorem register (h : P.Relates p q) (hw : s.weaver.IgnoresMain) (m : MethodModel) (v : Verdict) :
    Concur (fun e e' => P.Relates e.1 e'.1 ∧ e'.2 = e.2) (p.register s m v)
      (q.register { s with strategy := t } m v) := by
  cases h with
  | intro hmain hds =>
      have h := Relates.intro (P := P) hmain hds
      cases v with
      | unclaimed => exact .ok ⟨h, rfl⟩
      | lifecycle post pre =>
          refine .ok ⟨?_, rfl⟩
          cases post <;> cases pre
          · exact h
          · exact h.enter (.preDestroy m _)
          · exact h.enter (.postConstruct m _)
          · exact (h.enter (.postConstruct m _)).enter (.preDestroy m _)
      | injection => exact .ok ⟨h.enter (.methodInjection m _), rfl⟩
      | adaptation =>
          simp only [Pass.register]
          split
          · exact .ok ⟨h, rfl⟩
          · exact .ok ⟨of_fields rfl rfl rfl (P.enter hmain (.executable m)) hds, rfl⟩
      | interception =>
          simp only [Pass.register, demandProxy_eq hw hmain, P.alwaysProxies_eq]
          cases demandProxy s.weaver p.model p.main s.strategy.alwaysProxies (some m) p.proxy with
          | error e => exact .error e
          | ok proxy => exact .ok ⟨of_fields rfl rfl rfl hmain hds, rfl⟩
      | exposure => exact .ok ⟨h.enter (.executable m), rfl⟩

/-- The second pass exposes a method that the first leaves. -/
theorem expose (h : P.Relates p q) {m : MethodModel}
    (hm : Exposes s.strategy t P.plans P.dispositions p.model m) :
    P.Relates (p.record .method m.member .unclaimed)
      (Pass.record { q with main := q.main.addExecutable m } .method m.member .executable) := by
  cases h with
  | intro hmain hds =>
      refine of_fields (by simp) ?_ (by simp) ?_ ?_
      · simp [Pass.proxy_record]
      · obtain ⟨hadded, horiginating⟩ := hm.plans _ _ hmain
        rw [Pass.main_record, Pass.main_record, if_neg (by simp [Disposition.isClaimed])]
        split
        · exact horiginating
        · exact hadded
      · rw [Pass.dispositions_record, Pass.dispositions_record]
        exact List.rel_append hds (.cons hm.disposition .nil)

theorem visitMethod (h : P.Relates p q) (hw : s.weaver.IgnoresMain) (m : MethodModel) :
    Concur P.Relates (p.visitMethod s m) (q.visitMethod { s with strategy := t } m) := by
  have hmodel : q.model = p.model := by cases h; rfl
  rw [Pass.visitMethod_eq, Pass.visitMethod_eq, hmodel]
  rcases P.judged p.model m with hj | hm
  · rw [hj]
    cases judgeMethod s.strategy p.model m with
    | error v => exact .error v
    | ok j =>
        refine ((h.flagged j.processed).register hw m j.verdict).bind fun e e' he => ?_
        rw [he.2]
        exact .ok (he.1.record ..)
  · obtain ⟨b, hs, ht⟩ := hm.judged
    rw [hs, ht]
    exact .ok ((h.flagged b).expose ((p.model_flagged b).symm ▸ hm))

theorem visit (h : P.Relates p q) (hw : s.weaver.IgnoresMain) (slot : MemberSlot) :
    Concur P.Relates (Pass.visit s p slot) (Pass.visit { s with strategy := t } q slot) := by
  have hmodel : q.model = p.model := by cases h; rfl
  rw [Pass.visit_eq, Pass.visit_eq, hmodel]
  cases p.model.derived? s.registry slot with
  | none => exact .ok h
  | some x =>
      cases x with
      | field f => exact .ok (h.visitField f)
      | method m => exact ((h.withModel _).visitMethod hw m).mapError _

theorem run (h : P.Relates p q) (hw : s.weaver.IgnoresMain)
    (hh : s.strategy.handler = .noop ∨ s.strategy.handler = .configuration) :
    Concur P.Relates (p.run s) (q.run { s with strategy := t }) := by
  have hslots : Pass.slots t = Pass.slots s.strategy := by
    funext c
    simp only [Pass.slots, Pass.query, P.readsProperties_eq]
  rw [Pass.run_eq, Pass.run_eq]
  refine (h.openProxy hw).bind fun p q h => Concur.bind (R := P.Relates) ?_ fun p q h => ?_
  · have hmodel : q.model = p.model := by cases h; rfl
    simp only [Pass.readProperties, P.readsProperties_eq, hmodel]
    exact Concur.foldlM (fun p q x h => h.visitProperty hh x) _ h
  · have hmodel : q.model = p.model := by cases h; rfl
    rw [hmodel, hslots]
    exact Concur.foldlM (fun p q slot h => h.visit hw slot) _ h

end Relates

/-- Under both strategies a class is built alike or rejected for one violation, and it is left behind alike. -/
theorem build (s : Setting) {t : Strategy} (P : Pairing s.strategy t) (hw : s.weaver.IgnoresMain)
    (hh : s.strategy.handler = .noop ∨ s.strategy.handler = .configuration) (c : ClassModel) :
    Concur P.Matches (Wiring.build s c).result (Wiring.build { s with strategy := t } c).result ∧
      (Wiring.build { s with strategy := t } c).model = (Wiring.build s c).model := by
  have hstart : P.Relates (Pass.start (c.resolve s.registry)) (Pass.start (c.resolve s.registry)) :=
    .intro (P.start _) .nil
  have hrun := hstart.run hw hh
  unfold Wiring.build
  revert hrun
  generalize (Pass.start (c.resolve s.registry)).run s = x
  generalize (Pass.start (c.resolve s.registry)).run { s with strategy := t } = y
  intro hrun
  cases hrun with
  | ok h =>
      cases h with
      | intro hmain hds => exact ⟨.ok (.intro hmain hds), rfl⟩
  | error e => exact ⟨.error _, rfl⟩

end Pairing

end Wiring
