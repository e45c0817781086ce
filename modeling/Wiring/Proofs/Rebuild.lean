import Wiring.Proofs.Accounts
import Wiring.Proofs.Frame

/-!
# Building again

A class that was built before differs from the class as it was resolved in marks that make no difference
to what is visited (`ClassModel.Retraces`). So a pass over the one and a pass over the other go side by
side, and to build the class again comes to the same (`build_idempotent`).
-/

namespace Wiring

/-! ## What does not look at the methods of a class -/

def ClassModel.withMethods (c : ClassModel) (ms : List MethodModel) : ClassModel :=
  { c with methods := ms }

/-- The plans that the weaver shapes do not depend on what other methods the class has. -/
structure Weaver.IgnoresMethods (w : Weaver) : Prop where
  proxyPlan : ∀ c ms main advice,
    w.proxyPlan (ClassModel.withMethods c ms) main advice = w.proxyPlan c main advice
  interceptMethod : ∀ proxy c ms m bindings,
    w.interceptMethod proxy (ClassModel.withMethods c ms) m bindings =
      w.interceptMethod proxy c m bindings
  adapterPlan : ∀ c ms m n,
    w.adapterPlan (ClassModel.withMethods c ms) m n = w.adapterPlan c m n

theorem Weaver.standard_ignoresMethods : standard.IgnoresMethods where
  proxyPlan _ _ _ _ := rfl
  interceptMethod _ _ _ _ _ := rfl
  adapterPlan _ _ _ _ := rfl

theorem Weaver.declining_ignoresMethods : declining.IgnoresMethods where
  proxyPlan _ _ _ _ := rfl
  interceptMethod _ _ _ _ _ := rfl
  adapterPlan _ _ _ _ := rfl

theorem demandProxy_withMethods {w : Weaver} (hw : w.IgnoresMethods) (c : ClassModel)
    (ms : List MethodModel) (main : Plan) (b : Bool) (t : Option MethodModel)
    (current : Option Plan) :
    demandProxy w (c.withMethods ms) main b t current = demandProxy w c main b t current := by
  cases current with
  | some proxy => rfl
  | none =>
      have hnew : newProxy w (c.withMethods ms) main b t = newProxy w c main b t :=
        congrArg (fun plan : Plan => (plan.withShape c).withSuperBean main.name)
          (hw.proxyPlan c ms main (proxyAdvice c b t))
      have hcheck : checkProxyable (c.withMethods ms) = checkProxyable c := rfl
      rw [demandProxy_none, demandProxy_none, hnew, hcheck]

namespace Pass

def withMethods (p : Pass) (ms : List MethodModel) : Pass :=
  { p with model := p.model.withMethods ms }

variable {s : Setting} (p : Pass) (ms : List MethodModel)

theorem record_withMethods (k : MemberKind) (m : Member) (d : Disposition) :
    (p.withMethods ms).record k m d = (p.record k m d).withMethods ms := by
  obtain ⟨c, main, proxy, adapters, dispositions⟩ := p
  have hd : m.isDeclaredOn (c.withMethods ms) = m.isDeclaredOn c := rfl
  simp only [record, withMethods, hd]
  split
  · cases proxy <;> cases d <;> rfl
  · rfl

theorem visitField_withMethods (f : FieldModel) :
    (p.withMethods ms).visitField s f = (p.visitField s f).withMethods ms := by
  have hrecord (main : Plan) := record_withMethods { p with main } ms .field f.member
  let reflection := f.member.requiresReflection p.model
  rcases judgeField_cases f with hj | hj | hj <;> rw [visitField, visitField, hj]
  · exact hrecord p.main _
  · exact hrecord (p.main.addFieldValue f s.strategy.optionalFieldValues reflection) _
  · exact hrecord (p.main.addFieldInjection f reflection) _

theorem register_withMethods (hw : s.weaver.IgnoresMethods) (m : MethodModel) (v : Verdict) :
    (p.withMethods ms).register s m v =
      (p.register s m v).map fun e => (e.1.withMethods ms, e.2) := by
  cases v with
  | adaptation =>
      have ha := hw.adapterPlan p.model ms m p.adapters.length
      simp only [register, synthesizeAdapter, withMethods, ha]
      cases s.weaver.adapterPlan p.model m p.adapters.length <;> rfl
  | interception =>
      have hd := demandProxy_withMethods hw p.model ms p.main s.strategy.alwaysProxies (some m)
        p.proxy
      simp only [register, withMethods, hd, hw.interceptMethod]
      cases demandProxy s.weaver p.model p.main s.strategy.alwaysProxies (some m) p.proxy <;> rfl
  | _ => rfl

theorem visitMethod_withMethods (hw : s.weaver.IgnoresMethods) (m : MethodModel) :
    (p.withMethods ms).visitMethod s m = (p.visitMethod s m).map (·.withMethods ms) := by
  have hjudge : judgeMethod s.strategy (p.withMethods ms).model m =
      judgeMethod s.strategy p.model m := rfl
  have hflag (b : Bool) : (p.withMethods ms).flagged b = (p.flagged b).withMethods ms := by
    cases b <;> rfl
  rw [visitMethod_eq, visitMethod_eq, hjudge]
  cases judgeMethod s.strategy p.model m with
  | error v => rfl
  | ok j =>
      simp only [bind, Except.bind, hflag, register_withMethods _ ms hw]
      cases (p.flagged j.processed).register s m j.verdict with
      | error v => rfl
      | ok e => exact congrArg Except.ok (record_withMethods e.1 ms .method m.member e.2)

end Pass

/-! ## What does not look at the marks -/

/-- What the handler makes of a property does not depend on the capability sets of the class. -/
def PropertyHandler.IgnoresMarks (h : PropertyHandler) : Prop :=
  ∀ c c' plan b x, ClassModel.bare c' = ClassModel.bare c → h.visit c' plan b x = h.visit c plan b x

theorem PropertyHandler.noop_ignoresMarks : noop.IgnoresMarks := fun _ _ _ _ _ _ => rfl

theorem PropertyHandler.configuration_ignoresMarks : configuration.IgnoresMarks := by
  intro c c' plan b x h
  rw [configuration_visit, configuration_visit, ClassModel.binds_eq_of_bare x h,
    ClassModel.setterValue?_eq_of_bare h]

/-! ## Two classes alike -/

namespace ClassModel.Marked

variable {r : Registry} {c d : ClassModel}

/-- Marks on accessors of properties do not show at the positions that are visited. -/
theorem derived?_validateAccessors (h : c.Marked r d) {s : Strategy}
    (hs : s.readsProperties = true) {x : PropertyModel} (hx : x ∈ (c.resolve r).properties)
    {slot : MemberSlot} (hslot : slot ∈ Pass.slots s c) :
    (d.validateAccessors r x).derived? r slot = d.derived? r slot := by
  obtain ⟨js, hjs, heq⟩ := Pass.validateAccessors_eq d r x
  rw [heq]
  cases slot with
  | field i => rfl
  | method i =>
      have hi : i ∉ js := by
        intro hj
        have haccessor := hjs i hj
        rw [Pass.accessors_eq_of_bare (h.bare_eq.trans (c.bare_resolve r).symm)] at haccessor
        have hconstitutes := ClassModel.constitutesMethod_of_mem_accessors hx haccessor
        rw [c.constitutesMethod_resolve, not_constitutes_of_mem_slots hslot hs] at hconstitutes
        cases hconstitutes
      rw [derived?, getElem?_modifyMethods (fun m => m.markValidated_markValidated r)]
      simp only [if_neg hi, Option.map_id', derived?]

end ClassModel.Marked

/-- Two classes that differ from `c₀` as it is resolved in marks on methods, and from each other in none
that shows at the positions that are visited. Unless properties are read, the second has the marks at `l`
besides. -/
structure ClassModel.Retraces (s : Setting) (c₀ : ClassModel) (l : List MemberSlot)
    (c c' : ClassModel) : Prop where
  first : c₀.Marked s.registry c
  second : c₀.Marked s.registry c'
  derived : ∀ slot ∈ Pass.slots s.strategy c₀,
    c'.derived? s.registry slot = c.derived? s.registry slot
  marks : s.strategy.readsProperties = false → c' = c.derive s.registry l

namespace ClassModel.Retraces

variable {s : Setting} {c₀ c c' : ClassModel} {l : List MemberSlot}

theorem withMethods_eq (h : Retraces s c₀ l c c') : c' = c.withMethods c'.methods :=
  calc c'
      = (c₀.resolve s.registry).withMethods c'.methods := h.second.rest
    _ = ((c₀.resolve s.registry).withMethods c.methods).withMethods c'.methods := rfl
    _ = c.withMethods c'.methods := congrArg (·.withMethods c'.methods) h.first.rest.symm

theorem name_eq (h : Retraces s c₀ l c c') : c'.name = c.name := by
  rw [h.withMethods_eq]
  rfl

theorem bare_eq (h : Retraces s c₀ l c c') : c'.bare = c.bare :=
  h.second.bare_eq.trans h.first.bare_eq.symm

theorem derive (h : Retraces s c₀ l c c') (slot : MemberSlot) :
    Retraces s c₀ l (c.derive s.registry [slot]) (c'.derive s.registry [slot]) where
  first := h.first.derive [slot]
  second := h.second.derive [slot]
  derived k hk := by
    rw [derived?_derive, derived?_derive]
    exact h.derived k hk
  marks hs := by
    rw [h.marks hs, ← derive_append, ← derive_append]
    exact c.derive_congr s.registry fun k => by simp [or_comm]

theorem validateAccessors (h : Retraces s c₀ l c c') (hs : s.strategy.readsProperties = true)
    {x : PropertyModel} (hx : x ∈ (c₀.resolve s.registry).properties) :
    Retraces s c₀ l (c.validateAccessors s.registry x) (c'.validateAccessors s.registry x) where
  first := h.first.validateAccessors x
  second := h.second.validateAccessors x
  derived k hk := by
    rw [h.first.derived?_validateAccessors hs hx hk, h.second.derived?_validateAccessors hs hx hk]
    exact h.derived k hk
  marks hs' := absurd (hs.symm.trans hs') (by decide)

/-- The class that a build leaves retraces the class that it went over. -/
theorem left (s : Setting) (c : ClassModel) :
    ∃ l, Retraces s c l (c.resolve s.registry) (build s c).model := by
  rw [model_build]
  -- Marks on accessors do not show, and those on what is visited are collected in the list.
  refine Pass.left_run (P := fun d => ∃ l, Retraces s c l (c.resolve s.registry) d) ?_ ?_ ?_
  · rintro hs d x hx ⟨l, h⟩
    refine ⟨l, h.first, h.second.validateAccessors x, fun k hk => ?_, fun hs' => ?_⟩
    · rw [h.second.derived?_validateAccessors hs hx hk]
      exact h.derived k hk
    · exact absurd (hs.symm.trans hs') (by decide)
  · rintro d slot ⟨l, h⟩
    refine ⟨l ++ [slot], h.first, h.second.derive [slot], fun k hk => ?_, fun hs => ?_⟩
    · rw [derived?_derive]
      exact h.derived k hk
    · rw [derive_append, ← h.marks hs]
  · exact ⟨[], .resolve s.registry c, .resolve s.registry c, fun _ _ => rfl, fun _ => rfl⟩

end ClassModel.Retraces

/-! ## Two passes side by side -/

namespace Pass

/-- Two passes over such classes that end alike: both have planned the same, or both stop at the same
violation. -/
inductive Alike (s : Setting) (c₀ : ClassModel) (l : List MemberSlot) :
    Except Refusal Pass → Except Refusal Pass → Prop
  | ok {p : Pass} {c' : ClassModel} (h : ClassModel.Retraces s c₀ l p.model c') :
      Alike s c₀ l (.ok p) (.ok { p with model := c' })
  | error (v : Violation) {c c' : ClassModel} (h : ClassModel.Retraces s c₀ l c c') :
      Alike s c₀ l (.error ⟨v, c⟩) (.error ⟨v, c'⟩)

variable {s : Setting} {c₀ c' : ClassModel} {l : List MemberSlot} {p : Pass}

section Alike

variable {e e' : Except Refusal Pass}

theorem Alike.bind (h : Alike s c₀ l e e') {f f' : Pass → Except Refusal Pass}
    (hf : ∀ q d, ClassModel.Retraces s c₀ l q.model d →
      Alike s c₀ l (f q) (f' { q with model := d })) : Alike s c₀ l (e >>= f) (e' >>= f') := by
  cases h with
  | ok h => exact hf _ _ h
  | error v h => exact .error v h

theorem Alike.foldlM {α : Type} {f : Pass → α → Except Refusal Pass} {xs : List α}
    (hf : ∀ q d, ∀ x ∈ xs, ClassModel.Retraces s c₀ l q.model d →
      Alike s c₀ l (f q x) (f { q with model := d } x))
    (h : ClassModel.Retraces s c₀ l p.model c') :
    Alike s c₀ l (xs.foldlM f p) (xs.foldlM f { p with model := c' }) := by
  induction xs generalizing p c' with
  | nil => exact .ok h
  | cons x xs ih =>
      rw [List.foldlM_cons, List.foldlM_cons]
      exact (hf p c' x List.mem_cons_self h).bind fun q d hq =>
        ih (fun q d y hy => hf q d y (List.mem_cons_of_mem x hy)) hq

theorem Alike.left (h : Alike s c₀ l e e') :
    ClassModel.Retraces s c₀ l (left e) (left e') := by
  cases h with
  | ok h => exact h
  | error v h => exact h

end Alike

theorem withMethods_of_retraces (h : ClassModel.Retraces s c₀ l p.model c') :
    p.withMethods c'.methods = { p with model := c' } :=
  congrArg (fun d => { p with model := d }) h.withMethods_eq.symm

theorem alike_withMethods {c : ClassModel} (hp : p.model = c)
    (h : ClassModel.Retraces s c₀ l c c') :
    Alike s c₀ l (.ok p) (.ok (p.withMethods c'.methods)) := by
  subst hp
  rw [withMethods_of_retraces h]
  exact .ok h

theorem alike_openProxy (hw : s.weaver.IgnoresMethods)
    (h : ClassModel.Retraces s c₀ l p.model c') :
    Alike s c₀ l (p.openProxy s) (openProxy { p with model := c' } s) := by
  have hdemand : demandProxy s.weaver c' p.main true none p.proxy =
      demandProxy s.weaver p.model p.main true none p.proxy := by
    rw [h.withMethods_eq]
    exact demandProxy_withMethods hw p.model c'.methods p.main true none p.proxy
  simp only [openProxy, hdemand]
  split
  · split
    · exact .ok h
    · exact .error _ h
  · exact .ok h

theorem alike_visitProperty (hh : s.strategy.handler.IgnoresMarks)
    (hs : s.strategy.readsProperties = true) {x : PropertyModel}
    (hx : x ∈ (c₀.resolve s.registry).properties) (h : ClassModel.Retraces s c₀ l p.model c') :
    Alike s c₀ l (p.visitProperty s x) (visitProperty { p with model := c' } s x) := by
  have hmodel := h.validateAccessors hs hx
  have hvisit := hh _ _ p.main s.strategy.optionalFieldValues x hmodel.bare_eq
  have horigins : originsOf (c'.validateAccessors s.registry x) x =
      originsOf (p.model.validateAccessors s.registry x) x := originsOf_eq_of_bare hmodel.bare_eq x
  unfold originsOf at horigins
  simp only [visitProperty, hvisit, hmodel.name_eq, horigins]
  split
  · exact .error _ hmodel
  · exact .ok hmodel
  · exact .ok hmodel

theorem alike_visitField (f : FieldModel) (h : ClassModel.Retraces s c₀ l p.model c') :
    Alike s c₀ l (.ok (p.visitField s f)) (.ok (visitField { p with model := c' } s f)) := by
  have hf : Enters s p (.field f) (judgeField f) (p.visitField s f) := .field f
  rw [← withMethods_of_retraces h, visitField_withMethods]
  exact alike_withMethods hf.model_eq h

theorem alike_visitMethod (hw : s.weaver.IgnoresMethods) (m : MethodModel)
    (h : ClassModel.Retraces s c₀ l p.model c') :
    Alike s c₀ l ((p.visitMethod s m).mapError fun v => ⟨v, p.model⟩)
      ((visitMethod { p with model := c' } s m).mapError fun v => ⟨v, c'⟩) := by
  rw [← withMethods_of_retraces h, visitMethod_withMethods p c'.methods hw]
  cases hv : p.visitMethod s m with
  | error v => exact .error v h
  | ok q =>
      obtain ⟨d, hd⟩ := enters_of_visitMethod hv
      exact alike_withMethods hd.model_eq h

theorem alike_visit (hw : s.weaver.IgnoresMethods) {slot : MemberSlot}
    (hslot : slot ∈ slots s.strategy c₀) (h : ClassModel.Retraces s c₀ l p.model c') :
    Alike s c₀ l (visit s p slot) (visit s { p with model := c' } slot) := by
  -- Both passes see the same at the position, as what is seen is marked already.
  rw [visit_eq, visit_eq, h.derived slot hslot]
  cases p.model.derived? s.registry slot with
  | none => exact .ok h
  | some x =>
      cases x with
      | field f => exact alike_visitField f h
      | method m =>
          exact alike_visitMethod (p := { p with model := p.model.derive s.registry [slot] }) hw m
            (h.derive slot)

theorem alike_run (hh : s.strategy.handler.IgnoresMarks) (hw : s.weaver.IgnoresMethods)
    (h : ClassModel.Retraces s c₀ l p.model c') :
    Alike s c₀ l (p.run s) (run { p with model := c' } s) := by
  have hproperties {c : ClassModel} (h : c₀.Marked s.registry c) :
      c.properties = (c₀.resolve s.registry).properties := by
    rw [h.rest]
  rw [run_eq, run_eq]
  refine (alike_openProxy hw h).bind fun q d hq => Alike.bind ?_ fun q d hq => ?_
  · rw [readProperties, readProperties, hproperties hq.first, hproperties hq.second]
    refine Alike.foldlM (fun q d x hx hq => ?_) hq
    by_cases hs : s.strategy.readsProperties = true
    · rw [if_pos hs] at hx
      exact alike_visitProperty hh hs hx hq
    · rw [if_neg hs] at hx
      cases hx
  · rw [ClassModel.slots_eq_of_bare hq.first.bare_eq, ClassModel.slots_eq_of_bare hq.second.bare_eq]
    exact Alike.foldlM (fun q d slot hslot hq => alike_visit hw hslot hq) hq

/-- What comes of a pass. -/
def outcome : Except Refusal Pass → Except Violation PlanSet
  | .ok p => .ok p.planSet
  | .error e => .error e.violation

theorem Alike.outcome_eq {e e' : Except Refusal Pass} (h : Alike s c₀ l e e') :
    outcome e' = outcome e := by
  cases h with
  | ok h =>
      simp only [outcome, planSet, h.name_eq]
  | error v h => rfl

end Pass

theorem result_build (s : Setting) (c : ClassModel) :
    (build s c).result = Pass.outcome ((Pass.start (c.resolve s.registry)).run s) := by
  unfold build
  split
  · rename_i h
    rw [h]
    rfl
  · rename_i h
    rw [h]
    rfl

/-- Building the class that a build has left behind comes to the same, whatever it came to. Without
properties the class stays as it is. -/
theorem build_idempotent (s : Setting) (c : ClassModel)
    (hh : s.strategy.handler = .noop ∨ s.strategy.handler = .configuration)
    (hw : s.weaver = .standard ∨ s.weaver = .declining) :
    (build s (build s c).model).result = (build s c).result ∧
      (s.strategy.mode = .simple ∨ s.strategy.mode = .alwaysProxy →
        (build s (build s c).model).model = (build s c).model) := by
  have hhandler : s.strategy.handler.IgnoresMarks := by
    rcases hh with hh | hh
    · exact hh ▸ PropertyHandler.noop_ignoresMarks
    · exact hh ▸ PropertyHandler.configuration_ignoresMarks
  have hweaver : s.weaver.IgnoresMethods := by
    rcases hw with hw | hw
    · exact hw ▸ Weaver.standard_ignoresMethods
    · exact hw ▸ Weaver.declining_ignoresMethods
  obtain ⟨l, h⟩ := ClassModel.Retraces.left s c
  generalize hd : (build s c).model = d at h ⊢
  have hstart : Pass.start (d.resolve s.registry) =
      { Pass.start (c.resolve s.registry) with model := d } := by
    rw [h.second.resolve_eq, h.withMethods_eq]
    rfl
  have halike := Pass.alike_run hhandler hweaver (p := Pass.start (c.resolve s.registry)) h
  rw [← hstart] at halike
  refine ⟨?_, fun hm => ?_⟩
  · rw [result_build, result_build]
    exact halike.outcome_eq
  · -- Where the first pass marked, the second marks again and changes nothing.
    have hs : s.strategy.readsProperties = false := by
      rcases hm with hm | hm <;> rw [Strategy.readsProperties, hm] <;> rfl
    calc (build s d).model
        = (build s c).model.derive s.registry l := by
          rw [model_build, model_build]
          exact halike.left.marks hs
      _ = d.derive s.registry l := by rw [hd]
      _ = (c.resolve s.registry).derive s.registry (l ++ l) := by
          rw [ClassModel.derive_append, ← h.marks hs]
      _ = (c.resolve s.registry).derive s.registry l :=
          ClassModel.derive_congr _ _ fun slot => by simp
      _ = d := (h.marks hs).symm

theorem build_idempotent_of_failed :
    let needy : CapabilitySet := CapabilitySet.empty.withDeclared Marker.requiresValidation
    let check : MethodModel := { name := "check", declaringType := "app.Base", capabilities := needy }
    let stop : MethodModel :=
      { name := "stop", declaringType := "app.Service", isStatic := true
        capabilities := CapabilitySet.empty.withDeclared Marker.preDestroy }
    let save : MethodModel := { name := "save", declaringType := "app.Service", capabilities := needy }
    let c : ClassModel := { name := "app.Service", methods := [stop, save, check] }
    let d := (build {} c).model
    d.methods.map (·.capabilities.hasDeclaredMarker Marker.validated) = [false, false, true] ∧
      (build {} d).result = .error ⟨.staticNotExecutable, "app.Service#stop()"⟩ ∧
      (build {} d).model = d := by
  intro needy check stop save c d
  have h := build_idempotent {} c (Or.inl rfl) (Or.inl rfl)
  exact ⟨rfl, h.1, h.2 (Or.inl rfl)⟩

end Wiring
