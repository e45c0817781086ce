import Wiring.Proofs.Course

/-!
# Entries

What classification enters on a plan, as one record. Entries are put together by `++`; what a run enters
is the total of what its candidates enter one by one (`Pass.Runs.main_entries`), on the proxy as long as the
weaver itself enters nothing but the methods that it is told to intercept (`Weaver.Plain`).
-/

namespace Wiring

/-- The entries of a plan: its lists of members, whether it needs processing, and its origins. -/
@[ext] structure Entries where
  postConstructMethods : List MethodRef := []
  preDestroyMethods : List MethodRef := []
  methodInjectionPoints : List MethodRef := []
  fieldInjectionPoints : List FieldRef := []
  fieldValues : List FieldValue := []
  setterValues : List SetterValue := []
  executableMethods : List MethodRef := []
  aroundMethods : List InterceptedMethod := []
  requiresMethodProcessing : Bool := false
  originatingElements : StringSet := .empty
  deriving DecidableEq

namespace Entries

def append (a b : Entries) : Entries where
  postConstructMethods := a.postConstructMethods ++ b.postConstructMethods
  preDestroyMethods := a.preDestroyMethods ++ b.preDestroyMethods
  methodInjectionPoints := a.methodInjectionPoints ++ b.methodInjectionPoints
  fieldInjectionPoints := a.fieldInjectionPoints ++ b.fieldInjectionPoints
  fieldValues := a.fieldValues ++ b.fieldValues
  setterValues := a.setterValues ++ b.setterValues
  executableMethods := a.executableMethods ++ b.executableMethods
  aroundMethods := a.aroundMethods ++ b.aroundMethods
  requiresMethodProcessing := a.requiresMethodProcessing || b.requiresMethodProcessing
  originatingElements := a.originatingElements.union b.originatingElements

instance : Append Entries := ⟨append⟩

/-- All entries of a list, one after the other. -/
def total (l : List Entries) : Entries := l.foldr (· ++ ·) {}

theorem append_def (a b : Entries) : a ++ b = a.append b := rfl

@[simp] theorem append_empty (a : Entries) : a ++ ({} : Entries) = a := by
  simp [append_def, append]

@[simp] theorem empty_append (a : Entries) : ({} : Entries) ++ a = a := by
  simp [append_def, append]

theorem append_assoc (a b c : Entries) : a ++ b ++ c = a ++ (b ++ c) := by
  simp [append_def, append, Bool.or_assoc, StringSet.union_assoc]

/-- What turns `++` into `++` turns the total into a concatenation. -/
theorem total_list {β : Type} {f : Entries → List β} (hnil : f {} = [])
    (happend : ∀ a b, f (a ++ b) = f a ++ f b) (l : List Entries) : f (total l) = l.flatMap f := by
  induction l with
  | nil => exact hnil
  | cons a l ih => rw [total, List.foldr_cons, happend, List.flatMap_cons, ← ih, total]

theorem total_processing (l : List Entries) :
    (total l).requiresMethodProcessing = l.any (·.requiresMethodProcessing) := by
  induction l with
  | nil => rfl
  | cons a l ih => rw [List.any_cons, ← ih]; rfl

theorem mem_total_origins {l : List Entries} {t : String} :
    t ∈ (total l).originatingElements ↔ ∃ e ∈ l, t ∈ e.originatingElements := by
  induction l with
  | nil => simp [total, StringSet.not_mem_empty]
  | cons a l ih =>
      have hcons : (total (a :: l)).originatingElements =
          a.originatingElements.union (total l).originatingElements := rfl
      rw [hcons, StringSet.mem_union, ih]
      simp

end Entries

namespace Plan

variable (p : Plan)

def entries : Entries where
  postConstructMethods := p.postConstructMethods
  preDestroyMethods := p.preDestroyMethods
  methodInjectionPoints := p.methodInjectionPoints
  fieldInjectionPoints := p.fieldInjectionPoints
  fieldValues := p.fieldValues
  setterValues := p.setterValues
  executableMethods := p.executableMethods
  aroundMethods := p.aroundMethods
  requiresMethodProcessing := p.requiresMethodProcessing
  originatingElements := p.originatingElements

@[simp] theorem entries_withShape (c : ClassModel) : (p.withShape c).entries = p.entries := by
  unfold withShape
  cases c.primaryConstructor <;> rfl

@[simp] theorem entries_withSuperBean (name : String) :
    (p.withSuperBean name).entries = p.entries := rfl

end Plan

/-! ## What a candidate enters -/

namespace Candidate

/-- The origin that a candidate names: its declaring type, if it is claimed and comes from elsewhere. -/
def origin (c : ClassModel) (x : Candidate) (d : Disposition) : StringSet :=
  if d.isClaimed && !x.member.isDeclaredOn c then .ofList [x.member.declaringType] else .empty

/-- Where a candidate is listed on the main plan. -/
def listing (c : ClassModel) (optional : Bool) : Candidate → Disposition → Entries
  | .field f, .fieldValue =>
    { fieldValues :=
        [⟨.of f (f.member.requiresReflection c), optional, f.capabilities.markerNames⟩] }
  | .field f, .fieldInjection =>
    { fieldInjectionPoints := [.of f (f.member.requiresReflection c)] }
  | .method m, .lifecycle post pre =>
    { postConstructMethods := if post then [.of m (m.member.requiresReflection c)] else []
      preDestroyMethods := if pre then [.of m (m.member.requiresReflection c)] else [] }
  | .method m, .methodInjection =>
    { methodInjectionPoints := [.of m (m.member.requiresReflection c)] }
  | .method m, .adapter _ => { executableMethods := [.of m false] }
  | .method m, .executable => { executableMethods := [.of m false] }
  | _, _ => {}

def mainEntries (s : Strategy) (c : ClassModel) (x : Candidate) (d : Disposition) : Entries :=
  { x.listing c s.optionalFieldValues d with
    requiresMethodProcessing := x.isProcessed s c
    originatingElements := if d = .intercepted then .empty else x.origin c d }

/-- What a candidate enters on the proxy. -/
def proxyEntries (r : Registry) (c : ClassModel) (x : Candidate) (d : Disposition) : Entries :=
  match x, d with
  | .method m, .intercepted =>
    { aroundMethods := [⟨.of m false, interceptorBindings r c m⟩]
      originatingElements := x.origin c d }
  | _, _ => {}

end Candidate

theorem judgeField_cases (f : FieldModel) :
    judgeField f = .unclaimed ∨ judgeField f = .fieldValue ∨ judgeField f = .fieldInjection := by
  unfold judgeField
  dsimp only
  split
  · exact Or.inl rfl
  · split
    · exact Or.inr (Or.inl rfl)
    · split
      · exact Or.inr (Or.inr rfl)
      · exact Or.inl rfl

theorem judgeField_ne_intercepted (f : FieldModel) : judgeField f ≠ .intercepted := by
  rcases judgeField_cases f with hj | hj | hj <;> simp [hj]

/-- A weaver that enters nothing on the plans it shapes but the methods it is told to intercept. -/
structure Weaver.Plain (w : Weaver) : Prop where
  proxyPlan : ∀ c main advice, (w.proxyPlan c main advice).entries = {}
  interceptMethod : ∀ proxy c m bindings,
    w.interceptMethod proxy c m bindings = proxy.addAround m bindings
  adapterPlan : ∀ c m n plan, w.adapterPlan c m n = some plan → plan.entries = {}

theorem Weaver.standard_plain : standard.Plain where
  proxyPlan _ _ _ := rfl
  interceptMethod _ _ _ _ := rfl
  adapterPlan c m n plan h := by
    simp only [standard] at h
    split at h
    · cases h
    · split at h
      · cases h
      · cases h
        rfl

theorem Weaver.declining_plain : declining.Plain where
  proxyPlan _ _ _ := rfl
  interceptMethod _ _ _ _ := rfl
  adapterPlan _ _ _ _ h := by cases h

open Entries

namespace Plan

variable (p : Plan)

theorem entries_withMethodProcessing :
    (p.withMethodProcessing true).entries = p.entries ++ { requiresMethodProcessing := true } := by
  simp [entries, withMethodProcessing, append_def, append]

theorem entries_addOriginating (t : String) :
    (p.addOriginating t).entries = p.entries ++ { originatingElements := .ofList [t] } := by
  have ho : p.originatingElements.insert t = p.originatingElements.union (.ofList [t]) := rfl
  simp [entries, addOriginating, append_def, append, StringSet.union_singleton]

theorem entries_addAround (m : MethodModel) (bindings : List String) :
    (p.addAround m bindings).entries = p.entries ++ { aroundMethods := [⟨.of m false, bindings⟩] } := by
  simp [entries, addAround, append_def, append]

end Plan

namespace Pass

/-- What has been entered on the proxy, nothing if there is none. -/
def proxyEntries (p : Pass) : Entries := (p.proxy.map Plan.entries).getD {}

variable {s : Setting} {p q : Pass} {x : Candidate} {d : Disposition}

theorem entries_flagged (p : Pass) (b : Bool) :
    (p.flagged b).main.entries = p.main.entries ++ { requiresMethodProcessing := b } := by
  cases b with
  | false => simp [flagged]
  | true => exact p.main.entries_withMethodProcessing

theorem entries_record (x : Candidate) (hd : d = .intercepted → p.proxy ≠ none) :
    (p.record x.kind x.member d).main.entries = p.main.entries ++
        { originatingElements := if d = .intercepted then .empty else x.origin p.model d } ∧
      (p.record x.kind x.member d).proxyEntries = p.proxyEntries ++
        { originatingElements := if d = .intercepted then x.origin p.model d else .empty } := by
  rw [main_record, proxyEntries, proxyEntries, proxy_record]
  by_cases hi : d = .intercepted
  · obtain ⟨proxy, hp⟩ := Option.ne_none_iff_exists'.1 (hd hi)
    by_cases hm : x.member.isDeclaredOn p.model = true
    · simp [hi, hp, hm, Candidate.origin]
    · simp [hi, hp, hm, Candidate.origin, Disposition.isClaimed, Plan.entries_addOriginating]
  · by_cases hc : d.isClaimed = true ∧ x.member.isDeclaredOn p.model = false
    · simp [hi, hc, Candidate.origin, Plan.entries_addOriginating]
    · have ho : (d.isClaimed && !x.member.isDeclaredOn p.model) = false := by simpa using hc
      simp [hi, hc, ho, Candidate.origin]

theorem Registers.main_entries {m : MethodModel} {v : Verdict} (h : Registers s p m v q d) :
    q.main.entries = p.main.entries ++
      (Candidate.method m).listing p.model s.strategy.optionalFieldValues d := by
  cases h with
  | lifecycle post pre hpost hpre =>
      subst hpost hpre
      cases post <;> cases pre <;>
        simp [Candidate.listing, Plan.entries, Plan.addPostConstruct, Plan.addPreDestroy, append_def,
          append]
  | _ =>
      simp [Candidate.listing, Plan.entries, Plan.addMethodInjection, Plan.addExecutable, append_def,
        append]

theorem Registers.proxy_ne_none {m : MethodModel} {v : Verdict} (h : Registers s p m v q d)
    (hd : d = .intercepted) : q.proxy ≠ none := by
  cases h with
  | intercepted => simp
  | _ => cases hd

theorem Registers.proxy_entries (hw : s.weaver.Plain) {m : MethodModel} {v : Verdict}
    (h : Registers s p m v q d) :
    q.proxyEntries = p.proxyEntries ++
      { aroundMethods := if d = .intercepted then
          [⟨.of m false, interceptorBindings s.registry p.model m⟩] else [] } := by
  cases h with
  | @intercepted proxy hd =>
      have hproxy : proxy.entries = p.proxyEntries := by
        cases hp : p.proxy with
        | some proxy' =>
            rw [hp, demandProxy_some] at hd
            cases hd
            simp [proxyEntries, hp]
        | none =>
            rw [hp, demandProxy_none] at hd
            cases hc : checkProxyable p.model with
            | error v => simp [hc, Except.map] at hd
            | ok _ =>
                obtain rfl : newProxy _ _ _ _ _ = proxy := by simpa [hc, Except.map] using hd
                simp [newProxy, hw.proxyPlan, proxyEntries, hp]
      rw [← hproxy]
      simp [proxyEntries, hw.interceptMethod, Plan.entries_addAround]
  | _ => simp [proxyEntries]

theorem entries_visitField (p : Pass) (s : Setting) (f : FieldModel) :
    (p.visitField s f).main.entries =
        p.main.entries ++ (Candidate.field f).mainEntries s.strategy p.model (judgeField f) ∧
      (p.visitField s f).proxyEntries = p.proxyEntries := by
  have hrecord (main : Plan) := entries_record (p := { p with main }) (d := judgeField f) (.field f)
  rcases judgeField_cases f with hj | hj | hj
  all_goals
    obtain ⟨hmain, hproxy⟩ := hrecord _ (by simp [hj])
    rw [hj] at hmain hproxy
    simp only [visitField, hj]
    refine ⟨hmain.trans ?_, hproxy.trans (by simp [proxyEntries])⟩
    simp [Candidate.mainEntries, Candidate.listing, Plan.entries, Plan.addFieldValue,
      Plan.addFieldInjection, append_def, append, Candidate.isProcessed]

/-- What a candidate enters is what it would enter on plans without entries. -/
theorem Enters.main_entries (h : Enters s p x d q) :
    q.main.entries = p.main.entries ++ x.mainEntries s.strategy p.model d := by
  cases h with
  | field f => exact (p.entries_visitField s f).1
  | @method m j q d hj hr =>
      have hmain := (entries_record (.method m) hr.proxy_ne_none).1
      rw [hr.model_eq, model_flagged, hr.main_entries, entries_flagged, append_assoc, append_assoc,
        model_flagged] at hmain
      refine hmain.trans (congrArg (p.main.entries ++ ·) ?_)
      cases d <;>
        simp [Candidate.mainEntries, Candidate.listing, Candidate.isProcessed, hj, append_def,
          append]

theorem Enters.proxy_entries (hw : s.weaver.Plain) (h : Enters s p x d q) :
    q.proxyEntries = p.proxyEntries ++ x.proxyEntries s.registry p.model d := by
  cases h with
  | field f => exact (p.entries_visitField s f).2.trans (append_empty _).symm
  | @method m j q d hj hr =>
      have hproxy := (entries_record (.method m) hr.proxy_ne_none).2
      have hb : (p.flagged j.processed).proxyEntries = p.proxyEntries := by
        rw [proxyEntries, proxy_flagged, proxyEntries]
      rw [hr.model_eq, model_flagged, hr.proxy_entries hw, hb, append_assoc] at hproxy
      refine hproxy.trans (congrArg (p.proxyEntries ++ ·) ?_)
      cases d <;> simp [Candidate.proxyEntries, append_def, append]

/-- What a run enters is the total of what its candidates enter. -/
theorem Runs.main_entries {es : List (Candidate × Disposition)} (h : Runs s p es q) :
    q.main.entries =
      p.main.entries ++ total (es.map fun e => e.1.mainEntries s.strategy p.model e.2) := by
  induction h with
  | nil p => exact (append_empty _).symm
  | @cons p q p' l x d es hx hes ih =>
      rw [hx.model_eq] at ih
      rw [ih, hx.main_entries, append_assoc]
      -- What is entered does not depend on the methods of the class.
      rfl

theorem Runs.proxy_entries (hw : s.weaver.Plain) {es : List (Candidate × Disposition)}
    (h : Runs s p es q) :
    q.proxyEntries =
      p.proxyEntries ++ total (es.map fun e => e.1.proxyEntries s.registry p.model e.2) := by
  induction h with
  | nil p => exact (append_empty _).symm
  | @cons p q p' l x d es hx hes ih =>
      rw [hx.model_eq] at ih
      rw [ih, hx.proxy_entries hw, append_assoc]
      rfl

theorem Runs.entries_adapter (hw : s.weaver.Plain) {es : List (Candidate × Disposition)}
    (h : Runs s p es q) (hp : ∀ a ∈ p.adapters, a.entries = {}) :
    ∀ a ∈ q.adapters, a.entries = {} := by
  induction h with
  | nil p => exact hp
  | @cons p q p' l x d es hx hes ih =>
      refine ih fun a ha => ?_
      cases hx with
      | field f => exact hp a (by simpa [visitField] using ha)
      | @method m j q d hj hr =>
          rw [adapters_record] at ha
          generalize hv : j.verdict = v at hr
          cases hr with
          | adapted hplan =>
              rcases List.mem_append.1 ha with ha | ha
              · exact hp a (by simpa using ha)
              · rw [List.mem_singleton.1 ha]
                exact hw.adapterPlan _ _ _ _ hplan
          | _ => exact hp a (by simpa using ha)

theorem entries_start (c : ClassModel) : (start c).main.entries = {} :=
  (Plan.new (Plan.definitionName c.name) c.name .bean).entries_withShape c

theorem main_entries_opened (s : Setting) (c : ClassModel) : (opened s c).main.entries = {} := by
  unfold opened
  split <;> exact entries_start _

theorem adapters_opened (s : Setting) (c : ClassModel) : (opened s c).adapters = [] := by
  unfold opened
  split <;> rfl

theorem proxy_entries_opened (hw : s.weaver.Plain) (c : ClassModel) :
    (opened s c).proxyEntries = {} := by
  have hproxy : (start (c.resolve s.registry)).proxy = none := rfl
  unfold opened
  by_cases ha : s.strategy.alwaysProxies = true
  · simp [ha, proxyEntries, newProxy, hw.proxyPlan]
  · simp [ha, hproxy, proxyEntries]

end Pass

end Wiring
