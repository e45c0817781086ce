import Wiring.Proofs.Traversal

/-!
# The course of a build

A build makes the proxy of a class that is proxied as a whole, reads the properties, and runs over
the candidates (`Course`). Main statements: a build that succeeds took such a course (`build_ok`); one
whose handler does not fail, fails exactly by the final class or by the first candidate about which a
violation is decided (`build_eq_error`).
-/

namespace Wiring

/-- A handler that leaves alone what is told of a plan. -/
def PropertyHandler.Keeps {α : Type} (h : PropertyHandler) (f : Plan → α) : Prop :=
  ∀ c plan optional x claimed main,
    h.visit c plan optional x = .ok (claimed, main) → f main = f plan

namespace Pass

/-! ## Reading properties -/

/-- The types from elsewhere that declare what makes up a property. -/
def originsOf (c : ClassModel) (x : PropertyModel) : List String :=
  let members :=
    (c.accessors x).filterMap (fun i => c.methods[i]?.map (·.member)) ++
      (c.backingIndex? x).toList.filterMap fun i => c.fields[i]?.map (·.member)
  (members.filter (!·.isDeclaredOn c)).map (·.declaringType)

/-- How a property is claimed or left. -/
inductive Claims (s : Setting) (p : Pass) (x : PropertyModel) : Disposition → Pass → Prop
  | left {main : Plan}
      (h : s.strategy.handler.visit (p.model.validateAccessors s.registry x) p.main
        s.strategy.optionalFieldValues x = .ok (false, main)) :
      Claims s p x .unclaimed
        (note { p with model := p.model.validateAccessors s.registry x, main } .property
          (p.model.name ++ "#" ++ x.name) .unclaimed)
  | claimed {main main' : Plan}
      (h : s.strategy.handler.visit (p.model.validateAccessors s.registry x) p.main
        s.strategy.optionalFieldValues x = .ok (true, main))
      (hmain : main' =
        (originsOf (p.model.validateAccessors s.registry x) x).foldl Plan.addOriginating main) :
      Claims s p x .property
        (note { p with model := p.model.validateAccessors s.registry x, main := main' } .property
          (p.model.name ++ "#" ++ x.name) .property)

inductive Reads (s : Setting) : Pass → List (PropertyModel × Disposition) → Pass → Prop
  | nil (p : Pass) : Reads s p [] p
  | cons {p q p' : Pass} {x : PropertyModel} {d : Disposition}
      {rs : List (PropertyModel × Disposition)} (hx : Claims s p x d q) (hrs : Reads s q rs p') :
      Reads s p ((x, d) :: rs) p'

theorem name_validateAccessors (c : ClassModel) (r : Registry) (x : PropertyModel) :
    (c.validateAccessors r x).name = c.name := by
  unfold ClassModel.validateAccessors
  split <;> rfl

theorem claims_of_visitProperty {s : Setting} {p q : Pass} {x : PropertyModel}
    (h : p.visitProperty s x = .ok q) : ∃ d, Claims s p x d q := by
  simp only [visitProperty, name_validateAccessors] at h
  split at h
  · cases h
  · rename_i main hv
    cases h
    exact ⟨_, .left hv⟩
  · rename_i main hv
    cases h
    exact ⟨_, .claimed hv rfl⟩

theorem visitProperty_error {s : Setting} {p : Pass} {x : PropertyModel} {e : Refusal}
    (h : p.visitProperty s x = .error e) :
    s.strategy.handler.visit (p.model.validateAccessors s.registry x) p.main
      s.strategy.optionalFieldValues x = .error e.violation := by
  simp only [visitProperty] at h
  split at h
  · rename_i hv
    cases h
    exact hv
  · cases h
  · cases h

theorem reads_of_foldlM {s : Setting} {xs : List PropertyModel} {p q : Pass}
    (h : xs.foldlM (fun p x => visitProperty p s x) p = .ok q) :
    ∃ rs, rs.map (·.1) = xs ∧ Reads s p rs q := by
  induction xs generalizing p with
  | nil =>
      cases h
      exact ⟨[], rfl, .nil _⟩
  | cons x xs ih =>
      rw [List.foldlM_cons] at h
      obtain ⟨p₁, h₁, h₂⟩ := bind_eq_ok.1 h
      obtain ⟨rs, hrs, hreads⟩ := ih h₂
      obtain ⟨d, hd⟩ := claims_of_visitProperty h₁
      exact ⟨(x, d) :: rs, by rw [List.map_cons, hrs], .cons hd hreads⟩

theorem validateAccessors_eq (c : ClassModel) (r : Registry) (x : PropertyModel) :
    ∃ js, (∀ j ∈ js, j ∈ c.accessors x) ∧
      c.validateAccessors r x = c.modifyMethods (·.markValidated r) js := by
  unfold ClassModel.validateAccessors
  split
  · exact ⟨c.accessors x, fun _ h => h, rfl⟩
  · exact ⟨[], by simp, rfl⟩

theorem bare_validateAccessors (c : ClassModel) (r : Registry) (x : PropertyModel) :
    (c.validateAccessors r x).bare = c.bare := by
  obtain ⟨js, _, hjs⟩ := validateAccessors_eq c r x
  rw [hjs, ClassModel.bare_modifyMethods fun m => m.bare_markValidated r]

theorem Claims.model_eq {s : Setting} {p q : Pass} {x : PropertyModel} {d : Disposition}
    (h : Claims s p x d q) : q.model = p.model.validateAccessors s.registry x := by
  cases h <;> rfl

theorem Claims.proxy_eq {s : Setting} {p q : Pass} {x : PropertyModel} {d : Disposition}
    (h : Claims s p x d q) : q.proxy = p.proxy := by
  cases h <;> rfl

theorem Claims.adapters_eq {s : Setting} {p q : Pass} {x : PropertyModel} {d : Disposition}
    (h : Claims s p x d q) : q.adapters = p.adapters := by
  cases h <;> rfl

theorem Claims.dispositions_eq {s : Setting} {p q : Pass} {x : PropertyModel} {d : Disposition}
    (h : Claims s p x d q) :
    q.dispositions = p.dispositions ++ [⟨.property, p.model.name ++ "#" ++ x.name, d⟩] := by
  cases h <;> rfl

theorem accessors_eq_of_bare {c c' : ClassModel} (h : c'.bare = c.bare) (x : PropertyModel) :
    c'.accessors x = c.accessors x := by
  unfold ClassModel.accessors
  rw [← c.readerIndex?_bare, ← c.writerIndex?_bare, ← h, c'.readerIndex?_bare, c'.writerIndex?_bare]

theorem Reads.model_eq {s : Setting} {p q : Pass} {rs : List (PropertyModel × Disposition)}
    (h : Reads s p rs q) :
    ∃ js, (∀ j ∈ js, ∃ x ∈ rs.map (·.1), j ∈ p.model.accessors x) ∧
      q.model = p.model.modifyMethods (·.markValidated s.registry) js := by
  induction h with
  | nil p => exact ⟨[], by simp, rfl⟩
  | @cons p q p' x d rs hx hrs ih =>
      obtain ⟨js, hjs, hq⟩ := validateAccessors_eq p.model s.registry x
      obtain ⟨ks, hks, hp'⟩ := ih
      rw [hx.model_eq, hq] at hp' hks
      refine ⟨js ++ ks, fun j hj => ?_, by rw [hp', ClassModel.modifyMethods_append]⟩
      rcases List.mem_append.1 hj with hj | hj
      · exact ⟨x, List.mem_cons_self, hjs j hj⟩
      · obtain ⟨y, hy, hjy⟩ := hks j hj
        have hbare := ClassModel.bare_modifyMethods (c := p.model)
          (fun m => m.bare_markValidated s.registry) js
        rw [accessors_eq_of_bare hbare] at hjy
        exact ⟨y, List.mem_cons_of_mem _ hy, hjy⟩

theorem Reads.proxy_eq {s : Setting} {p q : Pass} {rs : List (PropertyModel × Disposition)}
    (h : Reads s p rs q) : q.proxy = p.proxy := by
  induction h with
  | nil p => rfl
  | cons hx _ ih => exact ih.trans hx.proxy_eq

theorem Reads.adapters_eq {s : Setting} {p q : Pass} {rs : List (PropertyModel × Disposition)}
    (h : Reads s p rs q) : q.adapters = p.adapters := by
  induction h with
  | nil p => rfl
  | cons hx _ ih => exact ih.trans hx.adapters_eq

theorem Reads.dispositions_eq {s : Setting} {p q : Pass} {rs : List (PropertyModel × Disposition)}
    (h : Reads s p rs q) :
    q.dispositions = p.dispositions ++
      rs.map fun e => ⟨.property, p.model.name ++ "#" ++ e.1.name, e.2⟩ := by
  induction h with
  | nil p => simp
  | @cons p q p' x d rs hx hrs ih =>
      have hname : q.model.name = p.model.name := by rw [hx.model_eq, name_validateAccessors]
      rw [ih, hx.dispositions_eq, hname, List.map_cons, List.append_assoc, List.singleton_append]

/-- Whatever naming other types leaves alone is as the handler left it. -/
theorem Claims.visited {s : Setting} {p q : Pass} {α : Type} {f : Plan → α}
    (hf : ∀ plan t, f (plan.addOriginating t) = f plan) {x : PropertyModel} {d : Disposition}
    (h : Claims s p x d q) : ∃ claimed main,
      s.strategy.handler.visit (p.model.validateAccessors s.registry x) p.main
        s.strategy.optionalFieldValues x = .ok (claimed, main) ∧ f q.main = f main := by
  cases h with
  | left hv => exact ⟨false, _, hv, rfl⟩
  | @claimed main _ hv hmain =>
      have hfold (ts : List String) (main : Plan) : f (ts.foldl Plan.addOriginating main) = f main := by
        induction ts generalizing main with
        | nil => rfl
        | cons t ts ih => exact (ih (main.addOriginating t)).trans (hf main t)
      refine ⟨true, main, hv, ?_⟩
      rw [note, hmain, hfold]

theorem Claims.keeps {s : Setting} {p q : Pass} {α : Type} {f : Plan → α} (hh : s.strategy.handler.Keeps f)
    (hf : ∀ plan t, f (plan.addOriginating t) = f plan) {x : PropertyModel} {d : Disposition}
    (h : Claims s p x d q) : f q.main = f p.main := by
  obtain ⟨_, _, hv, hmain⟩ := h.visited hf
  exact hmain.trans (hh _ _ _ _ _ _ hv)

/-- Reading properties leaves alone what the handler and the naming of other types do. -/
theorem Reads.keeps {s : Setting} {p q : Pass} {α : Type} {f : Plan → α} (hh : s.strategy.handler.Keeps f)
    (hf : ∀ plan t, f (plan.addOriginating t) = f plan) {rs : List (PropertyModel × Disposition)}
    (h : Reads s p rs q) : f q.main = f p.main := by
  induction h with
  | nil p => rfl
  | cons hx _ ih => exact ih.trans (hx.keeps hh hf)

/-! ## The whole course -/

/-- The pass over a class once its proxy is made, if it is proxied as a whole. -/
def opened (s : Setting) (c : ClassModel) : Pass :=
  let p := start (c.resolve s.registry)
  if s.strategy.alwaysProxies then
    { p with proxy := some (newProxy s.weaver p.model p.main true none) }
  else p

end Pass

/-- The course of a build: properties are read, then the candidates are run over. -/
structure Course (s : Setting) (c : ClassModel) (rs : List (PropertyModel × Disposition))
    (es : List (Candidate × Disposition)) (p q : Pass) : Prop where
  notFinal : s.strategy.alwaysProxies = true → c.isFinal = false
  properties : rs.map (·.1) =
    if s.strategy.readsProperties then (c.resolve s.registry).properties else []
  reads : Pass.Reads s (Pass.opened s c) rs p
  candidates : es.map (·.1) = (c.candidates s.strategy).map (Candidate.seen s.registry)
  runs : Pass.Runs s p es q

variable {s : Setting} {c : ClassModel} {rs : List (PropertyModel × Disposition)}
  {es : List (Candidate × Disposition)} {p q : Pass}

namespace Pass

theorem openProxy_eq (s : Setting) (c : ClassModel) :
    (start (c.resolve s.registry)).openProxy s =
      if s.strategy.alwaysProxies = true ∧ c.isFinal = true then
        .error ⟨⟨.finalClassProxy, c.name⟩, c.resolve s.registry⟩
      else .ok (opened s c) := by
  have hfinal : (start (c.resolve s.registry)).model.isFinal = c.isFinal := rfl
  have hproxy : (start (c.resolve s.registry)).proxy = none := rfl
  unfold openProxy opened
  by_cases ha : s.strategy.alwaysProxies = true
  · rw [if_pos ha, hproxy, demandProxy_none]
    by_cases hf : c.isFinal = true
    · simp [ha, hf, checkProxyable_eq_error.2 ⟨hfinal.trans hf, rfl⟩, Except.map]
      exact ⟨rfl, rfl⟩
    · have hc := checkProxyable_eq_ok.2 (hfinal.trans (Bool.eq_false_iff.2 hf))
      simp [ha, hf, hc, Except.map]
  · simp [ha]

theorem model_opened (s : Setting) (c : ClassModel) :
    (opened s c).model = c.resolve s.registry := by
  unfold opened
  split <;> rfl

theorem dispositions_opened (s : Setting) (c : ClassModel) : (opened s c).dispositions = [] := by
  unfold opened
  split <;> rfl

def readProperties (s : Setting) (p : Pass) : Except Refusal Pass :=
  (if s.strategy.readsProperties then p.model.properties else []).foldlM
    (fun p x => p.visitProperty s x) p

theorem run_eq (s : Setting) (p : Pass) :
    p.run s = p.openProxy s >>= fun p => p.readProperties s >>= fun p =>
      (slots s.strategy p.model).foldlM (visit s) p := by
  unfold run readProperties
  by_cases h : s.strategy.readsProperties = true
  · simp only [h, if_true]
  · simp only [h]
    rfl

theorem reads_of_readProperties (h : (opened s c).readProperties s = .ok p) :
    ∃ rs, rs.map (·.1) =
        (if s.strategy.readsProperties then (c.resolve s.registry).properties else []) ∧
      Reads s (opened s c) rs p := by
  obtain ⟨rs, hrs, hreads⟩ := reads_of_foldlM h
  rw [model_opened] at hrs
  exact ⟨rs, hrs, hreads⟩

theorem model_of_reads
    (hrs : rs.map (·.1) =
      if s.strategy.readsProperties then (c.resolve s.registry).properties else [])
    (h : Reads s (opened s c) rs p) :
    ∃ js, (∀ j ∈ js, s.strategy.readsProperties = true ∧ c.constitutesMethod j = true) ∧
      p.model = (c.resolve s.registry).modifyMethods (·.markValidated s.registry) js := by
  obtain ⟨js, hjs, hp⟩ := h.model_eq
  rw [model_opened] at hjs hp
  refine ⟨js, fun j hj => ?_, hp⟩
  obtain ⟨x, hx, hjx⟩ := hjs j hj
  rw [hrs] at hx
  by_cases hs : s.strategy.readsProperties = true
  · rw [if_pos hs] at hx
    have hconstitutes := ClassModel.constitutesMethod_of_mem_accessors hx hjx
    rw [c.constitutesMethod_resolve] at hconstitutes
    exact ⟨hs, hconstitutes⟩
  · rw [if_neg hs] at hx
    cases hx

end Pass

/-- Unless properties are read, the run begins where the pass was opened. -/
theorem Course.eq_opened (h : Course s c rs es p q) (hs : s.strategy.readsProperties = false) :
    p = Pass.opened s c := by
  have hrs := h.properties
  rw [hs] at hrs
  obtain rfl : rs = [] := List.map_eq_nil_iff.1 hrs
  have hreads := h.reads
  cases hreads
  rfl

/-- What the handler leaves alone stays as it was when the pass was opened, until the run begins. -/
theorem Course.keeps {α : Type} {f : Plan → α} (h : Course s c rs es p q)
    (hh : s.strategy.readsProperties = true → s.strategy.handler.Keeps f)
    (hf : ∀ plan t, f (plan.addOriginating t) = f plan) : f p.main = f (Pass.opened s c).main := by
  cases hs : s.strategy.readsProperties with
  | true => exact h.reads.keeps (hh hs) hf
  | false => rw [h.eq_opened hs]

theorem Pass.run_eq_ok : (start (c.resolve s.registry)).run s = .ok q ↔
    ¬(s.strategy.alwaysProxies = true ∧ c.isFinal = true) ∧
      ∃ p, (opened s c).readProperties s = .ok p ∧
        (slots s.strategy p.model).foldlM (visit s) p = .ok q := by
  rw [run_eq, openProxy_eq]
  by_cases hf : s.strategy.alwaysProxies = true ∧ c.isFinal = true
  · rw [if_pos hf]
    refine ⟨fun h => ?_, fun h => absurd hf h.1⟩
    cases h
  · rw [if_neg hf]
    exact ⟨fun h => ⟨hf, bind_eq_ok.1 h⟩, fun h => (bind_eq_ok.2 h.2 :)⟩

theorem Course.of_runs (hf : ¬(s.strategy.alwaysProxies = true ∧ c.isFinal = true))
    (hp : (Pass.opened s c).readProperties s = .ok p)
    (hes : es.map (·.1) =
      (Pass.slots s.strategy p.model).filterMap (p.model.derived? s.registry))
    (hruns : Pass.Runs s p es q) : ∃ rs, Course s c rs es p q := by
  obtain ⟨rs, hrs, hreads⟩ := Pass.reads_of_readProperties hp
  obtain ⟨js, hjs, hm⟩ := Pass.model_of_reads hrs hreads
  rw [ClassModel.filterMap_derived? hm hjs] at hes
  refine ⟨rs, fun ha => ?_, hrs, hreads, hes, hruns⟩
  exact Bool.eq_false_iff.2 fun hc => hf ⟨ha, hc⟩

theorem run_of_build {set : PlanSet} (h : (build s c).result = .ok set) :
    ∃ q, (Pass.start (c.resolve s.registry)).run s = .ok q ∧ set = q.planSet := by
  unfold build at h
  cases hr : (Pass.start (c.resolve s.registry)).run s with
  | error e => simp [hr] at h
  | ok q =>
      obtain rfl : q.planSet = set := by simpa [hr] using h
      exact ⟨q, rfl, rfl⟩

/-- A build that succeeds took a course, and its plans are those at the end. -/
theorem build_ok {set : PlanSet} (h : (build s c).result = .ok set) :
    ∃ rs es p q, Course s c rs es p q ∧ set = q.planSet := by
  obtain ⟨q, hr, rfl⟩ := run_of_build h
  obtain ⟨hf, p, hp, hv⟩ := Pass.run_eq_ok.1 hr
  obtain ⟨_, es, hes, hruns⟩ := Pass.visits_ok hv
  obtain ⟨rs, hcourse⟩ := Course.of_runs hf hp hes hruns
  exact ⟨rs, es, p, q, hcourse, rfl⟩

/-! ## What is told -/

def PropertyModel.resolve (r : Registry) (x : PropertyModel) : PropertyModel :=
  { x with capabilities := x.capabilities.resolve r }

namespace Candidate

@[simp] theorem kind_seen (r : Registry) (x : Candidate) : (x.seen r).kind = x.kind := by
  cases x <;> rfl

@[simp] theorem description_seen (r : Registry) (x : Candidate) :
    (x.seen r).member.description = x.member.description := by
  cases x with
  | field f => rfl
  | method m => exact MethodModel.description_of_bare (m.bare_derived r)

end Candidate

namespace Pass

theorem Registers.dispositions_eq {m : MethodModel} {v : Verdict} {d : Disposition}
    (h : Registers s p m v q d) : q.dispositions = p.dispositions := by
  cases h <;> rfl

theorem Runs.dispositions_eq (h : Runs s p es q) :
    q.dispositions = p.dispositions ++
      es.map fun e => ⟨e.1.kind, e.1.member.description, e.2⟩ := by
  induction h with
  | nil p => simp
  | @cons p q p' l x d es hx hes ih =>
      have hq : q.dispositions = p.dispositions ++ [⟨x.kind, x.member.description, d⟩] := by
        cases hx with
        | field f => simp [visitField, Candidate.kind, Candidate.member]
        | method hj hr => simp [hr.dispositions_eq, Candidate.kind, Candidate.member]
      rw [ih, hq, List.map_cons, List.append_assoc, List.singleton_append]

end Pass

/-- A plan set tells what became of each property that is read and of each candidate. -/
structure PlanSet.Tells (set : PlanSet) (s : Strategy) (c : ClassModel)
    (rs : List (PropertyModel × Disposition)) (es : List (Candidate × Disposition)) : Prop where
  properties : rs.map (·.1) = if s.readsProperties then c.properties else []
  candidates : es.map (·.1) = c.candidates s
  dispositions : set.dispositions =
    rs.map (fun e => ⟨.property, c.name ++ "#" ++ e.1.name, e.2⟩) ++
      es.map fun e => ⟨e.1.kind, e.1.member.description, e.2⟩

/-- What became of each property and of each candidate is told unambiguously. -/
theorem PlanSet.Tells.unique {set : PlanSet} {s : Strategy} {xs : List (PropertyModel × Disposition)}
    {ys : List (Candidate × Disposition)} (h : set.Tells s c rs es) (h' : set.Tells s c xs ys) :
    xs = rs ∧ ys = es := by
  have hrs : xs.map (·.1) = rs.map (·.1) := h'.properties.trans h.properties.symm
  have hes : ys.map (·.1) = es.map (·.1) := h'.candidates.trans h.candidates.symm
  have hlength : xs.length = rs.length := by simpa using congrArg List.length hrs
  obtain ⟨hproperties, hcandidates⟩ :=
    List.append_inj (h'.dispositions.symm.trans h.dispositions) (by simpa using hlength)
  have hproperties' := congrArg (List.map (·.disposition)) hproperties
  have hcandidates' := congrArg (List.map (·.disposition)) hcandidates
  rw [List.map_map, List.map_map] at hproperties' hcandidates'
  exact ⟨(List.zip_of_prod hrs hproperties').trans (List.zip_of_prod rfl rfl).symm,
    (List.zip_of_prod hes hcandidates').trans (List.zip_of_prod rfl rfl).symm⟩

theorem unmap_fst {α β γ : Type} {f : β → α} {l : List (α × γ)} {xs : List β}
    (h : l.map (·.1) = xs.map f) :
    ∃ k : List (β × γ), k.map (·.1) = xs ∧ l = k.map fun e => (f e.1, e.2) := by
  induction l generalizing xs with
  | nil =>
      obtain rfl : xs = [] := by simpa using h.symm
      exact ⟨[], rfl, rfl⟩
  | cons e l ih =>
      cases xs with
      | nil => simp at h
      | cons x xs =>
          simp only [List.map_cons, List.cons.injEq] at h
          obtain ⟨k, hk, hl⟩ := ih h.2
          exact ⟨(x, e.2) :: k, by simp [hk], by simp [hl, ← h.1]⟩

theorem Course.tells (h : Course s c rs es p q) :
    ∃ xs ys, q.planSet.Tells s.strategy c xs ys ∧
      rs = xs.map (fun e => (e.1.resolve s.registry, e.2)) ∧
      es = ys.map fun e => (e.1.seen s.registry, e.2) := by
  have hrs : rs.map (·.1) =
      (if s.strategy.readsProperties then c.properties else []).map (·.resolve s.registry) := by
    rw [h.properties]
    split <;> rfl
  obtain ⟨xs, hxs, rfl⟩ := unmap_fst hrs
  obtain ⟨ys, hys, rfl⟩ := unmap_fst h.candidates
  refine ⟨xs, ys, ⟨hxs, hys, ?_⟩, rfl, rfl⟩
  have hq : q.planSet.dispositions = q.dispositions := rfl
  have hname : (Pass.opened s c).model.name = c.name := by
    rw [Pass.model_opened]
    rfl
  rw [hq, h.runs.dispositions_eq, h.reads.dispositions_eq, Pass.dispositions_opened, hname]
  simp [Function.comp_def, PropertyModel.resolve]

/-! ## Failure -/

/-- A handler that never fails. -/
def PropertyHandler.Total (h : PropertyHandler) : Prop :=
  ∀ c plan b x v, h.visit c plan b x ≠ .error v

theorem Pass.readProperties_total
    (ht : s.strategy.readsProperties = true → s.strategy.handler.Total) (p : Pass) {e : Refusal} :
    p.readProperties s ≠ .error e := by
  unfold readProperties
  by_cases hs : s.strategy.readsProperties = true
  · rw [if_pos hs]
    generalize p.model.properties = xs
    induction xs generalizing p with
    | nil =>
        intro h
        cases h
    | cons x xs ih =>
        intro h
        rw [List.foldlM_cons] at h
        rcases bind_eq_error.1 h with h | ⟨p₁, _, h⟩
        · exact ht hs _ _ _ _ _ (visitProperty_error h)
        · exact ih p₁ h
  · rw [if_neg hs]
    intro h
    cases h

/-- The violation that is decided about the first offending candidate. -/
def firstViolation? (s : Setting) (c : ClassModel) : Option Violation :=
  ((c.candidates s.strategy).map (Candidate.seen s.registry)).findSome?
    (Candidate.violation? s.strategy (c.resolve s.registry))

theorem Pass.opened_unproxied (hf : s.strategy.alwaysProxies = true → c.isFinal = false) :
    (opened s c).Unproxied := by
  intro hfinal
  rw [model_opened] at hfinal
  by_cases ha : s.strategy.alwaysProxies = true
  · exact absurd (hfinal.symm.trans (hf ha)) (by decide)
  · simp [opened, ha, start]

theorem Pass.unproxied_of_reads (hf : s.strategy.alwaysProxies = true → c.isFinal = false)
    (hrs : rs.map (·.1) =
      if s.strategy.readsProperties then (c.resolve s.registry).properties else [])
    (h : Reads s (opened s c) rs p) : p.Unproxied := by
  obtain ⟨js, _, hm⟩ := model_of_reads hrs h
  intro hfinal
  rw [h.proxy_eq]
  apply opened_unproxied hf
  rw [model_opened]
  rwa [hm] at hfinal

theorem Course.firstViolation?_eq_none (h : Course s c rs es p q) : firstViolation? s c = none := by
  have hp := Pass.unproxied_of_reads h.notFinal h.properties h.reads
  obtain ⟨js, _, hm⟩ := Pass.model_of_reads h.properties h.reads
  obtain ⟨_, hes⟩ := h.runs.unproxied hp
  rw [firstViolation?, ← h.candidates, List.findSome?_eq_none_iff]
  intro x hx
  obtain ⟨e, he, rfl⟩ := List.mem_map.1 hx
  have hv := hes e he
  rw [hm] at hv
  exact hv

/-- A pass stops at a method: the properties are read, nothing is decided against the members before it,
and it is marked if it requires validation before a violation is decided about it. -/
structure Pass.Stops (s : Setting) (c : ClassModel) (rs : List (PropertyModel × Disposition)) (p : Pass)
    (pre : List MemberSlot) (i : Nat) (post : List MemberSlot) (m : MethodModel) (e : Refusal) : Prop where
  properties : rs.map (·.1) =
    if s.strategy.readsProperties then (c.resolve s.registry).properties else []
  reads : Reads s (opened s c) rs p
  slots : Pass.slots s.strategy c = pre ++ .method i :: post
  model : e.model = p.model.derive s.registry (pre ++ [.method i])
  stands : c.methods[i]? = some m
  fault : (Candidate.seen s.registry (.method m)).violation? s.strategy (c.resolve s.registry) =
    some e.violation
  sound : ∀ x ∈ pre.filterMap c.candidate?,
    (x.seen s.registry).violation? s.strategy (c.resolve s.registry) = none

/-- A pass whose handler does not fail, and that is opened, fails at a method only. -/
theorem Pass.stops_of_run (ht : s.strategy.readsProperties = true → s.strategy.handler.Total)
    (hf : ¬(s.strategy.alwaysProxies = true ∧ c.isFinal = true)) {e : Refusal}
    (h : (Pass.start (c.resolve s.registry)).run s = .error e) :
    ∃ rs p pre i post m, Stops s c rs p pre i post m e := by
  have hopen : s.strategy.alwaysProxies = true → c.isFinal = false :=
    fun ha => Bool.eq_false_iff.2 fun hc => hf ⟨ha, hc⟩
  rw [run_eq, openProxy_eq, if_neg hf] at h
  rcases bind_eq_error.1 h with h | ⟨_, hp₀, h⟩
  · cases h
  · cases hp₀
    rcases bind_eq_error.1 h with h | ⟨p, hp, h⟩
    · exact absurd h (readProperties_total ht _)
    · obtain ⟨rs, hrs, hreads⟩ := reads_of_readProperties hp
      obtain ⟨js, hjs, hm⟩ := model_of_reads hrs hreads
      obtain ⟨pre, slot, post, hl, hmodel, es, q, m', hes, hruns, hx, hv⟩ := visits_error h
      obtain ⟨hq, hnone⟩ := hruns.unproxied (unproxied_of_reads hopen hrs hreads)
      rw [ClassModel.slots_eq_of_bare (ClassModel.bare_of_marks hm)] at hl
      have hseen (k : MemberSlot) (hk : k ∈ pre ++ [slot]) :
          p.model.derived? s.registry k = (c.candidate? k).map (Candidate.seen s.registry) := by
        refine ClassModel.derived?_eq_seen hm hjs ?_
        rw [hl, List.append_cons]
        exact List.mem_append_left post hk
      -- The class as it stands differs from the resolved one in its methods only.
      have hdecide : decideMethod s.strategy (c.resolve s.registry) m' = .error e.violation := by
        have hqe : ({ q with model := e.model } : Pass).Unproxied := by
          obtain ⟨ms, hms⟩ := hruns.model_eq
          have hqm : q.model.isFinal = e.model.isFinal := by
            rw [hms, hmodel]
            rfl
          intro hfinal
          exact hq (hqm.trans hfinal)
        have hve := (visitMethod_eq_error hqe).1 hv
        rw [hmodel, hm] at hve
        exact hve
      rw [hseen slot (List.mem_append_right pre (List.mem_singleton_self slot))] at hx
      obtain ⟨x, hcandidate, hxm⟩ := Option.map_eq_some_iff.1 hx
      obtain ⟨i, m, rfl, hstands, rfl⟩ : ∃ i m, slot = .method i ∧ c.methods[i]? = some m ∧
          x = .method m := by
        cases slot with
        | field i =>
            obtain ⟨f, _, rfl⟩ := Option.map_eq_some_iff.1 hcandidate
            cases hxm
        | method i =>
            obtain ⟨m, hi, rfl⟩ := Option.map_eq_some_iff.1 hcandidate
            exact ⟨i, m, rfl, hi, rfl⟩
      refine ⟨rs, p, pre, i, post, m, hrs, hreads, hl, hmodel, hstands, ?_, ?_⟩
      · rw [hxm, Candidate.violation?, hdecide]
      · intro x hx
        have hpre : pre.filterMap (p.model.derived? s.registry) =
            (pre.filterMap c.candidate?).map (Candidate.seen s.registry) := by
          rw [List.map_filterMap]
          exact List.filterMap_congr fun k hk => hseen k (List.mem_append_left _ hk)
        rw [hpre] at hes
        have hmem : x.seen s.registry ∈ es.map (·.1) := hes ▸ List.mem_map_of_mem hx
        obtain ⟨e', he', heq⟩ := List.mem_map.1 hmem
        have hve := hnone e' he'
        rw [hm] at hve
        exact heq ▸ hve

theorem Pass.Stops.firstViolation?_eq {p : Pass} {pre post : List MemberSlot} {i : Nat}
    {m : MethodModel} {e : Refusal} (h : Stops s c rs p pre i post m e) :
    firstViolation? s c = some e.violation := by
  have hcandidate : c.candidate? (.method i) = some (.method m) := by
    simp [ClassModel.candidate?, h.stands]
  have hsound : ((pre.filterMap c.candidate?).map (Candidate.seen s.registry)).findSome?
      (Candidate.violation? s.strategy (c.resolve s.registry)) = none := by
    rw [List.findSome?_map]
    exact List.findSome?_eq_none_iff.2 h.sound
  rw [firstViolation?, ← ClassModel.filterMap_candidate?, h.slots, List.filterMap_append,
    List.filterMap_cons_some hcandidate, List.map_append, List.findSome?_append, hsound, List.map_cons,
    List.findSome?_cons, h.fault]
  rfl

theorem Pass.run_error (ht : s.strategy.readsProperties = true → s.strategy.handler.Total)
    {e : Refusal}
    (h : (Pass.start (c.resolve s.registry)).run s = .error e) :
    (s.strategy.alwaysProxies = true ∧ c.isFinal = true ∧
        e = ⟨⟨.finalClassProxy, c.name⟩, c.resolve s.registry⟩) ∨
      (¬(s.strategy.alwaysProxies = true ∧ c.isFinal = true) ∧
        firstViolation? s c = some e.violation) := by
  by_cases hf : s.strategy.alwaysProxies = true ∧ c.isFinal = true
  · rw [run_eq, openProxy_eq, if_pos hf] at h
    rcases bind_eq_error.1 h with h | ⟨_, h, _⟩
    · cases h
      exact Or.inl ⟨hf.1, hf.2, rfl⟩
    · cases h
  · obtain ⟨_, _, _, _, _, _, hstops⟩ := stops_of_run ht hf h
    exact Or.inr ⟨hf, hstops.firstViolation?_eq⟩

/-- A build whose handler does not fail, if it is asked at all, fails by the final class that is to be
proxied or by the first offending candidate. -/
theorem build_eq_error (ht : s.strategy.readsProperties = true → s.strategy.handler.Total)
    {v : Violation} :
    (build s c).result = .error v ↔
      (s.strategy.alwaysProxies = true ∧ c.isFinal = true ∧ v = ⟨.finalClassProxy, c.name⟩) ∨
        (¬(s.strategy.alwaysProxies = true ∧ c.isFinal = true) ∧ firstViolation? s c = some v) := by
  cases hr : (Pass.start (c.resolve s.registry)).run s with
  | error e =>
      have hb : (build s c).result = .error e.violation := by simp [build, hr]
      rw [hb]
      rcases Pass.run_error ht hr with ⟨ha, hf, rfl⟩ | ⟨hf, hv⟩
      · simp [ha, hf, eq_comm]
      · rw [hv]
        constructor
        · intro h
          cases h
          exact Or.inr ⟨hf, rfl⟩
        · rintro (⟨ha, hc, _⟩ | ⟨_, h⟩)
          · exact absurd ⟨ha, hc⟩ hf
          · cases h
            rfl
  | ok q =>
      have hb : (build s c).result = .ok q.planSet := by simp [build, hr]
      obtain ⟨rs, es, p', q', hcourse, _⟩ := build_ok hb
      rw [hb, hcourse.firstViolation?_eq_none]
      constructor
      · intro h
        cases h
      · rintro (⟨ha, hc, _⟩ | ⟨_, h⟩)
        · exact absurd (hc.symm.trans (hcourse.notFinal ha)) (by decide)
        · cases h

theorem model_build_of_final (ha : s.strategy.alwaysProxies = true) (hf : c.isFinal = true) :
    (build s c).model = c.resolve s.registry := by
  have hr : (Pass.start (c.resolve s.registry)).run s =
      .error ⟨⟨.finalClassProxy, c.name⟩, c.resolve s.registry⟩ := by
    rw [Pass.run_eq, Pass.openProxy_eq, if_pos ⟨ha, hf⟩]
    rfl
  simp [build, hr]

end Wiring
