import Wiring.Proofs.Weaving

/-!
# Properties and the rest of a class

A build that reads properties first comes to the build of the rest of the class without them, with what
is read put before (`build_properties`). Both go over the same candidates, step by step: a pass is told by
what it has planned and by the class without its members (`Pass.after`).
-/

namespace Wiring

/-! ## What properties come to -/

/-- What it comes to that properties are read. -/
structure Readings where
  values : List SetterValue := []
  origins : StringSet := .empty
  dispositions : List MemberDisposition := []

/-- What is planned for the properties of a class: claimed ones give their values and name their origins. -/
def ClassModel.readings (c : ClassModel) (s : Strategy) : Readings :=
  let claimed := c.properties.filter (s.handler.claims c)
  { values := claimed.filterMap (c.setterValue? s.optionalFieldValues)
    origins := .ofList (claimed.flatMap (Pass.originsOf c))
    dispositions := c.properties.map fun x =>
      ⟨.property, c.name ++ "#" ++ x.name, s.disposeProperty c x⟩ }

section Readings

variable {s : Strategy} (hh : s.handler = .noop ∨ s.handler = .configuration)

include hh

/-- What is planned for properties does not depend on any marker. -/
theorem ClassModel.readings_bare (c : ClassModel) : c.bare.readings s = c.readings s := by
  have hp : c.bare.properties = c.properties.map .bare := rfl
  have hname (x : PropertyModel) : x.bare.name = x.name := rfl
  have hn : c.bare.name = c.name := rfl
  simp only [readings, Strategy.disposeProperty, hp, List.filter_map, List.filterMap_map,
    List.flatMap_map, List.map_map, Function.comp_def, PropertyHandler.claims_bare hh,
    setterValue?_bare, Pass.originsOf_bare, hname, hn]

theorem ClassModel.readings_eq_of_bare {c c' : ClassModel} (hc : c'.bare = c.bare) :
    c'.readings s = c.readings s := by
  rw [← readings_bare hh c, ← hc, readings_bare hh c']

end Readings

/-! ## The rest of a class -/

/-- The class without the members that make up its properties. -/
def ClassModel.remainder (c : ClassModel) : ClassModel :=
  { c with
    fields := (c.fields.zipIdx.filter fun e => !c.constitutesField e.2).map (·.1)
    methods := (c.methods.zipIdx.filter fun e => !c.constitutesMethod e.2).map (·.1) }

/-- The class without its members and properties. -/
def ClassModel.shell (c : ClassModel) : ClassModel :=
  { c with fields := [], methods := [], properties := [] }

theorem Strategy.of_properties {s : Strategy} (hm : s.mode = .properties) :
    s.readsProperties = true ∧ s.alwaysProxies = false := by
  simp [readsProperties, alwaysProxies, hm]

/-- The setting in which properties are not read, and no class is proxied as a whole. -/
def Setting.simple (s : Setting) : Setting :=
  { s with strategy := { s.strategy with mode := .simple } }

theorem ClassModel.candidates_remainder {s t : Strategy} (hs : s.readsProperties = true)
    (ht : t.readsProperties = false) (c : ClassModel) :
    c.remainder.candidates t = c.candidates s := by
  have hfields : (c.remainder.enumeratedFields t).map (·.1) = (c.enumeratedFields s).map (·.1) := by
    simp [enumeratedFields, hs, ht, remainder]
  have hmethods : (c.remainder.enumeratedMethods t).map (·.1) =
      (c.enumeratedMethods s).map (·.1) := by
    simp [enumeratedMethods, hs, ht, remainder]
  simp only [candidates, hfields, hmethods]
  rfl

theorem judgeMethod_shell (s : Strategy) (c : ClassModel) (m : MethodModel) :
    judgeMethod s c.shell m = judgeMethod s c m := rfl

theorem judgeMethod_simple {s : Setting} (ha : s.strategy.alwaysProxies = false) (c : ClassModel)
    (m : MethodModel) : judgeMethod s.simple.strategy c m = judgeMethod s.strategy c m := by
  have ha' : s.simple.strategy.alwaysProxies = false := rfl
  have hadvice : judgeAdvice s.simple.strategy c m = judgeAdvice s.strategy c m := by
    simp only [judgeAdvice, isAdvised, classAdvice, ha, ha']
  have hexposure : judgeExposure s.simple.strategy c m = judgeExposure s.strategy c m := rfl
  simp only [judgeMethod, hadvice, hexposure]

theorem decideMethod_simple {s : Setting} (ha : s.strategy.alwaysProxies = false) (c : ClassModel)
    (m : MethodModel) : decideMethod s.simple.strategy c.shell m = decideMethod s.strategy c m := by
  rw [decideMethod, judgeMethod_shell, judgeMethod_simple ha]
  rfl

theorem Candidate.violation?_simple {s : Setting} (ha : s.strategy.alwaysProxies = false)
    (c : ClassModel) (x : Candidate) :
    x.violation? s.simple.strategy c.shell = x.violation? s.strategy c := by
  cases x with
  | field f => rfl
  | method m => simp only [violation?, decideMethod_simple ha]

/-! ## One pass after another -/

/-- The plan with what is read put before. -/
def Plan.after (a : Readings) (plan : Plan) : Plan :=
  { plan with
    setterValues := a.values ++ plan.setterValues
    originatingElements := a.origins.union plan.originatingElements }

def PlanSet.after (a : Readings) (set : PlanSet) : PlanSet :=
  { set with main := set.main.after a, dispositions := a.dispositions ++ set.dispositions }

theorem Plan.entries_after (a : Readings) (plan : Plan) :
    (plan.after a).entries =
      { plan.entries with
        setterValues := a.values ++ plan.entries.setterValues
        originatingElements := a.origins.union plan.entries.originatingElements } := rfl

@[simp] theorem Plan.after_empty (plan : Plan) : plan.after {} = plan := by
  simp [after]

@[simp] theorem PlanSet.after_empty (set : PlanSet) : set.after {} = set := by
  simp [after]

theorem Plan.after_addOriginating (a : Readings) (plan : Plan) (t : String) :
    (plan.addOriginating t).after a = (plan.after a).addOriginating t := by
  have hinsert : a.origins.union (plan.originatingElements.insert t) =
      (a.origins.union plan.originatingElements).insert t := by
    rw [← StringSet.union_singleton, ← StringSet.union_assoc, StringSet.union_singleton]
  simp only [addOriginating, after, hinsert]

namespace Pass

/-- The pass over a class without members, with what is read put before. -/
def after (a : Readings) (p : Pass) : Pass :=
  { p with
    model := p.model.shell
    main := p.main.after a
    dispositions := a.dispositions ++ p.dispositions }

theorem planSet_after (a : Readings) (p : Pass) : (p.after a).planSet = p.planSet.after a := rfl

variable {s : Setting} {p q p' q' : Pass} {m : MethodModel} {v : Verdict} {x : Candidate}
  {d d' : Disposition}

theorem after_flagged (a : Readings) (p : Pass) (b : Bool) :
    (p.flagged b).after a = (p.after a).flagged b := by
  cases b <;> rfl

theorem after_record (a : Readings) (p : Pass) (k : MemberKind) (m : Member) (d : Disposition) :
    (p.record k m d).after a = (p.after a).record k m d := by
  have hm : m.isDeclaredOn (p.after a).model = m.isDeclaredOn p.model := rfl
  have hnote (p : Pass) : (p.note k m.description d).after a =
      (p.after a).note k m.description d := by
    simp [note, after]
  have horiginate : (p.originate d m.declaringType).after a =
      (p.after a).originate d m.declaringType := by
    have hproxy : (p.after a).proxy = p.proxy := rfl
    unfold originate
    rw [hproxy]
    split
    · rfl
    · simp only [after, Plan.after_addOriginating]
  rw [record, record, hnote, hm]
  split
  · rw [horiginate]
  · rfl

theorem after_visitField (a : Readings) (p : Pass) (s : Setting) (f : FieldModel) :
    (p.visitField s f).after a = (p.after a).visitField s.simple f := by
  rw [visitField, visitField, after_record]
  rcases judgeField_cases f with hj | hj | hj <;> rw [hj] <;> rfl

section Standard

variable (ha : s.strategy.alwaysProxies = false) (hw : s.weaver = .standard) (a : Readings)

include ha hw

theorem Registers.after (h : Registers s p m v q d) :
    Registers s.simple (p.after a) m v (q.after a) d := by
  cases h with
  | unclaimed => exact .unclaimed
  | lifecycle post pre hpost hpre =>
      subst hpost hpre
      cases post <;> cases pre <;> exact .lifecycle _ _ rfl rfl
  | injection => exact .injection
  | adapted hplan =>
      refine .adapted ?_
      rw [hw] at hplan
      rw [Setting.simple, hw]
      exact hplan
  | declined hplan =>
      refine .declined ?_
      rw [hw] at hplan
      rw [Setting.simple, hw]
      exact hplan
  | @intercepted proxy hproxy =>
      have hdemand : demandProxy s.simple.weaver (p.after a).model (p.after a).main
          s.simple.strategy.alwaysProxies (some m) (p.after a).proxy = .ok proxy := by
        rw [hw, ha] at hproxy
        rw [Setting.simple, hw, ← hproxy]
        cases hp : p.proxy <;> simp only [Pass.after, hp] <;> rfl
      have hmethod : s.simple.weaver.interceptMethod proxy (p.after a).model m =
          s.weaver.interceptMethod proxy p.model m := by
        rw [Setting.simple, hw]
        rfl
      have hr := Registers.intercepted hdemand
      rw [hmethod] at hr
      exact hr
  | exposed => exact .exposed

theorem Enters.after (h : Enters s p x d q) : Enters s.simple (p.after a) x d (q.after a) := by
  cases h with
  | field f =>
      rw [after_visitField]
      exact .field f
  | @method m j q d hj hr =>
      rw [after_record]
      refine .method (j := j) ?_ ?_
      · rw [judgeMethod_simple ha]
        exact hj
      · rw [← after_flagged]
        exact hr.after ha hw a

end Standard

/-- How a method enters the plans is told by what it is to be. -/
theorem Registers.unique (h : Registers s p m v q d) (h' : Registers s p m v q' d') :
    d = d' ∧ q = q' := by
  cases h <;> cases h' <;> simp_all

theorem Enters.unique (h : Enters s p x d q) (h' : Enters s p x d' q') : d = d' ∧ q = q' := by
  cases h with
  | field f =>
      cases h'
      exact ⟨rfl, rfl⟩
  | method hj hr =>
      cases h' with
      | method hj' hr' =>
          cases hj.symm.trans hj'
          obtain ⟨rfl, rfl⟩ := hr.unique hr'
          exact ⟨rfl, rfl⟩

/-- Over the same candidates a run with properties read before goes along with one without. -/
theorem Runs.along (ha : s.strategy.alwaysProxies = false) (hw : s.weaver = .standard) {a : Readings}
    {es es' : List (Candidate × Disposition)} (h : Runs s p es q) (h' : Runs s.simple p' es' q')
    (hp : p.after {} = p'.after a) (hes : es.map (·.1) = es'.map (·.1)) :
    es = es' ∧ q.after {} = q'.after a := by
  induction h generalizing p' es' with
  | nil p =>
      obtain rfl : es' = [] := by simpa using hes.symm
      cases h'
      exact ⟨rfl, hp⟩
  | @cons p q p₁ l x d es hx _ ih =>
      cases h' with
      | nil => cases hes
      | @cons _ q₁ _ l' x' d' es' hx' hruns' =>
          obtain ⟨rfl, htail⟩ := List.cons.inj hes
          -- Marks in between do not show, as the members are left out.
          have hstart : ({ p with model := p.model.derive s.registry l } : Pass).after {} =
              ({ p' with model := p'.model.derive s.simple.registry l' } : Pass).after a := hp
          have hright := Enters.after (s := s.simple) rfl hw a hx'
          rw [← hstart] at hright
          obtain ⟨rfl, hq⟩ := (hx.after ha hw {}).unique hright
          obtain ⟨rfl, hq'⟩ := ih hruns' hq htail
          exact ⟨rfl, hq'⟩

/-- Where nothing is planned so far, reading the properties of a class gives the values and origins of those
that are claimed. -/
theorem Reads.main_eq (hh : s.strategy.handler = .noop ∨ s.strategy.handler = .configuration)
    {rs : List (PropertyModel × Disposition)} (h : Reads s p rs q) (hp : p.main.entries = {})
    (hrs : rs.map (·.1) = p.model.properties) :
    q.main = p.main.after (p.model.readings s.strategy) := by
  have hplain := PropertyHandler.plain_of_either hh
  have hmap := h.eq_map hh
  rw [hrs] at hmap
  obtain ⟨vs, hentries, hvs⟩ := h.entries hplain
  have hvalues : vs = (p.model.readings s.strategy).values := by
    have hid := congrArg (List.filterMap id) hvs
    rw [settersOf, hmap, Strategy.filter_disposeProperty] at hid
    have hfilter : vs = (p.model.properties.filter (s.strategy.handler.claims p.model)).filterMap
        (p.model.setterValue? s.strategy.optionalFieldValues) := by
      simpa [List.filterMap_map, Function.comp_def] using hid
    exact hfilter
  have horigins : StringSet.ofList (originsIn p.model rs) =
      (p.model.readings s.strategy).origins := by
    rw [originsIn, hmap, Strategy.filter_disposeProperty, List.flatMap_map]
    rfl
  refine Plan.eq_of_head_of_entries (h.head_eq hplain.keepsHeads) ?_
  rw [hentries, hvalues, horigins, Plan.entries_after, hp]
  simp

theorem Reads.after_eq (hh : s.strategy.handler = .noop ∨ s.strategy.handler = .configuration)
    {rs : List (PropertyModel × Disposition)} (h : Reads s p rs q) (hp : p.main.entries = {})
    (hd : p.dispositions = []) (hrs : rs.map (·.1) = p.model.properties) :
    q.after {} = p.after (p.model.readings s.strategy) := by
  have hshell : q.model.shell = p.model.shell := by
    obtain ⟨js, _, hmodel⟩ := h.model_eq
    rw [hmodel]
    rfl
  have hdispositions : q.dispositions = (p.model.readings s.strategy).dispositions := by
    rw [h.dispositions_eq, hd, h.eq_map hh, hrs, List.map_map]
    rfl
  simp only [after, hshell, hdispositions, h.main_eq hh hp hrs, Plan.after_empty, h.proxy_eq,
    h.adapters_eq, hd, List.append_nil, List.nil_append]

end Pass

/-! ## Builds -/

variable {s : Setting} {c d : ClassModel}

/-- Where a class has the rest of one whose properties are read, the pass over it is opened alike. -/
theorem Pass.after_opened (ha : s.strategy.alwaysProxies = false) (a : Readings)
    (hshell : d.shell = c.shell) : (opened s.simple d).after a = (opened s c).after a := by
  have hopened (c : ClassModel) : (opened s c).after a = (start (c.shell.resolve s.registry)).after a := by
    rw [opened, if_neg (by simp [ha])]
    rfl
  have hsimple : (opened s.simple d).after a = (start (d.shell.resolve s.registry)).after a := rfl
  rw [hopened, hsimple, hshell]

theorem Course.planSet_after (hm : s.strategy.mode = .properties)
    (hh : s.strategy.handler = .noop ∨ s.strategy.handler = .configuration)
    (hw : s.weaver = .standard) {rs rs' : List (PropertyModel × Disposition)}
    {es es' : List (Candidate × Disposition)} {p q p' q' : Pass} (h : Course s c rs es p q)
    (h' : Course s.simple d rs' es' p' q') (hshell : d.shell = c.shell)
    (hcandidates : d.candidates s.simple.strategy = c.candidates s.strategy) :
    q.planSet = q'.planSet.after (c.readings s.strategy) := by
  obtain ⟨hs, ha⟩ := Strategy.of_properties hm
  have hreadings : (c.resolve s.registry).readings s.strategy = c.readings s.strategy :=
    ClassModel.readings_eq_of_bare hh (ClassModel.bare_resolve s.registry)
  have hread : p.after {} = (Pass.opened s c).after (c.readings s.strategy) := by
    have hrs := h.properties
    rw [if_pos hs, ← Pass.model_opened] at hrs
    rw [h.reads.after_eq hh (Pass.main_entries_opened s c) (Pass.dispositions_opened s c) hrs,
      Pass.model_opened, hreadings]
  have hstart : p.after {} = p'.after (c.readings s.strategy) := by
    rw [hread, h'.eq_opened rfl, Pass.after_opened ha _ hshell]
  have hes : es.map (·.1) = es'.map (·.1) := by
    rw [h.candidates, h'.candidates, hcandidates]
    rfl
  obtain ⟨_, hq⟩ := h.runs.along ha hw h'.runs hstart hes
  calc q.planSet = q.planSet.after {} := q.planSet.after_empty.symm
    _ = (q.after {}).planSet := (q.planSet_after {}).symm
    _ = (q'.after (c.readings s.strategy)).planSet := by rw [hq]
    _ = q'.planSet.after (c.readings s.strategy) := q'.planSet_after _

/-- A build that reads properties is told by the readings, the rest of the class and the candidates. -/
theorem result_build_after (hm : s.strategy.mode = .properties)
    (hh : s.strategy.handler = .noop ∨ s.strategy.handler = .configuration)
    (hw : s.weaver = .standard) (hshell : d.shell = c.shell)
    (hcandidates : d.candidates s.simple.strategy = c.candidates s.strategy) :
    (build s c).result = (build s.simple d).result.map (·.after (c.readings s.strategy)) := by
  have ha := (Strategy.of_properties hm).2
  have htotal : s.strategy.handler.Total := (PropertyHandler.plain_of_either hh).total
  have hviolation : firstViolation? s.simple d = firstViolation? s c := by
    have hshell' : (d.resolve s.registry).shell = (c.resolve s.registry).shell :=
      congrArg (·.resolve s.registry) hshell
    rw [firstViolation?, firstViolation?, hcandidates]
    congr 1
    funext x
    calc x.violation? s.simple.strategy (d.resolve s.registry)
        = x.violation? s.simple.strategy (d.resolve s.registry).shell := by cases x <;> rfl
      _ = x.violation? s.strategy (c.resolve s.registry) := by
          rw [hshell', Candidate.violation?_simple ha]
  have herror (v : Violation) : (build s c).result = .error v ↔
      (build s.simple d).result = .error v := by
    have ha' : s.simple.strategy.alwaysProxies = false := rfl
    have hsimple : s.simple.strategy.readsProperties = true → s.simple.strategy.handler.Total :=
      fun _ => htotal
    rw [build_eq_error fun _ => htotal, build_eq_error hsimple, hviolation, ha, ha']
    simp
  cases hb : (build s c).result with
  | error v =>
      rw [(herror v).1 hb]
      rfl
  | ok set =>
      cases hb' : (build s.simple d).result with
      | error v =>
          rw [(herror v).2 hb'] at hb
          cases hb
      | ok set' =>
          obtain ⟨_, _, _, _, hcourse, rfl⟩ := build_ok hb
          obtain ⟨_, _, _, _, hcourse', rfl⟩ := build_ok hb'
          exact congrArg Except.ok (hcourse.planSet_after hm hh hw hcourse' hshell hcandidates)

/-- Reading properties refines going over the rest of the class without them. Both builds fail alike;
otherwise they have the same proxy and adapters and the same main plan, to which properties add the values
and origins of those that are claimed, and the dispositions of properties stand before the others. Markers
of properties and of what makes them up, derived ones included, make no difference. -/
theorem build_properties (hm : s.strategy.mode = .properties)
    (hh : s.strategy.handler = .noop ∨ s.strategy.handler = .configuration)
    (hw : s.weaver = .standard) :
    (build s c).result =
        (build s.simple c.remainder).result.map (·.after (c.readings s.strategy)) ∧
      ∀ d : ClassModel, d.bare = c.bare →
        { d.remainder with properties := c.remainder.properties } = c.remainder →
        (build s d).result = (build s c).result := by
  have hs := (Strategy.of_properties hm).1
  have hcandidates (c : ClassModel) : c.remainder.candidates s.simple.strategy =
      c.candidates s.strategy := ClassModel.candidates_remainder hs rfl c
  have hresult := result_build_after (c := c) (d := c.remainder) hm hh hw rfl (hcandidates c)
  refine ⟨hresult, fun d hbare hrest => ?_⟩
  have hshell : c.remainder.shell = d.shell := (congrArg ClassModel.shell hrest).symm
  have hd : c.remainder.candidates s.simple.strategy = d.candidates s.strategy := by
    have hrest' := congrArg (·.candidates s.simple.strategy) hrest
    exact hrest'.symm.trans (hcandidates d)
  rw [result_build_after hm hh hw hshell hd, ClassModel.readings_eq_of_bare hh hbare, hresult]

theorem build_properties_of_marked_writer :
    let needy : CapabilitySet := CapabilitySet.empty.withDeclared Marker.requiresValidation
    let writer : MethodModel :=
      { name := "setPort", declaringType := "app.Base"
        parameters := [{ name := "port", typeName := "int" }] }
    let run : MethodModel :=
      { name := "run", declaringType := "app.Settings"
        capabilities := CapabilitySet.empty.withDeclared Marker.around }
    let c : ClassModel :=
      { name := "app.Settings", methods := [writer, run]
        properties := [{ name := "port", typeName := "int", writeMethod := some "setPort" }] }
    let d : ClassModel := { c with methods := [{ writer with capabilities := needy }, run] }
    let s : Setting := { strategy := .ofMode .properties }
    ∃ set set', (build s c).result = .ok set ∧
      set.main.setterValues.map (·.property) = ["port"] ∧
      set.dispositions.map (·.disposition) = [.property, .intercepted] ∧
      c.remainder.methods.map (·.name) = ["run"] ∧
      (build s.simple c.remainder).result = .ok set' ∧ set = set'.after (c.readings s.strategy) ∧
      (build s d).result = (build s c).result := by
  intro needy writer run c d s
  have hset : ∃ set, (build s c).result = .ok set ∧
      set.main.setterValues.map (·.property) = ["port"] ∧
      set.dispositions.map (·.disposition) = [.property, .intercepted] := by
    -- Evaluation is slow as long as the class is a variable.
    revert s c run writer
    exact ⟨_, rfl, rfl, rfl⟩
  obtain ⟨set, h, hvalues, hdispositions⟩ := hset
  obtain ⟨hresult, hmarked⟩ := build_properties (s := s) (c := c) rfl (Or.inr rfl) rfl
  cases h' : (build s.simple c.remainder).result with
  | error v =>
      rw [h, h'] at hresult
      cases hresult
  | ok set' =>
      rw [h, h'] at hresult
      exact ⟨set, set', h, hvalues, hdispositions, rfl, rfl, Except.ok.inj hresult, hmarked d rfl rfl⟩

end Wiring
