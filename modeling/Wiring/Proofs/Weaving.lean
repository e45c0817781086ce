import Wiring.Proofs.Frame
import Wiring.Proofs.Interception

/-!
# Weaving

The proxy of a class is opened by one call of the weaver, and takes up each method that is intercepted by
one more (`Woven`). There is one just if the class is proxied as a whole or some method is intercepted
(`build_weaves`). It takes its shape from the class, as the main plan does at first; a handler of properties can
change the main plan afterwards (`rebound_constructor_is_not_woven`).
-/

namespace Wiring

/-! ## Heads of plans -/

/-- A plan without its entries. -/
def Plan.head (p : Plan) : Plan :=
  { p with
    postConstructMethods := []
    preDestroyMethods := []
    methodInjectionPoints := []
    fieldInjectionPoints := []
    fieldValues := []
    setterValues := []
    executableMethods := []
    aroundMethods := []
    requiresMethodProcessing := false
    originatingElements := .empty }

/-- A plan is told by what it is without its entries and by them. -/
theorem Plan.eq_of_head_of_entries {p q : Plan} (hh : p.head = q.head) (he : p.entries = q.entries) :
    p = q := by
  cases p
  cases q
  simp_all [head, entries]

/-- How the bean of a plan is made, and with what type arguments. -/
def Plan.shape (p : Plan) : TypeArguments × Option ConstructorBinding := (p.typeArguments, p.constructor)

/-- A handler that changes nothing on a plan but its entries. -/
def PropertyHandler.KeepsHeads (h : PropertyHandler) : Prop :=
  ∀ c plan optional x claimed main,
    h.visit c plan optional x = .ok (claimed, main) → main.head = plan.head

theorem PropertyHandler.Plain.keepsHeads {h : PropertyHandler} (hp : h.Plain) : h.KeepsHeads :=
  hp.keeps fun _ _ => rfl

namespace Pass

variable {s : Setting} {p q : Pass}

theorem head_flagged (p : Pass) (b : Bool) : (p.flagged b).main.head = p.main.head := by
  cases b <;> rfl

theorem head_record (p : Pass) (k : MemberKind) (m : Member) (d : Disposition) :
    (p.record k m d).main.head = p.main.head := by
  rw [main_record]
  split <;> rfl

theorem Registers.head_eq {m : MethodModel} {v : Verdict} {d : Disposition}
    (h : Registers s p m v q d) : q.main.head = p.main.head := by
  cases h with
  | lifecycle post pre hpost hpre =>
      subst hpost hpre
      cases post <;> cases pre <;> rfl
  | _ => rfl

theorem Enters.head_eq {x : Candidate} {d : Disposition} (h : Enters s p x d q) :
    q.main.head = p.main.head := by
  cases h with
  | field f =>
      rw [visitField, head_record]
      split <;> rfl
  | method hj hr => rw [head_record, hr.head_eq, head_flagged]

theorem Runs.head_eq {es : List (Candidate × Disposition)} (h : Runs s p es q) :
    q.main.head = p.main.head := by
  induction h with
  | nil p => rfl
  | cons l hx _ ih => exact ih.trans hx.head_eq

theorem Reads.head_eq (hh : s.strategy.handler.KeepsHeads)
    {rs : List (PropertyModel × Disposition)} (h : Reads s p rs q) :
    q.main.head = p.main.head := h.keeps hh fun _ _ => rfl

end Pass

/-! ## Calls of the weaver -/

/-- A proxy with a method taken up: the weaver intercepts it, and it names its declaring type if that is
another. -/
def Plan.weave (proxy : Plan) (s : Setting) (c : ClassModel) (m : MethodModel) : Plan :=
  let proxy := s.weaver.interceptMethod proxy c m (interceptorBindings s.registry c m)
  if m.member.isDeclaredOn c then proxy else proxy.addOriginating m.declaringType

/-- The proxy of a class with a main plan, opened for some markers and with some methods taken up, in
order. At each call the weaver is given the class as it then stands. -/
inductive Woven (s : Setting) (c : ClassModel) (main : Plan) (advice : CapabilitySet) :
    List MethodModel → Plan → Prop
  | opened {d : ClassModel} {current : Plan} (hd : c.Marked s.registry d)
      (hcurrent : current.head = main.head) :
      Woven s c main advice []
        (((s.weaver.proxyPlan d current advice).withShape c).withSuperBean main.name)
  | woven {d : ClassModel} {ms : List MethodModel} {proxy : Plan} (hd : c.Marked s.registry d)
      (m : MethodModel) (h : Woven s c main advice ms proxy) :
      Woven s c main advice (ms ++ [m]) (proxy.weave s d m)

/-- Marks on methods do not show in the shape of a class. -/
theorem Plan.withShape_of_marked {r : Registry} {c d : ClassModel} (h : c.Marked r d) (plan : Plan) :
    plan.withShape d = plan.withShape c := by
  rw [h.rest]
  cases hk : c.primaryConstructor <;>
    simp [withShape, ClassModel.resolve, hk, withConstructor, Function.comp_def, withTypeArguments]

namespace Pass

variable {s : Setting} {c : ClassModel} {main : Plan} {p q : Pass} {x : Candidate} {d : Disposition}
  {es : List (Candidate × Disposition)}

/-- Only a method that is intercepted touches the proxy. -/
theorem Enters.proxy_cases (h : Enters s p x d q) :
    (d ≠ .intercepted ∧ q.proxy = p.proxy) ∨
      ∃ m current proxy, x = .method m ∧ d = .intercepted ∧ current.head = p.main.head ∧
        demandProxy s.weaver p.model current s.strategy.alwaysProxies (some m) p.proxy = .ok proxy ∧
        q.proxy = some (proxy.weave s p.model m) := by
  cases h with
  | field f =>
      have hd := judgeField_ne_intercepted f
      exact Or.inl ⟨hd, by simp [visitField, proxy_record, hd]⟩
  | @method m j q d hj hr =>
      generalize j.verdict = v at hr
      cases hr with
      | @intercepted proxy hproxy =>
          rw [model_flagged, proxy_flagged] at hproxy
          refine Or.inr ⟨m, _, proxy, rfl, rfl, head_flagged p j.processed, hproxy, ?_⟩
          have hdeclaring : m.member.declaringType = m.declaringType := rfl
          rw [proxy_record, Plan.weave]
          cases hm : m.member.isDeclaredOn p.model <;> simp [hm, hdeclaring]
      | _ => exact Or.inl ⟨by simp, by simp [proxy_record]⟩

/-- A proxy that there is takes up the methods of a run, in order. -/
theorem Runs.woven (h : Runs s p es q) (hc : c.Marked s.registry p.model) {advice : CapabilitySet}
    {ms : List MethodModel} {proxy : Plan} (hp : p.proxy = some proxy)
    (hw : Woven s c main advice ms proxy) :
    ∃ proxy', q.proxy = some proxy' ∧
      Woven s c main advice (ms ++ methodsWith (· = .intercepted) es) proxy' := by
  -- What is taken up so far is part of the claim: a method is taken up after all of them.
  induction h generalizing ms proxy with
  | nil p => exact ⟨proxy, hp, by simpa [methodsWith] using hw⟩
  | @cons p q p' l x d es hx hes ih =>
      have hd := hc.derive l
      have hq : c.Marked s.registry q.model := by rwa [hx.model_eq]
      rcases hx.proxy_cases with ⟨hne, hproxy⟩ | ⟨m, current, proxy', rfl, rfl, _, hdemand, hproxy⟩
      · rw [methodsWith_cons_of_false (by simp [hne])]
        exact ih hq (hproxy.trans hp) hw
      · rw [hp, demandProxy_some] at hdemand
        cases hdemand
        obtain ⟨proxy', hproxy', hw'⟩ := ih hq hproxy (.woven hd m hw)
        rw [List.append_assoc, List.singleton_append] at hw'
        refine ⟨proxy', hproxy', ?_⟩
        rwa [methodsWith_cons_of_true (by simp)]

/-- Where there is no proxy, the first method that is intercepted has it opened for its markers. -/
theorem Runs.woven_of_none (h : Runs s p es q) (hc : c.Marked s.registry p.model)
    (hmain : p.main.head = main.head) (hp : p.proxy = none)
    (ha : s.strategy.alwaysProxies = false) :
    (methodsWith (· = .intercepted) es = [] ∧ q.proxy = none) ∨
      ∃ m ms proxy, methodsWith (· = .intercepted) es = m :: ms ∧ q.proxy = some proxy ∧
        Woven s c main m.capabilities (m :: ms) proxy := by
  -- The induction ends at the first method that is intercepted: what follows has a proxy.
  induction h with
  | nil p => exact Or.inl ⟨rfl, hp⟩
  | @cons p q p' l x d es hx hes ih =>
      have hd := hc.derive l
      have hq : c.Marked s.registry q.model := by rwa [hx.model_eq]
      rcases hx.proxy_cases with ⟨hne, hproxy⟩ | ⟨m, current, proxy, rfl, rfl, hhead, hdemand, hproxy⟩
      · rw [methodsWith_cons_of_false (by simp [hne])]
        exact ih hq (hx.head_eq.trans hmain) (hproxy.trans hp)
      · rw [methodsWith_cons_of_true (by simp)]
        have hcurrent : current.head = main.head := hhead.trans hmain
        have hname : current.name = main.name := (congrArg Plan.name hcurrent :)
        have hopened : Woven s c main m.capabilities [] proxy := by
          rw [hp, demandProxy_none, ha] at hdemand
          cases hcheck : checkProxyable (p.model.derive s.registry l) with
          | error v => simp [hcheck, Except.map] at hdemand
          | ok _ =>
              rw [hcheck] at hdemand
              cases hdemand
              rw [newProxy, Plan.withShape_of_marked hd, hname]
              exact .opened hd hcurrent
        obtain ⟨proxy', hproxy', hw'⟩ := hes.woven hq hproxy (.woven hd m hopened)
        exact Or.inr ⟨m, _, proxy', rfl, hproxy', hw'⟩

theorem Runs.judged (h : Runs s p es q) {f : FieldModel} (he : (.field f, d) ∈ es) :
    d = judgeField f := by
  induction h with
  | nil p => cases he
  | cons l hx _ ih =>
      rcases List.mem_cons.1 he with he | he
      · cases he
        cases hx
        rfl
      · exact ih he

theorem Runs.judged_seen (h : Runs s p (es.map fun e => (e.1.seen s.registry, e.2)) q)
    {f : FieldModel} (he : (.field f, d) ∈ es) : d = judgeField (f.resolve s.registry) :=
  h.judged (List.mem_map.2 ⟨_, he, rfl⟩)

theorem Runs.intercepted_iff (h : Runs s p es q) :
    methodsWith (· = .intercepted) es ≠ [] ↔ ∃ x, (x, .intercepted) ∈ es := by
  constructor
  · intro hne
    obtain ⟨m, hm⟩ := List.exists_mem_of_ne_nil _ hne
    obtain ⟨d, he, hd⟩ := mem_methodsWith.1 hm
    obtain rfl : d = .intercepted := by simpa using hd
    exact ⟨.method m, he⟩
  · rintro ⟨x, he⟩
    cases x with
    | field f => exact absurd (h.judged he).symm (judgeField_ne_intercepted f)
    | method m => exact List.ne_nil_of_mem (mem_methodsWith.2 ⟨_, he, by simp⟩)

end Pass

/-! ## Courses -/

/-- The markers that call for a proxy: those of the class if it is proxied as a whole, otherwise those of
the first method that is intercepted. -/
def callingMarkers (s : Setting) (c : ClassModel) : List MethodModel → CapabilitySet
  | [] => c.capabilities.resolve s.registry
  | m :: _ =>
    if s.strategy.alwaysProxies then c.capabilities.resolve s.registry else m.capabilities

section Course

variable {s : Setting} {c : ClassModel} {rs : List (PropertyModel × Disposition)}
  {es : List (Candidate × Disposition)} {p q : Pass} {set : PlanSet}

theorem Course.marked (h : Course s c rs es p q) : c.Marked s.registry p.model := by
  obtain ⟨js, _, hm⟩ := Pass.model_of_reads h.properties h.reads
  rw [hm]
  exact (ClassModel.Marked.resolve s.registry c).modifyMethods (fun _ _ hm => hm.markValidated) js

/-- The proxy of a class that is proxied as a whole is opened for the markers of the class. -/
theorem Pass.exists_opened (ha : s.strategy.alwaysProxies = true) {main : Plan}
    (hmain : main.head = (opened s c).main.head) :
    ∃ proxy, (opened s c).proxy = some proxy ∧
      Woven s c main (c.capabilities.resolve s.registry) [] proxy := by
  rw [opened, if_pos ha] at hmain ⊢
  have hresolved := ClassModel.Marked.resolve s.registry c
  have hname : (start (c.resolve s.registry)).main.name = main.name :=
    (congrArg Plan.name hmain.symm :)
  have hmodel : (start (c.resolve s.registry)).model = c.resolve s.registry := rfl
  refine ⟨_, rfl, ?_⟩
  rw [newProxy, hmodel, Plan.withShape_of_marked hresolved, hname]
  exact .opened hresolved hmain.symm

theorem Course.woven (h : Course s c rs es p q) :
    (q.proxy.isSome = true ↔
        s.strategy.alwaysProxies = true ∨ methodsWith (· = .intercepted) es ≠ []) ∧
      ∀ proxy ∈ q.proxy,
        Woven s c q.main (callingMarkers s c (methodsWith (· = .intercepted) es))
          (methodsWith (· = .intercepted) es) proxy := by
  generalize hms : methodsWith (· = .intercepted) es = ms
  cases ha : s.strategy.alwaysProxies with
  | true =>
      have hs : s.strategy.readsProperties = false := by
        have hmode : s.strategy.mode = .alwaysProxy := by simpa [Strategy.alwaysProxies] using ha
        rw [Strategy.readsProperties, hmode]
        rfl
      have hadvice : callingMarkers s c ms = c.capabilities.resolve s.registry := by
        cases ms with
        | nil => rfl
        | cons m ms => exact if_pos ha
      have hp : p = Pass.opened s c := h.eq_opened hs
      obtain ⟨proxy, hproxy, hopened⟩ := Pass.exists_opened ha (hp ▸ h.runs.head_eq)
      obtain ⟨proxy, hq, hw⟩ := h.runs.woven h.marked (hp ▸ hproxy) hopened
      rw [List.nil_append, hms] at hw
      rw [hadvice, hq]
      simpa using hw
  | false =>
      have hproxy : p.proxy = none := by
        rw [h.reads.proxy_eq, Pass.opened, if_neg (by simp [ha])]
        rfl
      rcases h.runs.woven_of_none h.marked h.runs.head_eq.symm hproxy ha with
        ⟨hnil, hq⟩ | ⟨m, ms', proxy, hcons, hq, hw⟩
      · rw [hms] at hnil
        simp [hq, hnil]
      · rw [hms] at hcons
        have hadvice : callingMarkers s c ms = m.capabilities := by
          rw [hcons]
          exact if_neg (by simp [ha])
        rw [hadvice, hcons, hq]
        simpa using hw

/-- What is told by the head of the main plan is as it was when the pass was opened, unless the handler of
properties changes it. -/
theorem Course.main_keeps {α : Type} {f : Plan → α} (h : Course s c rs es p q)
    (hh : s.strategy.readsProperties = true → s.strategy.handler.Keeps f)
    (hf : ∀ plan, f plan.head = f plan) : f q.main = f (Pass.opened s c).main := by
  rw [← hf q.main, h.runs.head_eq, hf]
  refine h.keeps hh fun plan t => ?_
  rw [← hf plan, ← hf]
  rfl

theorem Pass.main_opened (s : Setting) (c : ClassModel) :
    (opened s c).main =
      ((Plan.new (Plan.definitionName c.name) c.name .bean).withShape c).withMarkers
        c.capabilities := by
  have hstart : (start (c.resolve s.registry)).main =
      ((Plan.new (Plan.definitionName c.name) c.name .bean).withShape
        (c.resolve s.registry)).withMarkers c.capabilities := rfl
  rw [opened, ← Plan.withShape_of_marked (ClassModel.Marked.resolve s.registry c), ← hstart]
  split <;> rfl

theorem Plan.withShape_eq (plan plan' : Plan) (c : ClassModel) :
    plan.withShape c =
      { plan with
        typeArguments := (plan'.withShape c).typeArguments
        constructor := (plan'.withShape c).constructor } := by
  unfold withShape
  cases c.primaryConstructor <;> rfl

theorem Course.notFinal_of_proxy (h : Course s c rs es p q) (hq : q.proxy.isSome = true) :
    c.isFinal = false := by
  have hp := Pass.unproxied_of_reads h.notFinal h.properties h.reads
  obtain ⟨l, hl⟩ := h.runs.model_eq
  have hfinal : q.model.isFinal = c.isFinal := by
    rw [hl]
    exact (congrArg ClassModel.isFinal h.marked.rest :)
  refine eq_false_of_ne_true fun hc => ?_
  rw [(h.runs.unproxied hp).1 (hfinal.trans hc)] at hq
  cases hq

/-! ## The standard weaver -/

/-- But for its entries, a proxy of the standard weaver stays as it was opened. -/
theorem Woven.head_of_standard (hw : s.weaver = .standard) {main : Plan} {advice : CapabilitySet}
    {ms : List MethodModel} {proxy : Plan} (h : Woven s c main advice ms proxy) :
    proxy.head =
      (((Plan.new (Plan.proxyName c.name) c.name .proxy).withMarkers advice).withShape c).withSuperBean
        main.name := by
  induction h with
  | @opened d current hd _ =>
      have hplan : s.weaver.proxyPlan d current advice =
          (Plan.new (Plan.proxyName c.name) c.name .proxy).withMarkers advice := by
        rw [hw, ← hd.name_eq]
        rfl
      rw [hplan]
      cases hk : c.primaryConstructor <;> simp only [Plan.withShape, hk] <;> rfl
  | woven _ m _ ih =>
      rw [← ih, Plan.weave, hw]
      split <;> rfl

theorem Woven.lists_of_standard (hw : s.weaver = .standard) {main : Plan} {advice : CapabilitySet}
    {ms : List MethodModel} {proxy : Plan} (h : Woven s c main advice ms proxy) :
    proxy.memberLists = { aroundMethods := proxy.aroundMethods } := by
  induction h with
  | @opened d current hd _ =>
      have hplan : (s.weaver.proxyPlan d current advice).entries = {} := by
        rw [hw]
        rfl
      have hentries : (((s.weaver.proxyPlan d current advice).withShape c).withSuperBean
          main.name).entries = {} := by
        rw [Plan.entries_withSuperBean, Plan.entries_withShape, hplan]
      have haround := congrArg Entries.aroundMethods hentries
      rw [Plan.memberLists, hentries]
      exact (congrArg (fun l => ({ aroundMethods := l } : Entries)) haround).symm
  | @woven d ms proxy _ m _ ih =>
      have hm (proxy' : Plan) (ha : proxy'.memberLists = { proxy.memberLists with
          aroundMethods := proxy'.aroundMethods }) :
          proxy'.memberLists = { aroundMethods := proxy'.aroundMethods } := by
        rw [ha, ih]
      rw [Plan.weave, hw]
      split <;> exact hm _ rfl

/-! ## Builds -/

/-- A class that is built has a proxy just if it is proxied as a whole or some member is intercepted, and is
then not final. The proxy is what the weaver opens it as for the markers of the class or of the first method
that is intercepted, with the shape of the class and on top of the main plan, and with each method that is
intercepted then taken up, in order. The shape of the class is that of the main plan, unless properties are read
by a handler that changes it. The standard weaver fills none of its lists but that of intercepted methods. -/
theorem build_weaves (h : (build s c).result = .ok set) :
    ∃ rs es, set.Tells s.strategy c rs es ∧
      (set.proxy.isSome = true ↔
        s.strategy.alwaysProxies = true ∨ ∃ x, (x, .intercepted) ∈ es) ∧
      (set.proxy.isSome = true → c.isFinal = false) ∧
      (∀ proxy ∈ set.proxy,
        let ms := (methodsWith (· = .intercepted) es).map fun m =>
          (m.resolve s.registry).deriveValidated s.registry
        Woven s c set.main (callingMarkers s c ms) ms proxy) ∧
      ((s.strategy.readsProperties = true → s.strategy.handler.Keeps Plan.shape) →
        ∀ plan : Plan, plan.withShape c =
          { plan with
            typeArguments := set.main.typeArguments
            constructor := set.main.constructor }) ∧
      (s.weaver = .standard → ∀ proxy ∈ set.proxy,
        proxy.name = Plan.proxyName c.name ∧ proxy.kind = .proxy ∧
          proxy.memberLists = { aroundMethods := proxy.aroundMethods }) := by
  obtain ⟨rs, es, p, q, hcourse, rfl⟩ := build_ok h
  obtain ⟨hsome, hwoven⟩ := hcourse.woven
  have hint := hcourse.runs.intercepted_iff
  obtain ⟨xs, ys, htells, rfl, rfl⟩ := hcourse.tells
  refine ⟨xs, ys, htells, ?_, hcourse.notFinal_of_proxy, ?_, fun hh plan => ?_,
    fun hw proxy hproxy => ?_⟩
  · refine hsome.trans (or_congr_right (hint.trans ⟨?_, ?_⟩))
    · rintro ⟨x, hx⟩
      obtain ⟨e, he, heq⟩ := List.mem_map.1 hx
      obtain ⟨_, hd⟩ := Prod.mk.inj heq
      exact ⟨e.1, hd ▸ he⟩
    · rintro ⟨x, hx⟩
      exact ⟨x.seen s.registry, List.mem_map.2 ⟨_, hx, rfl⟩⟩
  · intro proxy hproxy
    rw [← methodsWith_seen]
    exact hwoven proxy hproxy
  · have hshape := hcourse.main_keeps hh fun _ => rfl
    rw [Pass.main_opened] at hshape
    obtain ⟨harguments, hconstructor⟩ := Prod.mk.inj hshape
    rw [plan.withShape_eq (Plan.new (Plan.definitionName c.name) c.name .bean)]
    exact congrArg₂ (fun a k => { plan with typeArguments := a, constructor := k })
      harguments.symm hconstructor.symm
  · have hw' := hwoven proxy hproxy
    have hhead := hw'.head_of_standard hw
    refine ⟨(congrArg Plan.name hhead).trans ?_, (congrArg Plan.kind hhead).trans ?_,
      hw'.lists_of_standard hw⟩
    · unfold Plan.withShape
      split <;> rfl
    · unfold Plan.withShape
      split <;> rfl

end Course

theorem build_weaves_of_foreign_method :
    let timed : CapabilitySet := CapabilitySet.empty.withDeclared Marker.around
    let start : MethodModel :=
      { name := "start", declaringType := "app.Base", capabilities := timed }
    let run : MethodModel :=
      { name := "run", declaringType := "app.Service", capabilities := timed }
    let setHost : MethodModel :=
      { name := "setHost", declaringType := "app.Service", parameters := [{ name := "host" }] }
    let c : ClassModel :=
      { name := "app.Service", methods := [run, start, setHost]
        primaryConstructor := some { parameters := [{ name := "store", typeName := "app.Store" }] }
        properties := [{ name := "host", writeMethod := some "setHost" }] }
    let s : Setting := { strategy := .ofMode .properties }
    ∃ set proxy, (build s c).result = .ok set ∧ set.proxy = some proxy ∧
      proxy.aroundMethods.map (·.method.name) = ["start", "run"] ∧
      proxy.originatingElements = .ofList ["app.Base"] ∧
      set.main.setterValues.map (·.property) = ["host"] ∧
      set.main.constructor = some (.declared [⟨"store", "app.Store"⟩] false) ∧
      proxy.constructor = set.main.constructor ∧
      (∃ rs es, set.Tells s.strategy c rs es ∧ (∃ x, (x, .intercepted) ∈ es) ∧ c.isFinal = false) ∧
      ∀ plan : Plan, plan.withShape c =
        { plan with
          typeArguments := set.main.typeArguments
          constructor := set.main.constructor } := by
  intro timed start run setHost c s
  have hmain : (build s c).result.toOption.map (fun set =>
      (set.main.setterValues.map (·.property), set.main.constructor)) =
        some (["host"], some (.declared [⟨"store", "app.Store"⟩] false)) := by
    decide +kernel
  have hproxy : ((build s c).result.toOption.bind (·.proxy)).map (fun proxy =>
      (proxy.aroundMethods.map (·.method.name), proxy.originatingElements, proxy.constructor)) =
        some (["start", "run"], .ofList ["app.Base"],
          some (.declared [⟨"store", "app.Store"⟩] false)) := by
    decide +kernel
  obtain ⟨set, hset, hmain⟩ := Option.map_eq_some_iff.1 hmain
  rw [hset, Option.bind_some] at hproxy
  obtain ⟨proxy, hproxy, hwoven⟩ := Option.map_eq_some_iff.1 hproxy
  simp only [Prod.mk.injEq] at hmain hwoven
  obtain ⟨hsetters, hmain⟩ := hmain
  obtain ⟨hmethods, horigins, hconstructor⟩ := hwoven
  have h : (build s c).result = .ok set := toOption_eq_some.1 hset
  obtain ⟨rs, es, htells, hsome, hfinal, _, hshape, _⟩ := build_weaves h
  have hs : set.proxy.isSome = true := by rw [hproxy]; rfl
  have hint : ∃ x, (x, .intercepted) ∈ es := (hsome.1 hs).resolve_left (by decide)
  have hkeeps : s.strategy.handler.Keeps Plan.shape :=
    PropertyHandler.configuration_plain.keeps fun _ _ => rfl
  exact ⟨set, proxy, h, hproxy, hmethods, horigins, hsetters, hmain, hconstructor.trans hmain.symm,
    ⟨rs, es, htells, hint, hfinal hs⟩, hshape fun _ => hkeeps⟩

/-- A handler can have the bean made in another way than its class is. The proxy is made as the class is all the
same, and not as the main plan is. -/
theorem rebound_constructor_is_not_woven :
    let run : MethodModel :=
      { name := "run", declaringType := "app.Service"
        capabilities := CapabilitySet.empty.withDeclared Marker.around }
    let c : ClassModel :=
      { name := "app.Service", methods := [run], properties := [{ name := "host" }]
        primaryConstructor := some { parameters := [{ name := "store", typeName := "app.Store" }] } }
    let rebind : PropertyHandler := ⟨"rebind", fun _ plan _ _ => .ok (false, plan.withDefaultConstructor)⟩
    let s : Setting := { strategy := { mode := .properties, handler := rebind } }
    ∃ set proxy, (build s c).result = .ok set ∧ set.proxy = some proxy ∧
      set.main.constructor = some .default ∧
      proxy.constructor = some (.declared [⟨"store", "app.Store"⟩] false) ∧
      proxy.constructor ≠ set.main.constructor := by
  intro run c rebind s
  exact ⟨_, _, rfl, rfl, rfl, rfl, by decide⟩

end Wiring
