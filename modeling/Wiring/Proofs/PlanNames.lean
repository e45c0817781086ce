import Mathlib.Data.List.Nodup
import Wiring.Proofs.Adapters
import Wiring.Proofs.Bindings

/-!
# Names of plans

The names of plans are put together from the parts of a class, which are not checked. They still tell plans
apart: only adapters are named with a number at the end, and no two of a class have the same number
(`plan_names_identify`). A handler of properties that renames the main plan can give it the name of another
(`renamed_plan_is_not_told`).
-/

namespace Wiring

/-! ## Endings -/

/-- A number at the end of a text can be read off it. -/
theorem eq_of_append_toDigits {l l' : List Char} {x x' : Char} {k k' : Nat} (hx : x.isDigit = false)
    (hx' : x'.isDigit = false) (h : l ++ x :: Nat.toDigits 10 k = l' ++ x' :: Nat.toDigits 10 k') :
    k = k' := by
  -- From the end, the digits go on as far as the number does.
  have hread (l : List Char) {x : Char} (hx : x.isDigit = false) (k : Nat) :
      (l ++ x :: Nat.toDigits 10 k).reverse.takeWhile (·.isDigit) = (Nat.toDigits 10 k).reverse := by
    have hdigits : ∀ d ∈ (Nat.toDigits 10 k).reverse, d.isDigit = true := fun d hd =>
      Nat.isDigit_of_mem_toDigits (by decide) (by decide) (List.mem_reverse.1 hd)
    rw [List.reverse_append, List.reverse_cons, List.append_assoc, List.takeWhile_append_of_pos hdigits,
      List.singleton_append, List.takeWhile_cons_of_neg (by simp [hx]), List.append_nil]
  have hdigits : Nat.toDigits 10 k = Nat.toDigits 10 k' := by
    rw [← List.reverse_inj, ← hread l hx k, ← hread l' hx' k', h]
  calc k = Nat.ofDigitChars 10 (Nat.toDigits 10 k) 0 := Nat.ofDigitChars_ten_toDigits.symm
    _ = Nat.ofDigitChars 10 (Nat.toDigits 10 k') 0 := by rw [hdigits]
    _ = k' := Nat.ofDigitChars_ten_toDigits

namespace Plan

variable {type type' method method' : String} {k k' : Nat}

theorem getLast?_definitionName (type : String) :
    (definitionName type).toList.getLast? = some 'n' := by
  have hword : "$Definition".toList.getLast? = some 'n' := by decide
  rw [definitionName, String.toList_append, List.getLast?_append, hword, Option.some_or]

theorem getLast?_proxyName (type : String) : (proxyName type).toList.getLast? = some 'd' := by
  have hword : "$Intercepted".toList.getLast? = some 'd' := by decide
  rw [proxyName, String.toList_append, List.getLast?_append, hword, Option.some_or]

theorem toList_adapterName (type method : String) (k : Nat) :
    ∃ l, (adapterName type method k).toList = l ++ 'r' :: Nat.toDigits 10 k := by
  have hword : "$Adapter".toList = "$Adapte".toList ++ ['r'] := by decide
  refine ⟨("$" ++ simpleNameOf type ++ "$" ++ method).toList ++ "$Adapte".toList, ?_⟩
  simp only [adapterName, String.toList_append, hword, Nat.toString_eq_repr, Nat.toList_repr,
    List.append_assoc, List.singleton_append]

theorem getLast?_adapterName (type method : String) (k : Nat) :
    ∃ d : Char, d.isDigit = true ∧ (adapterName type method k).toList.getLast? = some d := by
  obtain ⟨l, hl⟩ := toList_adapterName type method k
  have hne : Nat.toDigits 10 k ≠ [] := Nat.toDigits_ne_nil
  refine ⟨(Nat.toDigits 10 k).getLast hne,
    Nat.isDigit_of_mem_toDigits (by decide) (by decide) (List.getLast_mem hne), ?_⟩
  rw [hl, List.getLast?_append, List.getLast?_cons, List.getLast?_eq_getLast_of_ne_nil hne]
  rfl

theorem definitionName_ne_proxyName : definitionName type ≠ proxyName type' := by
  intro h
  have hlast := congrArg (·.toList.getLast?) h
  simp only [getLast?_definitionName, getLast?_proxyName] at hlast
  cases hlast

theorem definitionName_ne_adapterName : definitionName type ≠ adapterName type' method k := by
  intro h
  obtain ⟨d, hd, hlast⟩ := getLast?_adapterName type' method k
  rw [← h, getLast?_definitionName] at hlast
  cases hlast
  cases hd

theorem proxyName_ne_adapterName : proxyName type ≠ adapterName type' method k := by
  intro h
  obtain ⟨d, hd, hlast⟩ := getLast?_adapterName type' method k
  rw [← h, getLast?_proxyName] at hlast
  cases hlast
  cases hd

/-- Whatever class and method they are named after, adapters of one name have one number. -/
theorem index_eq_of_adapterName (h : adapterName type method k = adapterName type' method' k') :
    k = k' := by
  obtain ⟨l, hl⟩ := toList_adapterName type method k
  obtain ⟨l', hl'⟩ := toList_adapterName type' method' k'
  rw [h, hl'] at hl
  exact (eq_of_append_toDigits (by decide) (by decide) hl).symm

end Plan

/-! ## Plans of a class -/

/-- The plans that are made beside the main plan bear the names that are made for them. -/
structure PlanSet.NamedFor (set : PlanSet) (c : ClassModel) : Prop where
  proxy : ∀ proxy ∈ set.proxy,
    proxy.name = Plan.proxyName c.name ∧ proxy.superBean = some set.main.name
  adapters : ∀ k plan, set.adapters[k]? = some plan →
    ∃ method, plan.name = Plan.adapterName c.name method k

namespace PlanSet.NamedFor

variable {set : PlanSet} {c : ClassModel}

theorem exists_adapterName (h : set.NamedFor c) {plan : Plan} (hplan : plan ∈ set.adapters) :
    ∃ method k, plan.name = Plan.adapterName c.name method k := by
  obtain ⟨k, hk⟩ := List.mem_iff_getElem?.1 hplan
  obtain ⟨method, hname⟩ := h.adapters k plan hk
  exact ⟨method, k, hname⟩

theorem nodup_adapters (h : set.NamedFor c) : (set.adapters.map (·.name)).Nodup := by
  rw [List.Nodup, List.pairwise_map, List.pairwise_iff_getElem]
  intro i j hi hj hlt heq
  obtain ⟨m, hm⟩ := h.adapters i _ (List.getElem?_eq_getElem hi)
  obtain ⟨m', hm'⟩ := h.adapters j _ (List.getElem?_eq_getElem hj)
  rw [hm, hm'] at heq
  exact absurd (Plan.index_eq_of_adapterName heq) (Nat.ne_of_lt hlt)

theorem nodup_others (h : set.NamedFor c) :
    ((set.proxy.toList ++ set.adapters).map (·.name)).Nodup := by
  rw [List.map_append, List.nodup_append]
  refine ⟨by cases set.proxy <;> simp, h.nodup_adapters, ?_⟩
  intro name hmem name' hmem' heq
  obtain ⟨proxy, hproxy, rfl⟩ := List.mem_map.1 hmem
  obtain ⟨plan, hplan, rfl⟩ := List.mem_map.1 hmem'
  obtain ⟨method, k, hplan⟩ := h.exists_adapterName hplan
  rw [(h.proxy proxy (Option.mem_toList.1 hproxy)).1, hplan] at heq
  exact Plan.proxyName_ne_adapterName heq

section Main

variable (hmain : set.main.name = Plan.definitionName c.name)

include hmain

/-- No two plans of a class have the same name, if the main plan has the name that is made for it. -/
theorem nodup (h : set.NamedFor c) : (set.plans.map (·.name)).Nodup := by
  rw [plans, List.map_cons, List.nodup_cons]
  refine ⟨fun hmem => ?_, h.nodup_others⟩
  obtain ⟨plan, hplan, hname⟩ := List.mem_map.1 hmem
  rcases List.mem_append.1 hplan with hplan | hplan
  · rw [(h.proxy plan (Option.mem_toList.1 hplan)).1, hmain] at hname
    exact Plan.definitionName_ne_proxyName hname.symm
  · obtain ⟨method, k, hadapter⟩ := h.exists_adapterName hplan
    rw [hadapter, hmain] at hname
    exact Plan.definitionName_ne_adapterName hname.symm

/-- A proxy is on top of the main plan and of no other. -/
theorem superBean_iff (h : set.NamedFor c) {proxy plan : Plan} (hproxy : proxy ∈ set.proxy)
    (hplan : plan ∈ set.plans) : proxy.superBean = some plan.name ↔ plan = set.main := by
  rw [(h.proxy proxy hproxy).2, Option.some.injEq]
  constructor
  · intro hname
    exact List.inj_on_of_nodup_map (h.nodup hmain) hplan List.mem_cons_self hname.symm
  · rintro rfl
    rfl

end Main

end PlanSet.NamedFor

/-! ## Builds -/

section Builds

variable {s : Setting} {c : ClassModel} {rs : List (PropertyModel × Disposition)}
  {es : List (Candidate × Disposition)} {p q : Pass} {qs : List Inquiry} {set : PlanSet}

theorem Course.name_main (h : Course s c rs es p q)
    (hh : s.strategy.readsProperties = true → s.strategy.handler.Keeps Plan.name) :
    q.main.name = Plan.definitionName c.name := by
  rw [h.main_keeps hh fun _ => rfl, Pass.main_opened]
  unfold Plan.withShape
  split <;> rfl

theorem Course.beanType_main (h : Course s c rs es p q)
    (hh : s.strategy.readsProperties = true → s.strategy.handler.Keeps Plan.beanType) :
    q.main.beanType = c.name := by
  rw [h.main_keeps hh fun _ => rfl, Pass.main_opened]
  unfold Plan.withShape
  split <;> rfl

theorem Course.proxy_of_standard (hw : s.weaver = .standard) (h : Course s c rs es p q) {proxy : Plan}
    (hproxy : proxy ∈ q.proxy) :
    proxy.name = Plan.proxyName c.name ∧ proxy.beanType = c.name ∧
      proxy.superBean = some q.main.name := by
  have hhead := (h.woven.2 proxy hproxy).head_of_standard hw
  have hname := congrArg Plan.name hhead
  have htype := congrArg Plan.beanType hhead
  refine ⟨hname.trans ?_, htype.trans ?_, congrArg Plan.superBean hhead⟩
  · unfold Plan.withShape
    split <;> rfl
  · unfold Plan.withShape
    split <;> rfl

theorem PlanSet.Adapts.named (hw : s.weaver = .standard) (h : set.Adapts s c es qs) {k : Nat}
    {plan : Plan} (hplan : set.adapters[k]? = some plan) :
    (∃ method, plan.name = Plan.adapterName c.name method k) ∧ plan.beanType = c.name := by
  rw [h.adapters] at hplan
  obtain ⟨i, hi, hindex, hanswer⟩ := h.index.exists_of_getElem? hplan
  rw [Nat.zero_add] at hindex
  rw [Inquiry.answer, hw, hindex] at hanswer
  have hname : i.model.name = c.name := (h.model i hi).name_eq
  simp only [Weaver.standard] at hanswer
  split at hanswer
  · cases hanswer
  · split at hanswer
    · cases hanswer
    · cases hanswer
      exact ⟨⟨i.method.name, by rw [← hname]; rfl⟩, hname⟩

theorem namedFor_of_build (hw : s.weaver = .standard) (h : (build s c).result = .ok set) :
    set.NamedFor c := by
  obtain ⟨rs, es, qs, p, q, hcourse, rfl, _, hadapts, _⟩ := asks_of_build h
  refine ⟨fun proxy hproxy => ?_, fun k plan hplan => (hadapts.named hw hplan).1⟩
  obtain ⟨hname, _, hsuper⟩ := hcourse.proxy_of_standard hw hproxy
  exact ⟨hname, hsuper⟩

/-- The main plan has the name that is made for it, unless the handler of properties renames it. -/
theorem name_main_of_build
    (hh : s.strategy.readsProperties = true → s.strategy.handler.Keeps Plan.name)
    (h : (build s c).result = .ok set) : set.main.name = Plan.definitionName c.name := by
  obtain ⟨rs, es, p, q, hcourse, rfl⟩ := build_ok h
  exact hcourse.name_main hh

theorem beanType_of_build (hw : s.weaver = .standard)
    (hh : s.strategy.readsProperties = true → s.strategy.handler.Keeps Plan.beanType)
    (h : (build s c).result = .ok set) {plan : Plan} (hplan : plan ∈ set.plans) :
    plan.beanType = c.name := by
  obtain ⟨rs, es, qs, p, q, hcourse, rfl, _, hadapts, _⟩ := asks_of_build h
  rcases List.mem_cons.1 hplan with rfl | hplan
  · exact hcourse.beanType_main hh
  · rcases List.mem_append.1 hplan with hplan | hplan
    · exact (hcourse.proxy_of_standard hw (Option.mem_toList.1 hplan)).2.1
    · obtain ⟨k, hk⟩ := List.mem_iff_getElem?.1 hplan
      exact (hadapts.named hw hk).2

end Builds

/-! ## Runs -/

/-- What a plan is told by in a document. -/
def Plan.key (plan : Plan) : String × String := (plan.beanType, plan.name)

section Runs

variable {s : Settings} {x : Subject} {set : PlanSet}

theorem Settings.handler_plain (s : Settings) (x : Subject) : (s.setting x).strategy.handler.Plain := by
  simp only [setting, strategyFor]
  cases s.mode.getD (Mode.detect x.model x.registry) with
  | properties => exact PropertyHandler.configuration_plain
  | simple | alwaysProxy => exact PropertyHandler.noop_plain

theorem Settings.planSet?_keys (h : s.planSet? x = some set) :
    (set.plans.map Plan.key).Nodup ∧ ∀ plan ∈ set.plans, plan.beanType = x.model.name := by
  have hbuild := Settings.planSet?_eq_some.1 h
  have hmain := name_main_of_build (fun _ => (s.handler_plain x).keeps fun _ _ => rfl) hbuild
  have hnames := (namedFor_of_build rfl hbuild).nodup hmain
  refine ⟨List.Nodup.of_map Prod.snd ?_, fun plan hplan => ?_⟩
  · rw [List.map_map]
    exact hnames
  · exact beanType_of_build rfl (fun _ => (s.handler_plain x).keeps fun _ _ => rfl) hbuild hplan

theorem Settings.nodup_keys {xs : List Subject} (h : (xs.map (·.model.name)).Nodup) :
    ((xs.filterMap s.planSet?).flatMap fun set => set.plans.map Plan.key).Nodup := by
  rw [List.nodup_flatMap]
  constructor
  · intro set hset
    obtain ⟨x, _, hx⟩ := List.mem_filterMap.1 hset
    exact (planSet?_keys hx).1
  · rw [List.Nodup, List.pairwise_map] at h
    rw [List.pairwise_filterMap]
    refine h.imp fun {x y} hne a ha b hb => ?_
    -- A plan of both sets would be of both classes.
    intro key hkey hkey'
    obtain ⟨plan, hplan, rfl⟩ := List.mem_map.1 hkey
    obtain ⟨plan', hplan', heq⟩ := List.mem_map.1 hkey'
    have htype : plan'.beanType = plan.beanType := congrArg Prod.fst heq
    rw [(planSet?_keys ha).2 plan hplan, (planSet?_keys hb).2 plan' hplan'] at htype
    exact hne htype.symm

theorem Settings.names_subjects (s : Settings) (batches : List LoadedBatch) :
    (batches.flatMap (·.subjects s)).map (·.model.name) =
      (batches.flatMap (·.batch.classes)).map (·.name) := by
  simp only [List.map_flatMap, LoadedBatch.subjects_eq, List.map_map]
  rfl

end Runs

/-- The proxy and the adapters of a class that is built with the standard weaver have different names, whatever
the class and its methods are called, and the proxy is on top of what bears the name of the main plan. The name
of the main plan is another one, and the proxy on top of no other plan, unless properties are read by a handler
that renames the plan that it is given. In a run over classes with different names a plan is told by the type
of its bean and its name. -/
theorem plan_names_identify :
    (∀ (s : Setting) (c : ClassModel) (set : PlanSet), s.weaver = .standard →
      (build s c).result = .ok set →
        ((set.proxy.toList ++ set.adapters).map (·.name)).Nodup ∧
        (∀ proxy ∈ set.proxy, proxy.superBean = some set.main.name) ∧
        (set.main.name = Plan.definitionName c.name →
          (set.plans.map (·.name)).Nodup ∧
            ∀ proxy ∈ set.proxy, ∀ plan ∈ set.plans,
              proxy.superBean = some plan.name ↔ plan = set.main) ∧
        ((s.strategy.readsProperties = true → s.strategy.handler.Keeps Plan.name) →
          set.main.name = Plan.definitionName c.name)) ∧
    ∀ (s : Settings) (tool : ToolInfo) (time : RunInfo) (batches : List LoadedBatch),
      ((batches.flatMap (·.batch.classes)).map (·.name)).Nodup →
        (((s.run tool time batches).document.planSets.flatMap (·.plans)).map Plan.key).Nodup := by
  refine ⟨fun s c set hw h => ?_, fun s tool time batches h => ?_⟩
  · have hnamed := namedFor_of_build hw h
    exact ⟨hnamed.nodup_others, fun proxy hproxy => (hnamed.proxy proxy hproxy).2,
      fun hmain => ⟨hnamed.nodup hmain, fun proxy hproxy plan hplan =>
        hnamed.superBean_iff hmain hproxy hplan⟩,
      fun hh => name_main_of_build hh h⟩
  · obtain ⟨ys, hys, hsets⟩ := s.exists_planSets {} (batches.flatMap (·.subjects s))
    have hplanned : (s.run tool time batches).document.planSets = ys.filterMap s.planSet? := by
      rw [← s.ledger_eq] at hsets
      exact hsets
    rw [hplanned, List.map_flatMap]
    rw [← s.names_subjects] at h
    exact Settings.nodup_keys (h.sublist (hys.map _))

theorem plan_names_identify_of_odd_names :
    let sink : CapabilitySet := CapabilitySet.empty.withDeclaredAttribute Marker.adapter
      Marker.adaptedType (.of (.str "app.Sink"))
    let m (name : String) (capabilities : CapabilitySet) : MethodModel :=
      { name, declaringType := "app.Base", capabilities }
    let c (name : String) : ClassModel :=
      { name
        methods := [m "$Definition" (CapabilitySet.empty.withDeclared Marker.around), m "on" sink,
          m "on$Adapter0" sink, m "1" sink] }
    let s : Setting := { strategy := .ofMode .properties }
    let b : LoadedBatch := ⟨"logs.json", { classes := [c "a.Log$Adapter1", c "b.Log$Adapter1"] }⟩
    let t : Settings := { mode := some .properties }
    (∃ set, (build s (c "a.Log$Adapter1")).result = .ok set ∧
      set.plans.map (·.name) = ["$Log$Adapter1$Definition", "$Log$Adapter1$Definition$Intercepted",
        "$Log$Adapter1$on$Adapter0", "$Log$Adapter1$on$Adapter0$Adapter1", "$Log$Adapter1$1$Adapter2"] ∧
      (set.plans.map (·.name)).Nodup ∧
      ∀ proxy ∈ set.proxy, ∀ plan ∈ set.plans,
        proxy.superBean = some plan.name ↔ plan = set.main) ∧
    (([b].flatMap (·.batch.classes)).map (·.name)).Nodup ∧
    (((t.run {} {} [b]).document.planSets.flatMap (·.plans)).map Plan.key).Nodup ∧
    ((t.run {} {} [b]).document.planSets.map (·.plans.length)) = [5, 5] := by
  intro sink m c s b t
  obtain ⟨hbuild, hrun⟩ := plan_names_identify
  have hset : (build s (c "a.Log$Adapter1")).result.toOption.map (·.plans.map (·.name)) =
      some ["$Log$Adapter1$Definition", "$Log$Adapter1$Definition$Intercepted",
        "$Log$Adapter1$on$Adapter0", "$Log$Adapter1$on$Adapter0$Adapter1",
        "$Log$Adapter1$1$Adapter2"] := by
    decide +kernel
  obtain ⟨set, h, hplans⟩ := Option.map_eq_some_iff.1 hset
  have h : (build s (c "a.Log$Adapter1")).result = .ok set := toOption_eq_some.1 h
  have hkeeps : s.strategy.handler.Keeps Plan.name :=
    PropertyHandler.configuration_plain.keeps fun _ _ => rfl
  have hclasses : (([b].flatMap (·.batch.classes)).map (·.name)).Nodup := by decide
  obtain ⟨_, _, hidentify, hmain⟩ := hbuild s _ set rfl h
  exact ⟨⟨set, h, hplans, hidentify (hmain fun _ => hkeeps)⟩, hclasses, hrun t {} {} [b] hclasses,
    by decide +kernel⟩

/-- A handler can give the main plan the name of the proxy. The proxy is then on top of both. -/
theorem renamed_plan_is_not_told :
    let run : MethodModel :=
      { name := "run", declaringType := "app.Service"
        capabilities := CapabilitySet.empty.withDeclared Marker.around }
    let c : ClassModel :=
      { name := "app.Service", methods := [run], properties := [{ name := "host" }] }
    let rename : PropertyHandler :=
      ⟨"rename", fun c plan _ _ => .ok (false, { plan with name := Plan.proxyName c.name })⟩
    let s : Setting := { strategy := { mode := .properties, handler := rename } }
    s.weaver = .standard ∧ ∃ set proxy, (build s c).result = .ok set ∧ set.proxy = some proxy ∧
      set.plans.map (·.name) = ["$Service$Definition$Intercepted", "$Service$Definition$Intercepted"] ∧
      ¬(set.plans.map (·.name)).Nodup ∧
      proxy ∈ set.plans ∧ proxy.superBean = some proxy.name ∧ proxy ≠ set.main := by
  intro run c rename s
  exact ⟨rfl, _, _, rfl, rfl, by decide, by decide, by decide, by decide, by decide⟩

end Wiring
