import Wiring.Proofs.Detection
import Wiring.Proofs.Interception
import Wiring.Proofs.Readers
import Wiring.Proofs.Truncation

/-!
# Names of interceptors

An intercepted method names the markers that bring it advice: those of the method before those of its class,
each once (`AdviceNames`). Whatever has a method intercepted is also named, unless the class is proxied as a
whole although no marker of it carries advice (`build_names_advice`). That can be the mode which is detected
too, from a closure that was cached under another registry (`stale_advice_intercepts_unnamed`).
-/

namespace Wiring

/-! ## The order of markers -/

namespace CapabilitySet

/-- The order of the markers of a set: those that are written come first, otherwise names decide. -/
inductive Before (c : CapabilitySet) (a b : String) : Prop
  | declared (ha : c.hasDeclaredMarker a = true) (hb : c.hasDeclaredMarker b = true) (h : a < b)
  | across (ha : c.hasDeclaredMarker a = true) (hb : c.hasDeclaredMarker b = false)
  | inherited (ha : c.hasDeclaredMarker a = false) (hb : c.hasDeclaredMarker b = false) (h : a < b)

variable {c : CapabilitySet} {a b : String}

theorem Before.ne (h : c.Before a b) : a ≠ b := by
  cases h with
  | declared _ _ h => exact String.ne_of_lt h
  | across ha hb =>
      rintro rfl
      rw [ha] at hb
      cases hb
  | inherited _ _ h => exact String.ne_of_lt h

theorem mem_markerNames_iff : a ∈ c.markerNames ↔ c.hasMarker a = true := by
  rw [mem_markerNames, List.mem_append, StringMap.mem_keys, StringMap.mem_keys, hasMarker, Bool.or_eq_true]

theorem pairwise_markerNames (c : CapabilitySet) : c.markerNames.Pairwise c.Before := by
  have hdeclared : c.declared.keys.Pairwise (· < ·) := List.pairwise_map.2 c.declared.ascending
  have hinherited : c.inherited.keys.Pairwise (· < ·) := List.pairwise_map.2 c.inherited.ascending
  have hwritten : ∀ a ∈ c.declared.keys, c.hasDeclaredMarker a = true := fun a ha =>
    StringMap.mem_keys.1 ha
  have hunwritten : ∀ a ∈ c.inherited.keys.filter (!c.declared.contains ·),
      c.hasDeclaredMarker a = false := by
    intro a ha
    simpa [hasDeclaredMarker] using (List.mem_filter.1 ha).2
  refine List.pairwise_append.2 ⟨?_, ?_, ?_⟩
  · exact hdeclared.imp_of_mem fun ha hb h => .declared (hwritten _ ha) (hwritten _ hb) h
  · exact (hinherited.filter _).imp_of_mem fun ha hb h =>
      .inherited (hunwritten _ ha) (hunwritten _ hb) h
  · exact fun a ha b hb => .across (hwritten a ha) (hunwritten b hb)

end CapabilitySet

/-- The order of the markers of a method and its class: those of the method come first. -/
inductive AdviceBefore (own context : CapabilitySet) (a b : String) : Prop
  | own (ha : own.hasMarker a = true) (hb : own.hasMarker b = true) (h : own.Before a b)
  | across (ha : own.hasMarker a = true) (hb : own.hasMarker b = false)
  | context (ha : own.hasMarker a = false) (hb : own.hasMarker b = false) (h : context.Before a b)

theorem AdviceBefore.ne {own context : CapabilitySet} {a b : String}
    (h : AdviceBefore own context a b) : a ≠ b := by
  cases h with
  | own _ _ h => exact h.ne
  | across ha hb =>
      rintro rfl
      rw [ha] at hb
      cases hb
  | context _ _ h => exact h.ne

/-- A list names the markers of a method and of its class that carry advice, in their order and each once. -/
structure AdviceNames (r : Registry) (own context : CapabilitySet) (names : List String) : Prop where
  complete : ∀ a, a ∈ names ↔
    (own.hasMarker a = true ∨ context.hasMarker a = true) ∧ r.Carries a Marker.around
  ordered : names.Pairwise (AdviceBefore own context)
  nodup : names.Nodup

theorem AdviceNames.ne_nil {r : Registry} {own context : CapabilitySet} {names : List String}
    (h : AdviceNames r own context names)
    (ha : own.Carries r Marker.around ∨ context.Carries r Marker.around) : names ≠ [] := by
  rcases ha with ⟨a, ha, hcarries⟩ | ⟨a, ha, hcarries⟩
  · rw [← CapabilitySet.mem_markerNames, CapabilitySet.mem_markerNames_iff] at ha
    exact List.ne_nil_of_mem ((h.complete a).2 ⟨Or.inl ha, hcarries⟩)
  · rw [← CapabilitySet.mem_markerNames, CapabilitySet.mem_markerNames_iff] at ha
    exact List.ne_nil_of_mem ((h.complete a).2 ⟨Or.inr ha, hcarries⟩)

/-! ## The names that are listed -/

/-- The markers of a set that carry advice. -/
def CapabilitySet.advice (r : Registry) (k : CapabilitySet) : List String :=
  k.markerNames.filter (r.carries · Marker.around)

theorem CapabilitySet.mem_advice {r : Registry} {k : CapabilitySet} {a : String} :
    a ∈ k.advice r ↔ k.hasMarker a = true ∧ r.Carries a Marker.around := by
  rw [advice, List.mem_filter, mem_markerNames_iff, Registry.carries_iff]

theorem CapabilitySet.pairwise_advice (r : Registry) (k : CapabilitySet) :
    (k.advice r).Pairwise k.Before := k.pairwise_markerNames.filter _

theorem CapabilitySet.nodup_advice (r : Registry) (k : CapabilitySet) : (k.advice r).Nodup :=
  (k.pairwise_advice r).imp fun h => h.ne

theorem eraseDups_of_nodup {l : List String} (h : l.Nodup) : l.eraseDups = l := by
  induction l with
  | nil => rfl
  | cons a l ih =>
      obtain ⟨ha, hl⟩ := List.nodup_cons.1 h
      have hfilter : l.filter (fun b => !b == a) = l := by
        refine List.filter_eq_self.2 fun b hb => ?_
        simpa using fun heq : b = a => ha (heq ▸ hb)
      rw [List.eraseDups_cons, hfilter, ih hl]

/-- Those of the method, and those of the class that the method has not. -/
theorem interceptorBindings_eq (r : Registry) (c : ClassModel) (m : MethodModel) :
    interceptorBindings r c m =
      m.capabilities.advice r ++ (c.capabilities.advice r).filter (!m.capabilities.hasMarker ·) := by
  have hremove : (c.capabilities.advice r).removeAll (m.capabilities.advice r) =
      (c.capabilities.advice r).filter (!m.capabilities.hasMarker ·) := by
    refine List.filter_congr fun a ha => ?_
    have hcarries : r.Carries a Marker.around := (CapabilitySet.mem_advice.1 ha).2
    rw [Bool.eq_iff_iff]
    simp [CapabilitySet.mem_advice, hcarries]
  have hown := eraseDups_of_nodup (m.capabilities.nodup_advice r)
  have hcontext := eraseDups_of_nodup
    ((c.capabilities.nodup_advice r).filter (!m.capabilities.hasMarker ·))
  calc interceptorBindings r c m
      = (m.capabilities.advice r ++ c.capabilities.advice r).eraseDups :=
        congrArg List.eraseDups (List.filter_append ..)
    _ = (m.capabilities.advice r).eraseDups ++
          ((c.capabilities.advice r).removeAll (m.capabilities.advice r)).eraseDups :=
        List.eraseDups_append
    _ = _ := by rw [hremove, hown, hcontext]

theorem pairwise_interceptorBindings (r : Registry) (c : ClassModel) (m : MethodModel) :
    (interceptorBindings r c m).Pairwise (AdviceBefore m.capabilities c.capabilities) := by
  have hown : ∀ a ∈ m.capabilities.advice r, m.capabilities.hasMarker a = true := fun a ha =>
    (CapabilitySet.mem_advice.1 ha).1
  have hcontext : ∀ a ∈ (c.capabilities.advice r).filter (!m.capabilities.hasMarker ·),
      m.capabilities.hasMarker a = false := by
    intro a ha
    simpa using (List.mem_filter.1 ha).2
  rw [interceptorBindings_eq]
  refine List.pairwise_append.2 ⟨?_, ?_, ?_⟩
  · exact (m.capabilities.pairwise_advice r).imp_of_mem fun ha hb h => .own (hown _ ha) (hown _ hb) h
  · exact ((c.capabilities.pairwise_advice r).filter _).imp_of_mem fun ha hb h =>
      .context (hcontext _ ha) (hcontext _ hb) h
  · exact fun a ha b hb => .across (hown a ha) (hcontext b hb)

theorem mem_interceptorBindings {r : Registry} {c : ClassModel} {m : MethodModel} {a : String} :
    a ∈ interceptorBindings r c m ↔
      (m.capabilities.hasMarker a = true ∨ c.capabilities.hasMarker a = true) ∧
        r.Carries a Marker.around := by
  rw [interceptorBindings, List.mem_eraseDups, List.mem_filter, List.mem_append,
    CapabilitySet.mem_markerNames_iff, CapabilitySet.mem_markerNames_iff, Registry.carries_iff]

theorem adviceNames_interceptorBindings (r : Registry) (c : ClassModel) (m : MethodModel) :
    AdviceNames r m.capabilities c.capabilities (interceptorBindings r c m) where
  complete _ := mem_interceptorBindings
  ordered := pairwise_interceptorBindings r c m
  nodup := (pairwise_interceptorBindings r c m).imp fun h => h.ne

/-! ## Stale caches -/

/-- The closure that is cached for the class holds advice, and no marker carries it. -/
structure ClassModel.StaleAdvice (r : Registry) (c : ClassModel) : Prop where
  cached : c.capabilities.isResolved = true
  held : c.capabilities.hasStereotype Marker.around = true
  uncarried : ¬c.capabilities.Carries r Marker.around

namespace ClassModel

variable {c : ClassModel} {r : Registry}

theorem not_staleAdvice_of_unresolved (h : c.capabilities.isResolved = false) (r : Registry) :
    ¬c.StaleAdvice r := by
  intro hstale
  rw [hstale.cached] at h
  cases h

theorem not_staleAdvice_of_coherent (h : c.capabilities.Coherent r) : ¬c.StaleAdvice r :=
  fun hstale => hstale.uncarried (h.hasStereotype_iff.1 hstale.held)

theorem not_staleAdvice_build (s : Setting) (c : ClassModel) :
    ¬(build s c).model.StaleAdvice s.registry := by
  have hmarked := ClassModel.Marked.left s c
  have hown : (build s c).model.capabilities ∈ (build s c).model.capabilitySets :=
    List.mem_cons_self
  exact not_staleAdvice_of_coherent (coherent_of_resolve_eq hmarked.resolve_eq _ hown).2

/-- Nothing else has a class proxied as a whole that carries no advice. -/
theorem carries_around_of_detect (hmode : Mode.detect c r = .alwaysProxy) (h : ¬c.StaleAdvice r) :
    c.capabilities.Carries r Marker.around := by
  cases hresolved : c.capabilities.isResolved with
  | false =>
      rw [Mode.detect_of_isResolved_eq_false hresolved] at hmode
      exact (Mode.calledFor_eq_alwaysProxy.1 hmode).2
  | true =>
      by_contra hnot
      have hheld : c.capabilities.hasStereotype Marker.around = false :=
        Bool.eq_false_iff.2 fun hheld => h ⟨hresolved, hheld, hnot⟩
      -- Without advice in the cache, the mode is one of the other two.
      simp only [Mode.detect, hresolved, hheld, if_true, Bool.false_and, Bool.false_eq_true,
        if_false] at hmode
      split at hmode <;> cases hmode

end ClassModel

/-! ## Builds -/

/-- The methods that are intercepted, with the names of what intercepts them. -/
def PlanSet.aroundMethods (set : PlanSet) : List InterceptedMethod :=
  (set.proxy.map (·.aroundMethods)).getD []

/-- The mode of a build is one under which advice comes from markers: not that of a proxy for the whole class,
unless it is detected for the class and not from a stale cache. -/
def Setting.FollowsMarkers (s : Setting) (c : ClassModel) : Prop :=
  s.strategy.mode ≠ .alwaysProxy ∨
    s.strategy.mode = Mode.detect c s.registry ∧ ¬c.StaleAdvice s.registry

/-- What has a method intercepted is a marker of the method or of its class. -/
theorem carries_of_intercepts {s : Setting} {c : ClassModel} {m : MethodModel}
    (hs : s.FollowsMarkers c) (hm : m.Intercepts s.strategy s.registry c) :
    m.capabilities.Carries s.registry Marker.around ∨
      c.capabilities.Carries s.registry Marker.around := by
  rcases hm.advised with ⟨hproxies, _⟩ | ⟨_, hcarries⟩ | ⟨⟨a, ha, hcarries⟩, _⟩
  · have hmode : s.strategy.mode = .alwaysProxy := by simpa [Strategy.alwaysProxies] using hproxies
    rcases hs with hne | ⟨hdetect, hstale⟩
    · exact absurd hmode hne
    · exact Or.inr (ClassModel.carries_around_of_detect (hdetect.symm.trans hmode) hstale)
  · exact Or.inl hcarries
  · exact Or.inl ⟨a, List.mem_append_left _ ha, hcarries⟩

/-- An entry is that of a method, with the names of its advice. -/
structure ClassModel.NamesAdvice (c : ClassModel) (r : Registry) (m : MethodModel)
    (a : InterceptedMethod) : Prop where
  method : a.method = .of m false
  names : AdviceNames r (m.validated r).capabilities c.capabilities a.bindings

section Courses

variable {s : Setting} {c : ClassModel} {rs : List (PropertyModel × Disposition)}
  {es : List (Candidate × Disposition)} {p q : Pass}

theorem interceptorBindings_seen (r : Registry) (c : ClassModel) (m : MethodModel) :
    interceptorBindings r c ((m.resolve r).deriveValidated r) =
      interceptorBindings r c (m.validated r) := by
  rw [deriveValidated_resolve]
  rfl

theorem Course.aroundMethods_eq (hw : s.weaver.Plain)
    (h : Course s c rs (es.map fun e => (e.1.seen s.registry, e.2)) p q) :
    q.planSet.aroundMethods = (methodsWith (· = .intercepted) es).map fun m =>
      ⟨.of m false, interceptorBindings s.registry c (m.validated s.registry)⟩ := by
  have hproxy : q.planSet.aroundMethods = q.proxyEntries.aroundMethods := by
    simp only [PlanSet.aroundMethods, Pass.planSet, Pass.proxyEntries]
    cases q.proxy <;> rfl
  have hlists := congrArg Entries.lists (h.proxy_entries hw)
  rw [List.map_map] at hlists
  have haround := congrArg Entries.aroundMethods (hlists.trans (Candidate.total_advice c s.registry es))
  simp only [interceptorBindings_seen] at haround
  exact hproxy.trans haround

theorem Course.intercepts (h : Course s c rs (es.map fun e => (e.1.seen s.registry, e.2)) p q)
    {m : MethodModel} (hm : m ∈ methodsWith (· = .intercepted) es) :
    (m.validated s.registry).Intercepts s.strategy s.registry c := by
  obtain ⟨d, he, hd⟩ := mem_methodsWith.1 hm
  obtain ⟨j, hj, hbecomes⟩ := h.decided
    (m := (m.resolve s.registry).deriveValidated s.registry) (List.mem_map_of_mem he)
  rw [deriveValidated_resolve] at hj
  exact (interception_iff hj).1 (hbecomes.eq_intercepted_iff.1 (by simpa using hd))

theorem Course.namesAdvice (hw : s.weaver.Plain)
    (h : Course s c rs (es.map fun e => (e.1.seen s.registry, e.2)) p q) :
    List.Forall₂ (c.NamesAdvice s.registry) (methodsWith (· = .intercepted) es)
      q.planSet.aroundMethods := by
  rw [h.aroundMethods_eq hw]
  refine List.forall₂_map_right_iff.2 (List.forall₂_same.2 fun m _ => ⟨rfl, ?_⟩)
  exact adviceNames_interceptorBindings s.registry c (m.validated s.registry)

theorem Course.bindings_ne_nil (hw : s.weaver.Plain) (hs : s.FollowsMarkers c)
    (h : Course s c rs (es.map fun e => (e.1.seen s.registry, e.2)) p q) :
    ∀ a ∈ q.planSet.aroundMethods, a.bindings ≠ [] := by
  intro a ha
  rw [h.aroundMethods_eq hw] at ha
  obtain ⟨m, hm, rfl⟩ := List.mem_map.1 ha
  have hnames := adviceNames_interceptorBindings s.registry c (m.validated s.registry)
  exact hnames.ne_nil (carries_of_intercepts hs (h.intercepts hm))

theorem names_of_build {set : PlanSet} (hw : s.weaver = .standard) (h : (build s c).result = .ok set) :
    ∃ rs es, set.Tells s.strategy c rs es ∧
      List.Forall₂ (c.NamesAdvice s.registry) (methodsWith (· = .intercepted) es) set.aroundMethods ∧
      (s.FollowsMarkers c → ∀ a ∈ set.aroundMethods, a.bindings ≠ []) := by
  obtain ⟨rs, es, p, q, hcourse, rfl⟩ := build_ok h
  obtain ⟨xs, ys, htells, rfl, rfl⟩ := hcourse.tells
  have hplain : s.weaver.Plain := hw ▸ Weaver.standard_plain
  exact ⟨xs, ys, htells, hcourse.namesAdvice hplain, fun hs => hcourse.bindings_ne_nil hplain hs⟩

end Courses

/-! ## Runs -/

section Runs

variable {s : Settings} {l : Ledger} {set : PlanSet}

/-- What a run plans are the plan sets of some of its classes, in order. -/
theorem Settings.exists_planSets (s : Settings) (l : Ledger) (xs : List Subject) :
    ∃ ys : List Subject, ys.Sublist xs ∧
      (xs.foldl s.enter l).planSets = l.planSets ++ ys.filterMap s.planSet? := by
  induction xs generalizing l with
  | nil => exact ⟨[], .slnil, (List.append_nil _).symm⟩
  | cons x xs ih =>
      cases hl : l.halted with
      | true =>
          refine ⟨[], List.nil_sublist _, ?_⟩
          rw [(s.foldl_enter_halted hl (x :: xs)).2, List.filterMap_nil, List.append_nil]
      | false =>
          obtain ⟨ys, hys, hsets⟩ := ih (s.enter l x)
          refine ⟨x :: ys, hys.cons_cons x, ?_⟩
          rw [List.foldl_cons, hsets, (s.enter_running hl x).2.1, List.append_assoc]
          cases hx : s.planSet? x <;> simp [hx]

theorem Settings.mem_planSets {xs : List Subject} (h : set ∈ (xs.foldl s.enter l).planSets) :
    set ∈ l.planSets ∨ ∃ x ∈ xs, s.planSet? x = some set := by
  obtain ⟨ys, hys, hsets⟩ := s.exists_planSets l xs
  rw [hsets] at h
  refine (List.mem_append.1 h).imp_right fun hset => ?_
  obtain ⟨x, hx, hplan⟩ := List.mem_filterMap.1 hset
  exact ⟨x, hys.subset hx, hplan⟩

theorem Settings.planSet?_eq_some {x : Subject} :
    s.planSet? x = some set ↔ (build (s.setting x) x.model).result = .ok set := toOption_eq_some

theorem Settings.followsMarkers {x : Subject} (hs : s.mode = none)
    (hx : ¬x.model.StaleAdvice x.registry) : (s.setting x).FollowsMarkers x.model := by
  refine Or.inr ⟨?_, hx⟩
  simp only [setting, strategyFor, hs, Option.getD_none]
  cases Mode.detect x.model x.registry <;> rfl

end Runs

/-- In a build with the standard weaver, the entries of the proxy are those of the methods that are
intercepted, in their order. Each names the markers that carry advice, of the method once it is marked as
validated and then of the class, in the order in which each lists its own; it names one at least if the mode
follows the markers. That it does in a run without a mode of its own, unless a class comes with a cache that
holds advice which no marker carries, as none does that is read from text or left by a build under the same
registry. -/
theorem build_names_advice :
    (∀ (s : Setting) (c : ClassModel) (set : PlanSet), s.weaver = .standard →
      (build s c).result = .ok set → ∃ rs es, set.Tells s.strategy c rs es ∧
        List.Forall₂ (c.NamesAdvice s.registry) (methodsWith (· = .intercepted) es) set.aroundMethods ∧
        (s.FollowsMarkers c → ∀ a ∈ set.aroundMethods, a.bindings ≠ [])) ∧
    (∀ (s : Settings) (tool : ToolInfo) (time : RunInfo) (batches : List LoadedBatch), s.mode = none →
      (∀ b ∈ batches, ∀ x ∈ b.subjects s, ¬x.model.StaleAdvice x.registry) →
        ∀ set ∈ (s.run tool time batches).document.planSets, ∀ a ∈ set.aroundMethods,
          a.bindings ≠ []) ∧
    (∀ text b, ClassBatch.codec.readText text = .ok b → ∀ c ∈ b.classes, ∀ r, ¬c.StaleAdvice r) ∧
    ∀ (s : Setting) (c : ClassModel), ¬(build s c).model.StaleAdvice s.registry := by
  refine ⟨fun s c set hw h => names_of_build hw h, fun s tool time batches hs hstale set hset => ?_,
    fun text b hb c hc =>
      ClassModel.not_staleAdvice_of_unresolved (ClassBatch.readText_unresolved hb c hc),
    ClassModel.not_staleAdvice_build⟩
  have hset : set ∈ (s.ledger batches).planSets := hset
  rw [s.ledger_eq] at hset
  rcases s.mem_planSets hset with hnil | ⟨x, hx, hplan⟩
  · cases hnil
  · obtain ⟨b, hb, hx⟩ := List.mem_flatMap.1 hx
    obtain ⟨_, _, _, _, hnamed⟩ :=
      names_of_build (s := s.setting x) rfl (Settings.planSet?_eq_some.1 hplan)
    exact hnamed (s.followsMarkers hs (hstale b hb x hx))

theorem build_names_advice_of_two_layers :
    let defs : StereotypeDefinitions :=
      .ofList [("Audited", ["Around"]), ("Monitored", ["Around"]), ("Timed", ["Around"])]
    let save : MethodModel :=
      { name := "save", declaringType := "app.Store"
        capabilities := ((CapabilitySet.empty.withDeclared "Timed").withDeclared "Noted").withInherited
          "Monitored" }
    let c : ClassModel :=
      { name := "app.Store", methods := [save]
        capabilities := (CapabilitySet.empty.withDeclared "Monitored").withDeclared "Audited" }
    let b : LoadedBatch := ⟨"store.json", { stereotypes := defs, classes := [c] }⟩
    let s : Settings := {}
    ∃ set ∈ (s.run {} {} [b]).document.planSets,
      (∃ rs es, set.Tells (s.strategyFor (b.subject s c)) c rs es ∧
        List.Forall₂ (c.NamesAdvice (b.subject s c).registry) (methodsWith (· = .intercepted) es)
          set.aroundMethods) ∧
      set.aroundMethods.map (·.bindings) = [["Timed", "Monitored", "Audited"]] ∧
      ∀ a ∈ set.aroundMethods, a.bindings ≠ [] := by
  intro defs save c b s
  obtain ⟨hbuild, hrun, _, _⟩ := build_names_advice
  have hstale : ∀ b' ∈ [b], ∀ x ∈ b'.subjects s, ¬x.model.StaleAdvice x.registry := by
    intro b' hb x hx
    obtain rfl := List.mem_singleton.1 hb
    obtain rfl := List.mem_singleton.1 hx
    exact ClassModel.not_staleAdvice_of_unresolved rfl _
  have hplanned : (s.planSet? (b.subject s c)).map (·.aroundMethods.map (·.bindings)) =
      some [["Timed", "Monitored", "Audited"]] := by
    decide +kernel
  obtain ⟨set, hset, hbindings⟩ := Option.map_eq_some_iff.1 hplanned
  have hmem : set ∈ (s.run {} {} [b]).document.planSets := by
    have hsets : (s.run {} {} [b]).document.planSets = (s.planSet? (b.subject s c)).toList :=
      (s.run_alone {} {} "store.json" b c).2
    rw [hsets, hset]
    exact List.mem_singleton_self set
  obtain ⟨rs, es, htells, hnames, _⟩ := hbuild (s.setting (b.subject s c)) c set rfl
    (Settings.planSet?_eq_some.1 hset)
  exact ⟨set, hmem, ⟨rs, es, htells, hnames⟩, hbindings, hrun s {} {} [b] rfl hstale set hmem⟩

/-- The class was resolved while `Timed` carried advice, and is run when it does not any more: the mode is
detected from what is cached, and the names come from the registry. -/
theorem stale_advice_intercepts_unnamed :
    let save : MethodModel := { name := "save", declaringType := "app.Store" }
    let earlier := Registry.new (.ofList [("Timed", ["Around"])])
    let c : ClassModel :=
      { name := "app.Store", methods := [save]
        capabilities := (CapabilitySet.empty.withDeclared "Timed").resolve earlier }
    let b : LoadedBatch := ⟨"store.json", { classes := [c] }⟩
    let s : Settings := {}
    s.mode = none ∧ (b.subject s c).model.StaleAdvice (b.subject s c).registry ∧
      (s.strategyFor (b.subject s c)).mode = Mode.detect c (b.subject s c).registry ∧
      (s.run {} {} [b]).document.planSets.map (·.aroundMethods.map fun a => (a.method.name, a.bindings)) =
        [[("save", [])]] := by
  intro save earlier c b s
  have huncarried : ¬c.capabilities.Carries (b.subject s c).registry Marker.around := by
    rw [← CapabilitySet.any_markerNames]
    decide
  have hplanned : (s.planSet? (b.subject s c)).map
      (·.aroundMethods.map fun a => (a.method.name, a.bindings)) = some [("save", [])] := by
    decide +kernel
  obtain ⟨set, hset, hbindings⟩ := Option.map_eq_some_iff.1 hplanned
  have hsets : (s.run {} {} [b]).document.planSets = (s.planSet? (b.subject s c)).toList :=
    (s.run_alone {} {} "store.json" b c).2
  refine ⟨rfl, ⟨rfl, by decide +kernel, huncarried⟩, by decide +kernel, ?_⟩
  rw [hsets, hset, Option.toList_some, List.map_singleton, hbindings]

end Wiring
