import Wiring.Proofs.Weaving

/-!
# Origins

The origins of the plans of a class are the types from elsewhere that declare what is claimed: the main plan
names those of members that are not intercepted and those of what makes up claimed properties, the proxy
those of methods that are intercepted, and adapters name none (`build_origins`).
-/

namespace Wiring

open Entries

namespace Candidate

theorem mem_origin {c : ClassModel} {x : Candidate} {d : Disposition} {t : String} :
    t ∈ x.origin c d ↔ d.isClaimed = true ∧ t ≠ c.name ∧ x.member.declaringType = t := by
  unfold origin
  split
  · rename_i h
    obtain ⟨hd, hx⟩ : d.isClaimed = true ∧ x.member.declaringType ≠ c.name := by
      simpa [Member.isDeclaredOn] using h
    simp only [StringSet.mem_ofList, List.mem_singleton]
    constructor
    · rintro rfl
      exact ⟨hd, hx, rfl⟩
    · rintro ⟨_, _, rfl⟩
      rfl
  · rename_i h
    simp only [StringSet.not_mem_empty, false_iff]
    rintro ⟨hd, hx, rfl⟩
    exact h (by simpa [Member.isDeclaredOn, hd] using hx)

theorem declaringType_seen (r : Registry) (x : Candidate) :
    (x.seen r).member.declaringType = x.member.declaringType := by
  cases x with
  | field f => rfl
  | method m =>
      have hm (m : MethodModel) : m.member.declaringType = m.bare.member.declaringType := rfl
      rw [seen, member, member, hm, m.bare_derived, ← hm]

theorem origin_seen (r : Registry) (c : ClassModel) (x : Candidate) (d : Disposition) :
    (x.seen r).origin (c.resolve r) d = x.origin c d :=
  StringSet.ext_mem fun t => by simp only [mem_origin, declaringType_seen]; rfl

theorem mem_mainEntries {r : Registry} {c : ClassModel} {s : Strategy} {x : Candidate}
    {d : Disposition} {t : String} :
    t ∈ ((x.seen r).mainEntries s (c.resolve r) d).originatingElements ↔
      t ≠ c.name ∧ d.isClaimed = true ∧ d ≠ .intercepted ∧ x.member.declaringType = t := by
  have horigins : ((x.seen r).mainEntries s (c.resolve r) d).originatingElements =
      if d = .intercepted then .empty else (x.seen r).origin (c.resolve r) d := rfl
  rw [horigins, origin_seen]
  by_cases hd : d = .intercepted
  · simp [hd, StringSet.not_mem_empty]
  · simp [hd, mem_origin]
    tauto

theorem mem_proxyEntries {r : Registry} {c : ClassModel} {x : Candidate} {d : Disposition}
    {t : String} (hx : ∀ f, x = .field f → d ≠ .intercepted) :
    t ∈ ((x.seen r).proxyEntries r (c.resolve r) d).originatingElements ↔
      t ≠ c.name ∧ d = .intercepted ∧ x.member.declaringType = t := by
  by_cases hd : d = .intercepted
  · subst hd
    cases x with
    | field f => exact absurd rfl (hx f rfl)
    | method m =>
        have horigins : ((Candidate.method m).seen r).proxyEntries r (c.resolve r) .intercepted =
            { aroundMethods := [⟨.of ((m.resolve r).deriveValidated r) false,
                interceptorBindings r (c.resolve r) ((m.resolve r).deriveValidated r)⟩]
              originatingElements :=
                ((Candidate.method m).seen r).origin (c.resolve r) .intercepted } := rfl
        rw [horigins, origin_seen, mem_origin]
        simp [Disposition.isClaimed]
  · have hnone : (x.seen r).proxyEntries r (c.resolve r) d = {} := by
      cases x <;> cases d <;> first | rfl | exact absurd rfl hd
    simp [hnone, hd, StringSet.not_mem_empty]

end Candidate

namespace Pass

theorem mem_originsIn {c : ClassModel} {rs : List (PropertyModel × Disposition)} {t : String} :
    t ∈ originsIn c rs ↔
      t ≠ c.name ∧ ∃ x, (x, .property) ∈ rs ∧ ∃ member ∈ c.constituents x, member.declaringType = t := by
  simp only [originsIn, originsOf_eq, List.mem_flatMap, List.mem_filter, List.mem_map,
    decide_eq_true_eq, bne_iff_ne]
  constructor
  · rintro ⟨⟨x, _⟩, ⟨he, rfl⟩, hmember, ht⟩
    exact ⟨ht, x, he, hmember⟩
  · rintro ⟨ht, x, he, hmember⟩
    exact ⟨(x, .property), ⟨he, rfl⟩, hmember, ht⟩

theorem originsIn_resolve (c : ClassModel) (r : Registry) (xs : List (PropertyModel × Disposition)) :
    originsIn (c.resolve r) (xs.map fun e => (e.1.resolve r, e.2)) = originsIn c xs := by
  have hx (x : PropertyModel) : originsOf (c.resolve r) (x.resolve r) = originsOf c x := by
    rw [← originsOf_bare, c.bare_resolve]
    exact originsOf_bare c x
  simp [originsIn, List.filter_map, List.flatMap_map, Function.comp_def, hx]

end Pass

/-- The origins of the plans are told by what became of each property and of each candidate. -/
structure PlanSet.Traces (set : PlanSet) (s : Setting) (c : ClassModel)
    (rs : List (PropertyModel × Disposition)) (es : List (Candidate × Disposition)) : Prop
    extends set.Tells s.strategy c rs es where
  main : ∀ t, t ∈ set.main.originatingElements ↔ t ≠ c.name ∧
    ((∃ x d, (x, d) ∈ es ∧ d.isClaimed = true ∧ d ≠ .intercepted ∧ x.member.declaringType = t) ∨
      ∃ x, (x, .property) ∈ rs ∧ ∃ member ∈ c.constituents x, member.declaringType = t)
  proxy : ∀ proxy ∈ set.proxy, ∀ t, t ∈ proxy.originatingElements ↔
    t ≠ c.name ∧ ∃ x, (x, .intercepted) ∈ es ∧ x.member.declaringType = t
  adapters : ∀ a ∈ set.adapters, a.originatingElements = .empty

variable {s : Setting} {c : ClassModel} {rs : List (PropertyModel × Disposition)}
  {es : List (Candidate × Disposition)} {p q : Pass}

theorem Course.traces (hh : s.strategy.handler.Plain) (hw : s.weaver.Plain)
    (h : Course s c rs es p q) : ∃ xs ys, q.planSet.Traces s c xs ys := by
  obtain ⟨vs, _, hmain⟩ := h.main_entries hh
  have hproxy := h.proxy_entries hw
  have hadapters := h.adapter_entries hw
  obtain ⟨xs, ys, htells, rfl, rfl⟩ := h.tells
  rw [Pass.originsIn_resolve, List.map_map] at hmain
  rw [List.map_map] at hproxy
  -- Only methods enter the proxy, so no field may count as intercepted.
  have hmethod {x : Candidate} {d : Disposition} (he : (x, d) ∈ ys) (f : FieldModel)
      (hf : x = .field f) : d ≠ .intercepted := by
    subst hf
    rw [h.runs.judged_seen he]
    exact judgeField_ne_intercepted _
  refine ⟨xs, ys, ⟨htells, fun t => ?_, fun proxy hp t => ?_, fun a ha => ?_⟩⟩
  · have horigins := congrArg Entries.originatingElements hmain
    have hq : q.planSet.main.originatingElements =
        (StringSet.ofList (Pass.originsIn c xs)).union (total (ys.map fun e =>
          (e.1.seen s.registry).mainEntries s.strategy (c.resolve s.registry)
            e.2)).originatingElements := horigins
    rw [hq, StringSet.mem_union, StringSet.mem_ofList, Pass.mem_originsIn, mem_total_origins, or_comm,
      and_or_left]
    refine or_congr_left ⟨?_, ?_⟩
    · rintro ⟨_, hmap, hentry⟩
      obtain ⟨⟨x, d⟩, he, rfl⟩ := List.mem_map.1 hmap
      obtain ⟨ht, hx⟩ := Candidate.mem_mainEntries.1 hentry
      exact ⟨ht, x, d, he, hx⟩
    · rintro ⟨ht, x, d, he, hx⟩
      exact ⟨_, List.mem_map.2 ⟨(x, d), he, rfl⟩, Candidate.mem_mainEntries.2 ⟨ht, hx⟩⟩
  · have hentries : q.proxyEntries = proxy.entries := by
      have hp' : q.proxy = some proxy := hp
      rw [Pass.proxyEntries, hp']
      rfl
    have horigins := congrArg Entries.originatingElements (hentries.symm.trans hproxy)
    have hq : proxy.originatingElements = _ := horigins
    rw [hq, mem_total_origins]
    constructor
    · rintro ⟨_, hmap, hentry⟩
      obtain ⟨⟨x, d⟩, he, rfl⟩ := List.mem_map.1 hmap
      obtain ⟨ht, hd, hx⟩ := (Candidate.mem_proxyEntries (hmethod he)).1 hentry
      exact ⟨ht, x, hd ▸ he, hx⟩
    · rintro ⟨ht, x, he, hx⟩
      exact ⟨_, List.mem_map.2 ⟨(x, .intercepted), he, rfl⟩,
        (Candidate.mem_proxyEntries (hmethod he)).2 ⟨ht, rfl, hx⟩⟩
  · exact congrArg Entries.originatingElements (hadapters a ha)

/-- No plan names its own class as an origin. -/
theorem PlanSet.Traces.not_mem {set : PlanSet} (h : set.Traces s c rs es) :
    ∀ plan ∈ set.plans, c.name ∉ plan.originatingElements := by
  intro plan hplan hc
  rcases PlanSet.mem_plans.1 hplan with rfl | hproxy | hadapter
  · exact ((h.main _).1 hc).1 rfl
  · exact ((h.proxy plan hproxy _).1 hc).1 rfl
  · rw [h.adapters plan hadapter] at hc
    exact StringSet.not_mem_empty hc

/-- The origins of the plans are exact. The main plan has the foreign declaring types of the members that
are claimed and not intercepted, declined adapters included, and those of what makes up the claimed
properties; the proxy has the foreign declaring types of the members that are intercepted; adapters have
none. -/
theorem build_origins {set : PlanSet}
    (hh : s.strategy.handler = .noop ∨ s.strategy.handler = .configuration)
    (hw : s.weaver = .standard) (h : (build s c).result = .ok set) :
    ∃ rs es, set.Traces s c rs es ∧ ∀ plan ∈ set.plans, c.name ∉ plan.originatingElements := by
  obtain ⟨rs, es, p, q, hcourse, rfl⟩ := build_ok h
  obtain ⟨xs, ys, htraces⟩ :=
    hcourse.traces (PropertyHandler.plain_of_either hh) (hw ▸ Weaver.standard_plain)
  exact ⟨xs, ys, htraces, htraces.not_mem⟩

theorem build_origins_of_declined_adapter :
    let c : ClassModel :=
      { name := "app.Service"
        methods := [{ name := "task", declaringType := "app.Base"
                      capabilities := CapabilitySet.empty.withDeclared Marker.adapter }] }
    ∃ set, (build {} c).result = .ok set ∧
      set.dispositions.map (·.disposition) = [.adapterDeclined] ∧
      set.main.originatingElements = .ofList ["app.Base"] ∧
      ∃ rs es, set.Traces {} c rs es := by
  intro c
  have hset : ∃ set, (build {} c).result = .ok set ∧
      set.dispositions.map (·.disposition) = [.adapterDeclined] ∧
      set.main.originatingElements = .ofList ["app.Base"] := ⟨_, rfl, rfl, rfl⟩
  obtain ⟨set, h, hd, horigins⟩ := hset
  obtain ⟨rs, es, htraces, _⟩ := build_origins (Or.inl rfl) rfl h
  exact ⟨set, h, hd, horigins, rs, es, htraces⟩

end Wiring
