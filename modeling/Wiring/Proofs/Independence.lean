import Mathlib.Data.List.Forall2
import Wiring.Proofs.Accounts

/-!
# Independence

Without properties, what becomes of a member does not depend on the other members of its class: a build
is put together from the builds of the class with one member each (`build_independent`). Only the numbers
of adapters run on.
-/

namespace Wiring

open Entries

/-! ## Numbers of adapters -/

namespace Disposition

def isAdapter : Disposition → Bool
  | .adapter _ => true
  | _ => false

def numbered (n : Nat) : Disposition → Disposition
  | .adapter _ => .adapter n
  | d => d

@[simp] theorem isAdapter_numbered (n : Nat) (d : Disposition) :
    (d.numbered n).isAdapter = d.isAdapter := by
  cases d <;> rfl

end Disposition

/-- Dispositions with their adapters numbered in order. -/
def renumber : Nat → List MemberDisposition → List MemberDisposition
  | _, [] => []
  | n, e :: es =>
    { e with disposition := e.disposition.numbered n } ::
      renumber (if e.disposition.isAdapter then n + 1 else n) es

namespace Candidate

variable (s : Setting) (c : ClassModel)

/-- What becomes of a candidate that is the first to be gone over. -/
def disposition : Candidate → Disposition
  | .field f => judgeField f
  | .method m =>
    match judgeMethod s.strategy c m with
    | .error _ => .unclaimed
    | .ok j =>
      match j.verdict with
      | .unclaimed => .unclaimed
      | .lifecycle post pre => .lifecycle post pre
      | .injection => .methodInjection
      | .adaptation =>
        if (s.weaver.adapterPlan c m 0).isSome then .adapter 0 else .adapterDeclined
      | .interception => .intercepted
      | .exposure => .executable

theorem disposition_members (hw : s.weaver = .standard) (x : Candidate) (fs : List FieldModel)
    (ms : List MethodModel) :
    x.disposition s { c with fields := fs, methods := ms } = x.disposition s c := by
  cases x with
  | field f => rfl
  | method m =>
      simp only [disposition, hw]
      rfl

theorem numbered_disposition (x : Candidate) :
    (x.disposition s c).numbered 0 = x.disposition s c := by
  cases x with
  | field f =>
      rcases judgeField_cases f with hj | hj | hj <;> simp [disposition, hj, Disposition.numbered]
  | method m =>
      simp only [disposition]
      split
      · rfl
      · split
        case h_4 => split <;> rfl
        all_goals rfl

theorem mainEntries_numbered (x : Candidate) (d : Disposition) (n : Nat) :
    x.mainEntries s.strategy c (d.numbered n) = x.mainEntries s.strategy c d := by
  cases x <;> cases d <;> rfl

theorem proxyEntries_numbered (r : Registry) (x : Candidate) (d : Disposition) (n : Nat) :
    x.proxyEntries r c (d.numbered n) = x.proxyEntries r c d := by
  cases x <;> cases d <;> rfl

end Candidate

theorem Weaver.isSome_adapterPlan (c : ClassModel) (m : MethodModel) (n : Nat) :
    (standard.adapterPlan c m n).isSome = (standard.adapterPlan c m 0).isSome := by
  simp only [standard]
  split
  · rfl
  · split <;> simp

namespace Pass

variable {s : Setting} {p q : Pass} {x : Candidate} {d : Disposition}
  {es : List (Candidate × Disposition)}

/-- What becomes of a candidate depends on what went before by the number of its adapter only. -/
theorem Enters.disposition_eq (hw : s.weaver = .standard) (h : Enters s p x d q) :
    d = (x.disposition s p.model).numbered p.adapters.length ∧
      q.adapters.length = if d.isAdapter then p.adapters.length + 1 else p.adapters.length := by
  cases h with
  | field f =>
      rcases judgeField_cases f with hj | hj | hj <;>
        simp [Candidate.disposition, hj, Disposition.numbered, Disposition.isAdapter, visitField]
  | @method m j q d hj hr =>
      have hsome : (s.weaver.adapterPlan p.model m 0).isSome =
          (s.weaver.adapterPlan p.model m p.adapters.length).isSome := by
        rw [hw, Weaver.isSome_adapterPlan p.model m p.adapters.length]
      generalize hv : j.verdict = v at hr
      simp only [adapters_record, Candidate.disposition, hj, hv]
      cases hr with
      | adapted hplan =>
          rw [adapters_flagged, model_flagged] at hplan
          simp [hsome, hplan, Disposition.numbered, Disposition.isAdapter]
      | declined hplan =>
          rw [adapters_flagged, model_flagged] at hplan
          simp [hsome, hplan, Disposition.numbered, Disposition.isAdapter]
      | _ => simp [Disposition.numbered, Disposition.isAdapter]

/-- Along a run only the numbers of adapters run on. -/
theorem Runs.dispositions_renumber (hw : s.weaver = .standard) (h : Runs s p es q) :
    es.map (fun e => ⟨e.1.kind, e.1.member.description, e.2⟩) =
        renumber p.adapters.length (es.map fun e =>
          ⟨e.1.kind, e.1.member.description, e.1.disposition s p.model⟩) ∧
      ∀ e ∈ es, ∃ n, e.2 = (e.1.disposition s p.model).numbered n := by
  -- By induction on the run: the next number is the count of the adapters so far.
  induction h with
  | nil p => exact ⟨rfl, by simp⟩
  | @cons p q p' l x d es hx hes ih =>
      obtain ⟨hd, hq⟩ := hx.disposition_eq hw
      have hms (x : Candidate) : x.disposition s (p.model.derive s.registry l) =
          x.disposition s p.model := x.disposition_members s p.model hw p.model.fields _
      simp only [hms] at hd
      simp only [hx.model_eq, hms, hq, hd, Disposition.isAdapter_numbered] at ih
      refine ⟨?_, ?_⟩
      · rw [List.map_cons, List.map_cons, renumber, ih.1, hd]
      · intro e he
        rcases List.mem_cons.1 he with rfl | he
        · exact ⟨_, hd⟩
        · exact ih.2 e he

end Pass

/-! ## Builds without properties -/

/-- What has been entered on the proxy of a plan set, nothing if there is none. -/
def PlanSet.proxyEntries (set : PlanSet) : Entries := (set.proxy.map Plan.entries).getD {}

/-- What a plan set of one candidate comes to. -/
structure Imprint where
  disposition : MemberDisposition
  main : Entries
  proxy : Entries

def Candidate.imprint (s : Setting) (c : ClassModel) (x : Candidate) : Imprint :=
  let y := x.seen s.registry
  let d := y.disposition s (c.resolve s.registry)
  ⟨⟨x.kind, x.member.description, d⟩, y.mainEntries s.strategy (c.resolve s.registry) d,
    y.proxyEntries s.registry (c.resolve s.registry) d⟩

/-- A plan set is put together from what single candidates come to. -/
structure PlanSet.Comprises (set : PlanSet) (l : List Imprint) : Prop where
  dispositions : set.dispositions = renumber 0 (l.map (·.disposition))
  main : set.main.entries = total (l.map (·.main))
  proxy : set.proxyEntries = total (l.map (·.proxy))

variable {s : Setting} {c : ClassModel}

theorem comprises_of_build (hm : s.strategy.readsProperties = false) (hw : s.weaver = .standard)
    {set : PlanSet} (h : (build s c).result = .ok set) :
    set.Comprises ((c.candidates s.strategy).map (Candidate.imprint s c)) := by
  obtain ⟨rs, es, p, q, hcourse, rfl⟩ := build_ok h
  have hplain : s.weaver.Plain := hw ▸ Weaver.standard_plain
  obtain rfl := hcourse.eq_opened hm
  obtain ⟨xs, ys, htells, _, rfl⟩ := hcourse.tells
  obtain ⟨hdispositions, hnumbered⟩ := hcourse.runs.dispositions_renumber hw
  have hmain := hcourse.runs.main_entries
  have hproxy := hcourse.runs.proxy_entries hplain
  have hxs : xs = [] := by
    have hxs := htells.properties
    rw [hm] at hxs
    exact List.map_eq_nil_iff.1 hxs
  have hy : ∀ e ∈ ys, ∃ n, e.2 =
      ((e.1.seen s.registry).disposition s (c.resolve s.registry)).numbered n := by
    intro e he
    have hn := hnumbered _ (List.mem_map_of_mem he)
    rwa [Pass.model_opened] at hn
  rw [← htells.candidates, List.map_map]
  rw [Pass.main_entries_opened, empty_append, Pass.model_opened, List.map_map] at hmain
  rw [Pass.proxy_entries_opened hplain, empty_append, Pass.model_opened, List.map_map] at hproxy
  rw [Pass.adapters_opened, Pass.model_opened] at hdispositions
  refine ⟨?_, ?_, ?_⟩
  · rw [htells.dispositions, hxs, List.map_map]
    simpa [Function.comp_def, Candidate.imprint] using hdispositions
  · refine hmain.trans (congrArg total ?_)
    rw [List.map_map]
    refine List.map_congr_left fun e he => ?_
    obtain ⟨n, hn⟩ := hy e he
    simp only [Function.comp_apply, Candidate.imprint, hn, Candidate.mainEntries_numbered]
  · refine hproxy.trans (congrArg total ?_)
    rw [List.map_map]
    refine List.map_congr_left fun e he => ?_
    obtain ⟨n, hn⟩ := hy e he
    simp only [Function.comp_apply, Candidate.imprint, hn, Candidate.proxyEntries_numbered]

/-! ## Builds of one member -/

/-- The class with a candidate as its only member. -/
def ClassModel.solo (c : ClassModel) : Candidate → ClassModel
  | .field f => { c with fields := [f], methods := [] }
  | .method m => { c with fields := [], methods := [m] }

theorem candidates_solo {t : Strategy} (hm : t.readsProperties = false) (x : Candidate) :
    (c.solo x).candidates t = [x] := by
  cases x with
  | field f =>
      cases hd : f.member.isDeclaredOn (c.solo (.field f)) <;>
        simp_all [ClassModel.candidates, ClassModel.enumeratedFields, ClassModel.enumeratedMethods,
          ClassModel.solo]
  | method m =>
      cases hd : m.member.isDeclaredOn (c.solo (.method m)) <;>
        simp_all [ClassModel.candidates, ClassModel.enumeratedFields, ClassModel.enumeratedMethods,
          ClassModel.solo]

theorem imprint_members (hw : s.weaver = .standard) (x : Candidate) (fs : List FieldModel)
    (ms : List MethodModel) :
    x.imprint s { c with fields := fs, methods := ms } = x.imprint s c := by
  have hd := (x.seen s.registry).disposition_members s (c.resolve s.registry) hw
    (fs.map (·.resolve s.registry)) (ms.map (·.resolve s.registry))
  have hc : ({ c with fields := fs, methods := ms } : ClassModel).resolve s.registry =
      { c.resolve s.registry with
        fields := fs.map (·.resolve s.registry)
        methods := ms.map (·.resolve s.registry) } := rfl
  simp only [Candidate.imprint, hc, hd]
  rfl

theorem comprises_solo (hm : s.strategy.readsProperties = false) (hw : s.weaver = .standard)
    {x : Candidate} {set : PlanSet} (h : (build s (c.solo x)).result = .ok set) :
    set.dispositions = [(x.imprint s c).disposition] ∧ set.main.entries = (x.imprint s c).main ∧
      set.proxyEntries = (x.imprint s c).proxy := by
  have hx : x.imprint s (c.solo x) = x.imprint s c := by
    cases x <;> exact imprint_members hw _ _ _
  obtain ⟨hd, hmain, hproxy⟩ := comprises_of_build hm hw h
  rw [candidates_solo hm, List.map_singleton, List.map_singleton, hx] at hd hmain hproxy
  have hone (e : Entries) : total [e] = e := append_empty e
  refine ⟨?_, hmain.trans (hone _), hproxy.trans (hone _)⟩
  rw [hd]
  simp only [renumber, Candidate.imprint, Candidate.numbered_disposition]

theorem exists_forall₂ {α β : Type} {P : α → β → Prop} {xs : List α} (h : ∀ x ∈ xs, ∃ t, P x t) :
    ∃ ts, List.Forall₂ P xs ts := by
  induction xs with
  | nil => exact ⟨[], .nil⟩
  | cons x xs ih =>
      obtain ⟨t, ht⟩ := h x List.mem_cons_self
      obtain ⟨ts, hts⟩ := ih fun y hy => h y (List.mem_cons_of_mem x hy)
      exact ⟨t :: ts, .cons ht hts⟩

theorem forall₂_map_eq {α β γ : Type} {P : α → β → Prop} {f : α → γ} {g : β → γ} {xs : List α}
    {ts : List β} (h : List.Forall₂ P xs ts) (hP : ∀ x t, P x t → g t = f x) :
    ts.map g = xs.map f := by
  induction h with
  | nil => rfl
  | cons hx _ ih => rw [List.map_cons, List.map_cons, hP _ _ hx, ih]

/-! ## The whole and its members -/

theorem build_solo_eq_error (hm : s.strategy.readsProperties = false) {x : Candidate}
    {v : Violation} :
    (build s (c.solo x)).result = .error v ↔
      (s.strategy.alwaysProxies = true ∧ c.isFinal = true ∧ v = ⟨.finalClassProxy, c.name⟩) ∨
        (¬(s.strategy.alwaysProxies = true ∧ c.isFinal = true) ∧
          (x.seen s.registry).violation? s.strategy (c.resolve s.registry) = some v) := by
  have ht : s.strategy.readsProperties = true → s.strategy.handler.Total := by simp [hm]
  have hfirst : firstViolation? s (c.solo x) =
      (x.seen s.registry).violation? s.strategy (c.resolve s.registry) := by
    rw [firstViolation?, candidates_solo hm, List.map_singleton, List.findSome?_singleton]
    cases x <;> rfl
  rw [build_eq_error ht, hfirst]
  cases x <;> rfl

theorem exists_ok_iff {x : Except Violation PlanSet} :
    (∃ set, x = .ok set) ↔ ∀ v, x ≠ .error v := by
  cases x <;> simp

theorem build_eq_error_iff_solo (hm : s.strategy.readsProperties = false) {v : Violation} :
    (build s c).result = .error v ↔
      (s.strategy.alwaysProxies = true ∧ c.isFinal = true ∧ v = ⟨.finalClassProxy, c.name⟩) ∨
        ∃ pre x post, c.candidates s.strategy = pre ++ x :: post ∧
          (build s (c.solo x)).result = .error v ∧
          ∀ y ∈ pre, ∃ set, (build s (c.solo y)).result = .ok set := by
  have ht : s.strategy.readsProperties = true → s.strategy.handler.Total := by simp [hm]
  rw [build_eq_error ht]
  by_cases hf : s.strategy.alwaysProxies = true ∧ c.isFinal = true
  · -- Every candidate then fails on its own too, and for the same reason.
    simp only [hf.1, hf.2, true_and, not_true_eq_false, false_and, or_false, build_solo_eq_error hm,
      iff_self_or]
    rintro ⟨_, _, _, _, hv, _⟩
    exact hv
  · have hn (w : Violation) : ¬(s.strategy.alwaysProxies = true ∧ c.isFinal = true ∧
        w = ⟨.finalClassProxy, c.name⟩) := fun h => hf ⟨h.1, h.2.1⟩
    simp only [hn, hf, not_false_eq_true, true_and, false_or, build_solo_eq_error hm, exists_ok_iff,
      ne_eq, ← Option.eq_none_iff_forall_ne_some]
    rw [firstViolation?, List.findSome?_map, List.findSome?_eq_some_iff]
    rfl

theorem build_solo_ok (hm : s.strategy.readsProperties = false) {set : PlanSet}
    (h : (build s c).result = .ok set) :
    ∀ x ∈ c.candidates s.strategy, ∃ t, (build s (c.solo x)).result = .ok t := by
  obtain ⟨rs, es, p, q, hcourse, _⟩ := build_ok h
  have hnone := hcourse.firstViolation?_eq_none
  rw [firstViolation?, List.findSome?_map, List.findSome?_eq_none_iff] at hnone
  intro x hx
  rw [exists_ok_iff]
  intro v hv
  rcases (build_solo_eq_error hm).1 hv with ⟨ha, hf, _⟩ | ⟨_, hv⟩
  · exact absurd (hf.symm.trans (hcourse.notFinal ha)) (by decide)
  · exact absurd (hv.symm.trans (hnone x hx)) (by simp)

/-- A build is put together from the builds of the class with one member each. -/
theorem build_eq_ok_of_solo (hm : s.strategy.readsProperties = false) (hw : s.weaver = .standard)
    {set : PlanSet} (h : (build s c).result = .ok set) :
    ∃ sets, List.Forall₂ (fun x t => (build s (c.solo x)).result = .ok t)
        (c.candidates s.strategy) sets ∧
      set.dispositions = renumber 0 (sets.flatMap (·.dispositions)) ∧
      set.main.entries = total (sets.map (·.main.entries)) ∧
      set.proxyEntries = total (sets.map (·.proxyEntries)) := by
  obtain ⟨sets, hsets⟩ := exists_forall₂ (build_solo_ok hm h)
  have hdispositions : sets.map (·.dispositions) =
      (c.candidates s.strategy).map fun x => [(x.imprint s c).disposition] :=
    forall₂_map_eq hsets fun _ _ ht => (comprises_solo hm hw ht).1
  have hmain : sets.map (·.main.entries) =
      (c.candidates s.strategy).map fun x => (x.imprint s c).main :=
    forall₂_map_eq hsets fun _ _ ht => (comprises_solo hm hw ht).2.1
  have hproxy : sets.map (·.proxyEntries) =
      (c.candidates s.strategy).map fun x => (x.imprint s c).proxy :=
    forall₂_map_eq hsets fun _ _ ht => (comprises_solo hm hw ht).2.2
  have hset := comprises_of_build hm hw h
  refine ⟨sets, hsets, ?_, ?_, ?_⟩
  · rw [hset.dispositions, List.flatMap_def, hdispositions, ← List.flatMap_def, ← List.map_eq_flatMap,
      List.map_map]
    rfl
  · rw [hset.main, hmain, List.map_map]
    rfl
  · rw [hset.proxy, hproxy, List.map_map]
    rfl

/-- Without properties members are classified independently of each other. A build fails just if the
class is final and to be proxied as a whole or if some candidate fails on its own, the first one telling
the violation. A build that succeeds has the dispositions of its members alone, adapters numbered in
order, and entries that are those of its members alone, put together. So what becomes of a member is
told by it and the class around it, whatever other members there are. -/
theorem build_independent (hm : s.strategy.mode = .simple ∨ s.strategy.mode = .alwaysProxy)
    (hw : s.weaver = .standard) :
    ((∃ v, (build s c).result = .error v) ↔
      (s.strategy.alwaysProxies = true ∧ c.isFinal = true) ∨
        ∃ x ∈ c.candidates s.strategy, ∃ v, (build s (c.solo x)).result = .error v) ∧
      (∀ v, (build s c).result = .error v ↔
        (s.strategy.alwaysProxies = true ∧ c.isFinal = true ∧ v = ⟨.finalClassProxy, c.name⟩) ∨
          ∃ pre x post, c.candidates s.strategy = pre ++ x :: post ∧
            (build s (c.solo x)).result = .error v ∧
            ∀ y ∈ pre, ∃ set, (build s (c.solo y)).result = .ok set) ∧
      (∀ set, (build s c).result = .ok set →
        ∃ sets, List.Forall₂ (fun x t => (build s (c.solo x)).result = .ok t)
            (c.candidates s.strategy) sets ∧
          set.dispositions = renumber 0 (sets.flatMap (·.dispositions)) ∧
          set.main.entries = total (sets.map (·.main.entries)) ∧
          set.proxyEntries = total (sets.map (·.proxyEntries))) ∧
      ∃ δ : Candidate → Disposition, ∀ fs ms set,
        (build s { c with fields := fs, methods := ms }).result = .ok set →
          set.dispositions = renumber 0
            ((({ c with fields := fs, methods := ms } : ClassModel).candidates s.strategy).map
              fun x => ⟨x.kind, x.member.description, δ x⟩) := by
  have hr : s.strategy.readsProperties = false := by
    rcases hm with hm | hm <;> simp [Strategy.readsProperties, hm]
  have herror (v : Violation) := build_eq_error_iff_solo (s := s) (c := c) hr (v := v)
  refine ⟨?_, herror, fun set h => build_eq_ok_of_solo hr hw h,
    fun x => (x.imprint s c).disposition.disposition, ?_⟩
  · constructor
    · rintro ⟨v, hv⟩
      rcases (herror v).1 hv with ⟨ha, hf, _⟩ | ⟨pre, x, post, hl, hx, _⟩
      · exact Or.inl ⟨ha, hf⟩
      · exact Or.inr ⟨x, by simp [hl], v, hx⟩
    · rintro (⟨ha, hf⟩ | ⟨x, hx, v, hv⟩)
      · exact ⟨_, (herror _).2 (Or.inl ⟨ha, hf, rfl⟩)⟩
      · by_contra hnone
        obtain ⟨set, hset⟩ := exists_ok_iff.2 fun w hw => hnone ⟨w, hw⟩
        obtain ⟨t, ht⟩ := build_solo_ok hr hset x hx
        cases ht.symm.trans hv
  · intro fs ms set h
    have hset := comprises_of_build hr hw h
    rw [hset.dispositions, List.map_map]
    congr 1
    refine List.map_congr_left fun x _ => ?_
    rw [Function.comp_apply, imprint_members hw]
    rfl

theorem build_independent_of_two_adapters :
    let adapted : CapabilitySet := CapabilitySet.empty.withDeclaredAttribute Marker.adapter
      Marker.adaptedType (.of (.str "app.Task"))
    let c : ClassModel :=
      { name := "app.Service"
        methods := [{ name := "first", declaringType := "app.Service", capabilities := adapted },
          { name := "second", declaringType := "app.Service", capabilities := adapted }] }
    ∃ set sets, (build {} c).result = .ok set ∧
      List.Forall₂ (fun x t => (build {} (c.solo x)).result = .ok t) (c.candidates {}) sets ∧
      set.dispositions.map (·.disposition) = [.adapter 0, .adapter 1] ∧
      set.dispositions = renumber 0 (sets.flatMap (·.dispositions)) := by
  intro adapted c
  have hset : ∃ set, (build {} c).result = .ok set ∧
      set.dispositions.map (·.disposition) = [.adapter 0, .adapter 1] := ⟨_, rfl, rfl⟩
  obtain ⟨set, h, hd⟩ := hset
  obtain ⟨sets, hsets, hr, _, _⟩ := (build_independent (Or.inl rfl) rfl).2.2.1 set h
  exact ⟨set, sets, h, hsets, hd, hr⟩

end Wiring
