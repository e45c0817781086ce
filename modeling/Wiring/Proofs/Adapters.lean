import Wiring.Proofs.Weaving

/-!
# Adapters

A weaver is asked once about each method that reaches the rule of adapters, in the order of classification, and
with the number of adapters that it has made before (`PlanSet.Adapts`). Nothing else depends on what adapters it
makes (`build_adapts`).
-/

namespace Wiring

/-! ## Questions -/

/-- A question to a weaver: what the adapter of a method looks like, under a number. -/
structure Inquiry where
  model : ClassModel
  method : MethodModel
  index : Nat

namespace Inquiry

variable (i : Inquiry) (w : Weaver)

def answer : Option Plan := w.adapterPlan i.model i.method i.index

/-- What becomes of the method. -/
def disposition : Disposition :=
  if (i.answer w).isSome then .adapter i.index else .adapterDeclined

/-- Each question comes with the number of adapters that were made before it, with some to begin with. -/
def Numbered (n : Nat) (qs : List Inquiry) : Prop :=
  ∀ before i after, qs = before ++ i :: after →
    i.index = n + (before.filterMap (·.answer w)).length

end Inquiry

/-- A weaver that answers some questions as another does, and makes the same proxies. -/
structure Weaver.Agrees (w w' : Weaver) (qs : List Inquiry) : Prop where
  proxyPlan : w'.proxyPlan = w.proxyPlan
  interceptMethod : w'.interceptMethod = w.interceptMethod
  answer : ∀ i ∈ qs, i.answer w' = i.answer w

theorem Weaver.Agrees.mono {w w' : Weaver} {qs qs' : List Inquiry} (h : w.Agrees w' qs)
    (hqs : ∀ i ∈ qs', i ∈ qs) : w.Agrees w' qs' :=
  ⟨h.proxyPlan, h.interceptMethod, fun i hi => h.answer i (hqs i hi)⟩

namespace Disposition

/-- Whether a weaver is asked. -/
def isAsked : Disposition → Bool
  | .adapter _ | .adapterDeclined => true
  | _ => false

def adapter? : Disposition → Option Nat
  | .adapter i => some i
  | _ => none

end Disposition

/-- Only where a weaver is asked there are adapters. -/
theorem filterMap_adapter? (es : List (Candidate × Disposition)) :
    (es.filter (·.2.isAsked)).filterMap (·.2.adapter?) = es.filterMap (·.2.adapter?) := by
  rw [List.filterMap_filter]
  refine List.filterMap_congr fun e _ => ?_
  cases e.2 <;> rfl

namespace Inquiry

variable {w : Weaver} {i : Inquiry} {qs : List Inquiry} {n : Nat}

@[simp] theorem isAsked_disposition : (i.disposition w).isAsked = true := by
  unfold disposition
  split <;> rfl

theorem adapter?_disposition : (i.disposition w).adapter? = (i.answer w).map fun _ => i.index := by
  unfold disposition
  cases i.answer w <;> rfl

theorem numbered_cons :
    Numbered w n (i :: qs) ↔ i.index = n ∧ Numbered w (n + (i.answer w).toList.length) qs := by
  have hcons (before : List Inquiry) : ((i :: before).filterMap (·.answer w)).length =
      (i.answer w).toList.length + (before.filterMap (·.answer w)).length := by
    cases h : i.answer w <;> simp [h, Nat.add_comm]
  constructor
  · intro h
    refine ⟨h [] i qs rfl, fun before k after hqs => ?_⟩
    rw [h (i :: before) k after (by rw [hqs, List.cons_append]), hcons, Nat.add_assoc]
  · rintro ⟨hi, h⟩ before k after hqs
    cases before with
    | nil =>
        obtain ⟨rfl, _⟩ := List.cons.inj hqs
        exact hi
    | cons _ before =>
        obtain ⟨rfl, htail⟩ := List.cons.inj hqs
        rw [h before k after htail, hcons, Nat.add_assoc]

/-- The adapters that are made are numbered without gaps. -/
theorem Numbered.numbers (h : Numbered w n qs) :
    qs.filterMap (fun i => (i.disposition w).adapter?) =
      List.range' n (qs.filterMap (·.answer w)).length := by
  induction qs generalizing n with
  | nil => rfl
  | cons i qs ih =>
      obtain ⟨rfl, h⟩ := numbered_cons.1 h
      have hqs := ih h
      simp only [List.filterMap_cons, adapter?_disposition]
      simp only [adapter?_disposition] at hqs
      cases hi : i.answer w with
      | none => simpa [hi] using hqs
      | some a => simpa [hi, List.range'_succ] using hqs

/-- The adapter at a position was made under the number of its position. -/
theorem Numbered.exists_of_getElem? (h : Numbered w n qs) {k : Nat} {a : Plan}
    (ha : (qs.filterMap (·.answer w))[k]? = some a) :
    ∃ i ∈ qs, i.index = n + k ∧ i.answer w = some a := by
  induction qs generalizing n k with
  | nil => cases ha
  | cons i qs ih =>
      obtain ⟨hi, h⟩ := numbered_cons.1 h
      cases hanswer : i.answer w with
      | none =>
          rw [List.filterMap_cons, hanswer] at ha
          rw [hanswer] at h
          obtain ⟨i', hmem, hk⟩ := ih h ha
          exact ⟨i', List.mem_cons_of_mem _ hmem, hk⟩
      | some b =>
          rw [List.filterMap_cons, hanswer] at ha
          rw [hanswer] at h
          cases k with
          | zero => exact ⟨i, List.mem_cons_self, hi, hanswer.trans (by simpa using ha)⟩
          | succ k =>
              obtain ⟨i', hmem, hindex, hk⟩ := ih h (by simpa using ha)
              refine ⟨i', List.mem_cons_of_mem _ hmem, ?_, hk⟩
              rw [hindex, Option.toList_some, List.length_singleton]
              omega

end Inquiry

/-! ## Steps -/

theorem Verdict.Becomes.isAsked_iff {v : Verdict} {d : Disposition} (h : v.Becomes d) :
    d.isAsked = true ↔ v = .adaptation := by
  cases h <;> simp [Disposition.isAsked]

namespace Pass

variable {s : Setting} {p q : Pass} {x : Candidate} {m : MethodModel} {v : Verdict} {d : Disposition}
  {es : List (Candidate × Disposition)} {qs : List Inquiry} {w : Weaver}

/-- The question that is asked about a method at some point. -/
def inquiry (p : Pass) (m : MethodModel) : Inquiry := ⟨p.model, m, p.adapters.length⟩

/-- What is asked about a candidate, by what becomes of it. -/
def asked (p : Pass) : Candidate → Disposition → List Inquiry
  | .method m, .adapter _ | .method m, .adapterDeclined => [p.inquiry m]
  | _, _ => []

/-- A candidate leaves the adapters as they are, or the weaver is asked about it. -/
theorem Enters.asks (h : Enters s p x d q) :
    (d.isAsked = false ∧ p.asked x d = [] ∧ q.adapters = p.adapters) ∨
      ∃ m, x = .method m ∧ p.asked x d = [p.inquiry m] ∧
        d = (p.inquiry m).disposition s.weaver ∧
        q.adapters = p.adapters ++ ((p.inquiry m).answer s.weaver).toList := by
  cases h with
  | field f =>
      refine Or.inl ⟨?_, rfl, by simp [visitField]⟩
      rcases judgeField_cases f with hj | hj | hj <;> rw [hj] <;> rfl
  | @method m j q d hj hr =>
      rw [adapters_record]
      generalize j.verdict = v at hr
      cases hr with
      | @adapted plan hplan =>
          rw [adapters_flagged, model_flagged] at hplan
          have hanswer : (p.inquiry m).answer s.weaver = some plan := hplan
          refine Or.inr ⟨m, rfl, rfl, ?_, ?_⟩
          · rw [Inquiry.disposition, hanswer, adapters_flagged]
            rfl
          · rw [hanswer, adapters_flagged]
            rfl
      | declined hplan =>
          rw [adapters_flagged, model_flagged] at hplan
          have hanswer : (p.inquiry m).answer s.weaver = none := hplan
          refine Or.inr ⟨m, rfl, rfl, ?_, ?_⟩
          · rw [Inquiry.disposition, hanswer]
            rfl
          · rw [hanswer, adapters_flagged]
            exact (List.append_nil _).symm
      | _ => exact Or.inl ⟨rfl, rfl, adapters_flagged ..⟩

theorem demandProxy_agrees (hw : s.weaver.Agrees w qs) (c : ClassModel) (main : Plan) (b : Bool)
    (t : Option MethodModel) (current : Option Plan) :
    demandProxy w c main b t current = demandProxy s.weaver c main b t current := by
  simp only [demandProxy, hw.proxyPlan]

theorem register_agrees (hw : s.weaver.Agrees w qs) (hv : v = .adaptation → p.inquiry m ∈ qs) :
    p.register { s with weaver := w } m v = p.register s m v := by
  cases v with
  | adaptation =>
      have hanswer : w.adapterPlan p.model m p.adapters.length =
          s.weaver.adapterPlan p.model m p.adapters.length := hw.answer _ (hv rfl)
      simp only [register, synthesizeAdapter, hanswer]
  | interception => simp only [register, demandProxy_agrees hw, hw.interceptMethod]
  | _ => rfl

theorem visitMethod_agrees {j : Judgement} (hw : s.weaver.Agrees w qs)
    (hj : judgeMethod s.strategy p.model m = .ok j)
    (hv : j.verdict = .adaptation → p.inquiry m ∈ qs) :
    p.visitMethod { s with weaver := w } m = p.visitMethod s m := by
  have hflagged : (p.flagged j.processed).inquiry m = p.inquiry m := by
    rw [inquiry, model_flagged, adapters_flagged, inquiry]
  have hregister := register_agrees (p := p.flagged j.processed) hw (hflagged ▸ hv)
  rw [visitMethod_eq, visitMethod_eq, hj]
  exact congrArg (· >>= fun e => .ok (e.1.record .method m.member e.2)) hregister

/-- A weaver that answers alike what is asked about a candidate has it enter alike. -/
theorem visit_agrees {slot : MemberSlot} (hx : p.model.derived? s.registry slot = some x)
    (h : Enters s { p with model := p.model.derive s.registry [slot] } x d q)
    (hw : s.weaver.Agrees w
      (({ p with model := p.model.derive s.registry [slot] } : Pass).asked x d)) :
    visit { s with weaver := w } p slot = visit s p slot := by
  rw [visit_eq, visit_eq, hx]
  cases h with
  | field f => rfl
  | @method m j q d hj hr =>
      -- Only a method that is to be adapted is asked about.
      have hmethod := visitMethod_agrees hw hj fun hv => by
        rw [hv] at hr
        cases hr <;> exact List.mem_singleton_self _
      simp only [hmethod]

/-! ## Runs -/

/-- Some questions are asked in the course of a run: one about each candidate that is then adapted or declined. -/
structure Asks (s : Setting) (p : Pass) (es : List (Candidate × Disposition)) (qs : List Inquiry)
    (q : Pass) : Prop where
  dispositions : es.filter (·.2.isAsked) =
    qs.map fun i => (.method i.method, i.disposition s.weaver)
  model : ∀ i ∈ qs, ∃ l, i.model = p.model.derive s.registry l
  index : Inquiry.Numbered s.weaver p.adapters.length qs
  adapters : q.adapters = p.adapters ++ qs.filterMap (·.answer s.weaver)

theorem Asks.nil (p : Pass) : Asks s p [] [] p := by
  refine ⟨rfl, by simp, fun before i after hqs => ?_, by simp⟩
  simp at hqs

/-- What is asked about a candidate is asked before what is asked in the rest of a run. -/
theorem Asks.cons {p' : Pass} {l : List MemberSlot}
    (hx : Enters s { p with model := p.model.derive s.registry l } x d q) (h : Asks s q es qs p') :
    Asks s p ((x, d) :: es)
      (({ p with model := p.model.derive s.registry l } : Pass).asked x d ++ qs) p' := by
  have hmodel : ∀ i ∈ qs, ∃ l, i.model = p.model.derive s.registry l := by
    intro i hi
    obtain ⟨k, hk⟩ := h.model i hi
    exact ⟨l ++ k, by rw [hk, hx.model_eq, ClassModel.derive_append]⟩
  rcases hx.asks with ⟨hd, hasked, hadapters⟩ | ⟨m, rfl, hasked, hd, hadapters⟩
  · rw [hasked]
    refine ⟨?_, hmodel, hadapters ▸ h.index, hadapters ▸ h.adapters⟩
    rw [List.filter_cons_of_neg (by simp [hd]), h.dispositions, List.nil_append]
  · rw [hasked, List.singleton_append]
    refine ⟨?_, ?_, ?_, ?_⟩
    · rw [List.filter_cons_of_pos (by simp [hd]), h.dispositions, hd, List.map_cons]
      rfl
    · intro i hi
      rcases List.mem_cons.1 hi with rfl | hi
      · exact ⟨l, rfl⟩
      · exact hmodel i hi
    · refine Inquiry.numbered_cons.2 ⟨rfl, ?_⟩
      have hindex := h.index
      rwa [hadapters, List.length_append] at hindex
    · rw [h.adapters, hadapters, List.append_assoc]
      cases ha : (({ p with model := p.model.derive s.registry l } : Pass).inquiry m).answer
        s.weaver <;> simp [ha]

/-- A traversal that succeeds asks some questions. With a weaver that answers them alike it comes to the same. -/
theorem visits_asks {l : List MemberSlot} (h : l.foldlM (visit s) p = .ok q) :
    ∃ es qs, es.map (·.1) = l.filterMap (p.model.derived? s.registry) ∧ Runs s p es q ∧
      Asks s p es qs q ∧
      ∀ w, s.weaver.Agrees w qs → l.foldlM (visit { s with weaver := w }) p = .ok q := by
  -- By induction on the positions: what is asked at the first comes before what is asked at the rest.
  induction l generalizing p with
  | nil =>
      cases h
      exact ⟨[], [], rfl, .nil _, .nil _, fun _ _ => rfl⟩
  | cons slot l ih =>
      rw [List.foldlM_cons] at h
      obtain ⟨p₁, h₁, h₂⟩ := bind_eq_ok.1 h
      obtain ⟨es, qs, hes, hruns, hasks, hagrees⟩ := ih h₂
      rcases visit_ok h₁ with ⟨hx, rfl⟩ | ⟨x, d, hx, hd⟩
      · rw [List.filterMap_cons_none hx]
        refine ⟨es, qs, hes, hruns, hasks, fun w hw => ?_⟩
        have hvisit : visit { s with weaver := w } p₁ slot = .ok p₁ := by rw [visit_eq, hx]
        rw [List.foldlM_cons, hvisit]
        exact hagrees w hw
      · refine ⟨_, _, ?_, .cons _ hd hruns, hasks.cons hd, fun w hw => ?_⟩
        · rw [List.filterMap_cons_some hx, List.map_cons, hes, hd.derived?_eq]
        · have hvisit := visit_agrees hx hd (hw.mono fun _ => List.mem_append_left _)
          rw [List.foldlM_cons, hvisit, h₁]
          exact hagrees w (hw.mono fun _ => List.mem_append_right _)

/-- Executable methods are those that are exposed and those that are adapted. -/
theorem Runs.executableMethods (h : Runs s p es q) :
    q.main.executableMethods =
      p.main.executableMethods ++ (methodsWith (·.isExecutable) es).map (.of · false) := by
  have hlists : q.main.memberLists = p.main.memberLists ++
      Entries.total (es.map fun e => e.1.listing p.model s.strategy.optionalFieldValues e.2) := by
    rw [Plan.memberLists, h.main_entries, Entries.lists_append, Entries.lists_total, List.map_map]
    simp only [Function.comp_def, Candidate.lists_mainEntries, Plan.memberLists]
  rw [Candidate.total_listing] at hlists
  exact congrArg Entries.executableMethods hlists

end Pass

/-! ## Methods that are asked about -/

/-- No rule before that of adapters takes the method, and it carries an adapter. -/
def MethodModel.ReachesAdapter (r : Registry) (m : MethodModel) : Prop :=
  ¬m.IsCallback ∧ ¬m.Exempt r ∧ m.capabilities.Carries r Marker.adapter

instance (r : Registry) (m : MethodModel) : Decidable (m.ReachesAdapter r) :=
  inferInstanceAs (Decidable (_ ∧ _))

/-- The methods that reach the rule of adapters once they are marked, in the order of classification. -/
def ClassModel.adaptable (c : ClassModel) (s : Setting) : List MethodModel :=
  ((c.candidates s.strategy).filterMap Candidate.method?).filter fun m =>
    (m.validated s.registry).ReachesAdapter s.registry

theorem judgeMethod_adaptation {s : Strategy} {r : Registry} {c : ClassModel} {m : MethodModel}
    {j : Judgement} (h : judgeMethod s (c.resolve r) (m.resolve r) = .ok j) :
    j.verdict = .adaptation ↔ m.ReachesAdapter r := by
  simp only [judgeMethod, isCallback_resolve, injected_resolve, unlisted_resolve,
    hasStereotype_resolve] at h
  split_ifs at h with hm hi hu had
  · obtain ⟨_, _, h⟩ := bind_eq_ok.1 h
    cases h
    simp [MethodModel.ReachesAdapter, hm]
  · cases h
    simp [MethodModel.ReachesAdapter, MethodModel.Exempt, hi]
  · cases h
    simp [MethodModel.ReachesAdapter, MethodModel.Exempt, hu]
  · obtain ⟨_, _, h⟩ := bind_eq_ok.1 h
    cases h
    exact iff_of_true rfl ⟨hm, not_or.2 ⟨hi, hu⟩, had⟩
  · refine iff_of_false (fun hj => ?_) fun hr => had hr.2.2
    obtain ⟨b, _, h⟩ := bind_eq_ok.1 h
    cases b with
    | true =>
        cases h
        cases hj
    | false =>
        obtain ⟨b, _, h⟩ := bind_eq_ok.1 h
        cases b <;> cases h <;> cases hj

section Builds

variable {s : Setting} {c : ClassModel} {rs : List (PropertyModel × Disposition)}
  {es : List (Candidate × Disposition)} {p q : Pass} {qs : List Inquiry} {w : Weaver} {set : PlanSet}

theorem Course.isAsked_iff (h : Course s c rs es p q) {m : MethodModel} {d : Disposition}
    (he : (.method ((m.resolve s.registry).deriveValidated s.registry), d) ∈ es) :
    d.isAsked = true ↔ (m.validated s.registry).ReachesAdapter s.registry := by
  obtain ⟨j, hj, hbecomes⟩ := h.decided he
  rw [deriveValidated_resolve] at hj
  rw [hbecomes.isAsked_iff, judgeMethod_adaptation (judgeMethod_of_decideMethod hj)]

/-- Where dispositions tell just the methods of some kind, these are the methods of those dispositions. -/
theorem methodsWith_eq_filter {f : Disposition → Bool} {g : MethodModel → Prop} [DecidablePred g]
    (h : ∀ m d, (.method m, d) ∈ es → (f d = true ↔ g m)) :
    methodsWith f es = ((es.map (·.1)).filterMap Candidate.method?).filter (g ·) := by
  rw [methodsWith, List.filterMap_filter, List.filterMap_map, List.filter_filterMap]
  refine List.filterMap_congr fun e he => ?_
  obtain ⟨x, d⟩ := e
  cases x with
  | field y => simp [Candidate.method?]
  | method m => simp [Candidate.method?, h m d he, Option.filter]

theorem Course.executableMethods_eq_nil (h : Course s c rs es p q)
    (hh : s.strategy.readsProperties = true → s.strategy.handler.Plain) :
    p.main.executableMethods = [] := by
  have hopened := Pass.main_entries_opened s c
  cases hs : s.strategy.readsProperties with
  | false =>
      rw [h.eq_opened hs]
      exact congrArg Entries.executableMethods hopened
  | true =>
      obtain ⟨vs, hp, _⟩ := h.reads.entries (hh hs)
      rw [hopened] at hp
      exact congrArg Entries.executableMethods hp

theorem Pass.opened_agrees (hw : s.weaver.Agrees w qs) (c : ClassModel) :
    opened { s with weaver := w } c = opened s c := by
  simp only [opened, newProxy, hw.proxyPlan]

/-- The adapters of a class, by the questions that its weaver is asked. -/
structure PlanSet.Adapts (set : PlanSet) (s : Setting) (c : ClassModel)
    (es : List (Candidate × Disposition)) (qs : List Inquiry) : Prop where
  methods : qs.map (·.method) =
    (c.adaptable s).map fun m => (m.resolve s.registry).deriveValidated s.registry
  /-- At each question the weaver is given the class as it then stands. -/
  model : ∀ i ∈ qs, c.Marked s.registry i.model
  index : Inquiry.Numbered s.weaver 0 qs
  adapters : set.adapters = qs.filterMap (·.answer s.weaver)
  dispositions : (es.filter (·.2.isAsked)).map (fun e => (e.1.seen s.registry, e.2)) =
    qs.map fun i => (.method i.method, i.disposition s.weaver)
  numbers : es.filterMap (·.2.adapter?) = List.range set.adapters.length

theorem Course.adapts (h : Course s c rs (es.map fun e => (e.1.seen s.registry, e.2)) p q)
    (hes : es.map (·.1) = c.candidates s.strategy)
    (hasks : Pass.Asks s p (es.map fun e => (e.1.seen s.registry, e.2)) qs q) :
    q.planSet.Adapts s c es qs := by
  have hnone : p.adapters = [] := h.reads.adapters_eq.trans (Pass.adapters_opened s c)
  have hadapters : q.adapters = qs.filterMap (·.answer s.weaver) := by
    rw [hasks.adapters, hnone, List.nil_append]
  have hindex : Inquiry.Numbered s.weaver 0 qs := by
    have hindex := hasks.index
    rwa [hnone] at hindex
  have hasked : methodsWith (·.isAsked) es = c.adaptable s := by
    rw [methodsWith_eq_filter fun m d he => h.isAsked_iff (List.mem_map_of_mem he), hes]
    rfl
  refine ⟨?_, fun i hi => ?_, hindex, hadapters, ?_, ?_⟩
  · rw [← hasked, ← methodsWith_seen, methodsWith, hasks.dispositions, List.filterMap_map]
    simp [Function.comp_def, Candidate.method?]
  · obtain ⟨l, hl⟩ := hasks.model i hi
    rw [hl]
    exact h.marked.derive l
  · rw [← hasks.dispositions, List.filter_map]
    rfl
  · calc es.filterMap (·.2.adapter?)
        = (es.map fun e => (e.1.seen s.registry, e.2)).filterMap (·.2.adapter?) := by
          rw [List.filterMap_map]
          rfl
      _ = qs.filterMap fun i => (i.disposition s.weaver).adapter? := by
          rw [← filterMap_adapter?, hasks.dispositions, List.filterMap_map]
          rfl
      _ = List.range q.planSet.adapters.length := by
          rw [hindex.numbers, ← hadapters, List.range_eq_range']
          rfl

theorem methodsWith_adapter {n k : Nat} {m : MethodModel}
    (h : es.filterMap (·.2.adapter?) = List.range n) (hm : m ∈ methodsWith (· = .adapter k) es) :
    methodsWith (· = .adapter k) es = [m] := by
  -- A number occurs at least as often as there are methods under it, and in a range at most once.
  have hcount : (methodsWith (· = .adapter k) es).length ≤ (es.filterMap (·.2.adapter?)).count k := by
    rw [methodsWith, List.count, List.countP_filterMap]
    refine Nat.le_trans (List.length_filterMap_le ..) ?_
    rw [← List.countP_eq_length_filter]
    refine List.countP_mono_left fun e _ he => ?_
    have hd : e.2 = .adapter k := by simpa using he
    simp [hd, Disposition.adapter?]
  rw [h] at hcount
  have hone := Nat.le_trans hcount (List.nodup_iff_count.1 List.nodup_range k)
  cases hms : methodsWith (· = .adapter k) es with
  | nil => simp [hms] at hm
  | cons m' ms =>
      rw [hms] at hm hone
      obtain rfl : ms = [] := by simpa using hone
      rw [List.mem_singleton.1 hm]

theorem Weaver.adapterPlan_of_standard {m : MethodModel} {k : Nat} {a : Plan}
    (h : standard.adapterPlan c m k = some a) :
    a.kind = .adapter k ∧ a.adaptedMethod = some (.of m false) := by
  simp only [standard] at h
  split at h
  · cases h
  · split at h
    · cases h
    · cases h
      exact ⟨rfl, rfl⟩

/-- The adapter under a number was made for the one method that became an adapter of that number. -/
theorem PlanSet.Adapts.made (h : set.Adapts s c es qs) {k : Nat} {a : Plan}
    (ha : set.adapters[k]? = some a) :
    ∃ m d, methodsWith (· = .adapter k) es = [m] ∧
      s.weaver.adapterPlan d ((m.resolve s.registry).deriveValidated s.registry) k = some a := by
  rw [h.adapters] at ha
  obtain ⟨i, hi, hindex, hanswer⟩ := h.index.exists_of_getElem? ha
  rw [Nat.zero_add] at hindex
  have hd : i.disposition s.weaver = .adapter k := by
    rw [Inquiry.disposition, hanswer, hindex]
    rfl
  have hmem : (.method i.method, .adapter k) ∈
      (es.filter (·.2.isAsked)).map fun e => (e.1.seen s.registry, e.2) := by
    rw [h.dispositions, ← hd]
    exact List.mem_map_of_mem hi
  obtain ⟨⟨x, d⟩, he, heq⟩ := List.mem_map.1 hmem
  obtain ⟨hx, rfl⟩ := Prod.mk.inj heq
  cases x with
  | field f => cases hx
  | method m =>
      have hm : m ∈ methodsWith (· = .adapter k) es :=
        mem_methodsWith.2 ⟨_, List.mem_of_mem_filter he, by simp⟩
      refine ⟨m, i.model, methodsWith_adapter h.numbers hm, ?_⟩
      rw [Candidate.method.inj hx, ← hindex]
      exact hanswer

/-- The course of a build that succeeds, with the questions that are asked on it. With a weaver that answers
them alike the build is the same. -/
theorem asks_of_build (h : (build s c).result = .ok set) :
    ∃ rs es qs p q,
      Course s c (rs.map fun e => (e.1.resolve s.registry, e.2))
        (es.map fun e => (e.1.seen s.registry, e.2)) p q ∧
      set = q.planSet ∧ set.Tells s.strategy c rs es ∧ set.Adapts s c es qs ∧
      ∀ w, s.weaver.Agrees w qs → build { s with weaver := w } c = build s c := by
  obtain ⟨q, hr, rfl⟩ := run_of_build h
  obtain ⟨hf, p, hp, hv⟩ := Pass.run_eq_ok.1 hr
  obtain ⟨es, qs, hes, hruns, hasks, hagrees⟩ := Pass.visits_asks hv
  obtain ⟨rs, hcourse⟩ := Course.of_runs hf hp hes hruns
  obtain ⟨xs, ys, htells, rfl, rfl⟩ := hcourse.tells
  have hadapts := hcourse.adapts htells.candidates hasks
  refine ⟨xs, ys, qs, p, q, hcourse, rfl, htells, hadapts, fun w hw => ?_⟩
  have hr' : (Pass.start (c.resolve s.registry)).run { s with weaver := w } = .ok q := by
    refine Pass.run_eq_ok.2 ⟨hf, p, ?_, hagrees w hw⟩
    rw [Pass.opened_agrees hw]
    exact hp
  rw [build, build, hr, hr']

/-- Whatever the weaver makes and whatever it declines, of a class that is built it is asked once about each
method that reaches the rule of adapters, in order, and with the number of adapters made before. The adapters
are those that it makes, in that order; the methods that it makes them for are numbered from zero, and the others
are declined. The executable methods that are listed after those that properties bring about are one for each
method that is adapted or exposed. Nothing else is asked: with a weaver that agrees on these questions the build
is the same. An adapter of the standard weaver is told apart by its number, and adapts the one method of that
number. -/
theorem build_adapts (h : (build s c).result = .ok set) :
    ∃ rs es qs, set.Tells s.strategy c rs es ∧ set.Adapts s c es qs ∧
      (∃ before, set.main.executableMethods =
          before ++ (methodsWith (·.isExecutable) es).map (.of · false) ∧
        ((s.strategy.readsProperties = true → s.strategy.handler.Plain) → before = [])) ∧
      (∀ w, s.weaver.Agrees w qs → build { s with weaver := w } c = build s c) ∧
      (s.weaver = .standard → ∀ k a, set.adapters[k]? = some a →
        a.kind = .adapter k ∧
          ∃ m, methodsWith (· = .adapter k) es = [m] ∧ a.adaptedMethod = some (.of m false)) := by
  obtain ⟨rs, es, qs, p, q, hcourse, rfl, htells, hadapts, hagrees⟩ := asks_of_build h
  refine ⟨rs, es, qs, htells, hadapts, ⟨p.main.executableMethods, ?_,
    hcourse.executableMethods_eq_nil⟩, hagrees, fun hw k a ha => ?_⟩
  · have hmethods := hcourse.runs.executableMethods
    simp only [methodsWith_seen, List.map_map, Function.comp_def, Candidate.ref_seen] at hmethods
    exact hmethods
  · obtain ⟨m, d, hm, hplan⟩ := hadapts.made ha
    rw [hw] at hplan
    obtain ⟨hkind, hadapted⟩ := Weaver.adapterPlan_of_standard hplan
    exact ⟨hkind, m, hm, hadapted.trans (by rw [Candidate.ref_seen])⟩

theorem build_adapts_of_declined_method :
    let sink : CapabilitySet := CapabilitySet.empty.withDeclaredAttribute Marker.adapter
      Marker.adaptedType (.of (.str "app.Sink"))
    let handler (name : String) : MethodModel :=
      { name, declaringType := "app.Listener", capabilities := sink }
    let c : ClassModel :=
      { name := "app.Listener", methods := [handler "a", handler "b", handler "c"] }
    let choosy : Weaver :=
      { Weaver.standard with
        adapterPlan := fun c m i =>
          if m.name = "b" then none else Weaver.standard.adapterPlan c m i }
    let s : Setting := { weaver := choosy }
    ∃ set, (build s c).result = .ok set ∧
      set.dispositions.map (·.disposition) = [.adapter 0, .adapterDeclined, .adapter 1] ∧
      set.adapters.map (·.name) = ["$Listener$a$Adapter0", "$Listener$c$Adapter1"] ∧
      set.main.executableMethods.map (·.name) = ["a", "c"] ∧
      ∃ rs es qs, set.Tells s.strategy c rs es ∧ set.Adapts s c es qs ∧
        ∀ w, choosy.Agrees w qs → build { s with weaver := w } c = build s c := by
  intro sink handler c choosy s
  have hset : ∃ set, (build s c).result = .ok set ∧
      set.dispositions.map (·.disposition) = [.adapter 0, .adapterDeclined, .adapter 1] ∧
      set.adapters.map (·.name) = ["$Listener$a$Adapter0", "$Listener$c$Adapter1"] ∧
      set.main.executableMethods.map (·.name) = ["a", "c"] := by
    exact ⟨_, rfl, by decide +kernel, by decide +kernel, by decide +kernel⟩
  obtain ⟨set, h, hdispositions, hadapters, hmethods⟩ := hset
  obtain ⟨rs, es, qs, htells, hadapts, _, hagrees, _⟩ := build_adapts h
  exact ⟨set, h, hdispositions, hadapters, hmethods, rs, es, qs, htells, hadapts, hagrees⟩

end Builds

end Wiring
