import Wiring.Proofs.Entries
import Wiring.Proofs.Properties

/-!
# Accounts

The plans of a class account for what became of its members: each list of each plan holds the members of
some dispositions, in the order in which they were gone over, and nothing else (`build_accounts`).
-/

namespace Wiring

open Entries

/-! ## What properties enter -/

namespace Pass

variable {s : Setting} {p q : Pass} {x : PropertyModel} {d : Disposition}

theorem entries_foldl_addOriginating (main : Plan) (ts : List String) :
    (ts.foldl Plan.addOriginating main).entries =
      main.entries ++ { originatingElements := .ofList ts } := by
  induction ts generalizing main with
  | nil => exact (append_empty _).symm
  | cons t ts ih =>
      have hcons : StringSet.ofList (t :: ts) = (StringSet.ofList [t]).union (.ofList ts) :=
        StringSet.ofList_append [t] ts
      rw [List.foldl_cons, ih, Plan.entries_addOriginating, append_assoc, hcons]
      rfl

def settersOf (c : ClassModel) (optional : Bool) (rs : List (PropertyModel × Disposition)) :
    List (Option SetterValue) :=
  (rs.filter fun e => e.2 = .property).map fun e => c.setterValue? optional e.1

/-- The types from elsewhere that declare what makes up the claimed properties. -/
def originsIn (c : ClassModel) (rs : List (PropertyModel × Disposition)) : List String :=
  (rs.filter fun e => e.2 = .property).flatMap fun e => originsOf c e.1

theorem Claims.entries (hh : s.strategy.handler.Plain) (h : Claims s p x d q) :
    ∃ vs, q.main.entries = p.main.entries ++
        { setterValues := vs, originatingElements := .ofList (originsIn p.model [(x, d)]) } ∧
      vs.map some = settersOf p.model s.strategy.optionalFieldValues [(x, d)] := by
  have hbare := bare_validateAccessors p.model s.registry x
  have hvisit := hh (p.model.validateAccessors s.registry x) p.main s.strategy.optionalFieldValues x
  cases h with
  | left hv =>
      rw [hv] at hvisit
      rcases hvisit with hvisit | ⟨v, _, hvisit⟩
      · cases hvisit
        refine ⟨[], ?_, by simp [settersOf]⟩
        exact (append_empty _).symm
      · cases hvisit
  | claimed hv hmain =>
      rw [hv] at hvisit
      rcases hvisit with hvisit | ⟨v, hx, hvisit⟩
      · cases hvisit
      · cases hvisit
        rw [originsOf_eq_of_bare hbare] at hmain
        rw [ClassModel.setterValue?_eq_of_bare hbare] at hx
        refine ⟨[v], ?_, by simp [settersOf, hx]⟩
        simp only [note, hmain, entries_foldl_addOriginating]
        simp [Plan.entries, append_def, append, originsIn]

theorem Reads.entries (hh : s.strategy.handler.Plain) {rs : List (PropertyModel × Disposition)}
    (h : Reads s p rs q) :
    ∃ vs, q.main.entries = p.main.entries ++
        { setterValues := vs, originatingElements := .ofList (originsIn p.model rs) } ∧
      vs.map some = settersOf p.model s.strategy.optionalFieldValues rs := by
  induction h with
  | nil p => exact ⟨[], (append_empty _).symm, rfl⟩
  | @cons p q p' x d rs hx hrs ih =>
      obtain ⟨vs, hq, hvs⟩ := hx.entries hh
      obtain ⟨vs', hp', hvs'⟩ := ih
      have hbare : q.model.bare = p.model.bare := by rw [hx.model_eq, bare_validateAccessors]
      have hset : settersOf q.model s.strategy.optionalFieldValues rs =
          settersOf p.model s.strategy.optionalFieldValues rs := by
        simp only [settersOf, ClassModel.setterValue?_eq_of_bare hbare]
      have horigins : originsIn p.model ((x, d) :: rs) =
          originsIn p.model [(x, d)] ++ originsIn q.model rs := by
        simp only [originsIn, originsOf_eq_of_bare hbare, ← List.flatMap_append,
          ← List.filter_append, List.singleton_append]
      refine ⟨vs ++ vs', ?_, ?_⟩
      · rw [hp', hq, append_assoc, horigins, StringSet.ofList_append]
        rfl
      · rw [List.map_append, hvs, hvs', hset, settersOf, settersOf, settersOf, ← List.map_append,
          ← List.filter_append, List.singleton_append]

end Pass

/-! ## Lists by disposition -/

namespace Disposition

def isPostConstruct : Disposition → Bool
  | .lifecycle post _ => post
  | _ => false

def isPreDestroy : Disposition → Bool
  | .lifecycle _ pre => pre
  | _ => false

/-- Whether a method is executable, with or without an adapter. -/
def isExecutable : Disposition → Bool
  | .adapter _ | .executable => true
  | _ => false

end Disposition

def fieldsWith (p : Disposition → Bool) (es : List (Candidate × Disposition)) : List FieldModel :=
  (es.filter (p ·.2)).filterMap (·.1.field?)

/-- The methods of some dispositions, in order. -/
def methodsWith (p : Disposition → Bool) (es : List (Candidate × Disposition)) : List MethodModel :=
  (es.filter (p ·.2)).filterMap (·.1.method?)

section DispositionLists

variable {p : Disposition → Bool} {es : List (Candidate × Disposition)}

theorem mem_fieldsWith {f : FieldModel} :
    f ∈ fieldsWith p es ↔ ∃ d, (.field f, d) ∈ es ∧ p d = true := by
  simp only [fieldsWith, List.mem_filterMap, List.mem_filter]
  constructor
  · rintro ⟨⟨x, d⟩, ⟨he, hd⟩, hx⟩
    cases x <;> cases hx
    exact ⟨d, he, hd⟩
  · rintro ⟨d, he, hd⟩
    exact ⟨(.field f, d), ⟨he, hd⟩, rfl⟩

theorem mem_methodsWith {m : MethodModel} :
    m ∈ methodsWith p es ↔ ∃ d, (.method m, d) ∈ es ∧ p d = true := by
  simp only [methodsWith, List.mem_filterMap, List.mem_filter]
  constructor
  · rintro ⟨⟨x, d⟩, ⟨he, hd⟩, hx⟩
    cases x <;> cases hx
    exact ⟨d, he, hd⟩
  · rintro ⟨d, he, hd⟩
    exact ⟨(.method m, d), ⟨he, hd⟩, rfl⟩

theorem methodsWith_cons_of_false {d : Disposition} (hd : p d = false) (x : Candidate)
    (es : List (Candidate × Disposition)) : methodsWith p ((x, d) :: es) = methodsWith p es := by
  simp [methodsWith, hd]

theorem methodsWith_cons_of_true {d : Disposition} (hd : p d = true) (m : MethodModel)
    (es : List (Candidate × Disposition)) :
    methodsWith p ((.method m, d) :: es) = m :: methodsWith p es := by
  simp [methodsWith, hd, Candidate.method?]

theorem methodsWith_seen (r : Registry) (p : Disposition → Bool)
    (es : List (Candidate × Disposition)) :
    methodsWith p (es.map fun e => (e.1.seen r, e.2)) =
      (methodsWith p es).map fun m => (m.resolve r).deriveValidated r := by
  induction es with
  | nil => rfl
  | cons e es ih =>
      obtain ⟨x, d⟩ := e
      cases hd : p d with
      | false =>
          rw [List.map_cons, methodsWith_cons_of_false hd, methodsWith_cons_of_false hd, ih]
      | true =>
          cases x with
          | field f => simpa [methodsWith, hd, Candidate.method?, Candidate.seen] using ih
          | method m =>
              rw [List.map_cons, Candidate.seen, methodsWith_cons_of_true hd,
                methodsWith_cons_of_true hd, ih, List.map_cons]

end DispositionLists

/-- The lists alone. -/
def Entries.lists (e : Entries) : Entries :=
  { e with requiresMethodProcessing := false, originatingElements := .empty }

def Plan.memberLists (p : Plan) : Entries := p.entries.lists

theorem PlanSet.mem_plans {set : PlanSet} {plan : Plan} :
    plan ∈ set.plans ↔ plan = set.main ∨ plan ∈ set.proxy ∨ plan ∈ set.adapters := by
  simp [plans]

/-- Each list of each plan holds the members of some dispositions, and nothing else. -/
structure PlanSet.Accounts (set : PlanSet) (s : Setting) (c : ClassModel)
    (rs : List (PropertyModel × Disposition)) (es : List (Candidate × Disposition)) : Prop
    extends set.Tells s.strategy c rs es where
  main : set.main.memberLists =
    { postConstructMethods := (methodsWith (·.isPostConstruct) es).map fun m =>
        .of m (m.member.requiresReflection c)
      preDestroyMethods := (methodsWith (·.isPreDestroy) es).map fun m =>
        .of m (m.member.requiresReflection c)
      methodInjectionPoints := (methodsWith (· = .methodInjection) es).map fun m =>
        .of m (m.member.requiresReflection c)
      fieldInjectionPoints := (fieldsWith (· = .fieldInjection) es).map fun f =>
        .of f (f.member.requiresReflection c)
      fieldValues := (fieldsWith (· = .fieldValue) es).map fun f =>
        ⟨.of f (f.member.requiresReflection c), s.strategy.optionalFieldValues,
          f.capabilities.markerNames⟩
      setterValues := (rs.filter (·.2 = .property)).filterMap fun e =>
        c.setterValue? s.strategy.optionalFieldValues e.1
      executableMethods := (methodsWith (·.isExecutable) es).map (.of · false) }
  /-- Each claimed property gives a value. -/
  claimed : ∀ e ∈ rs, e.2 = .property →
    (c.setterValue? s.strategy.optionalFieldValues e.1).isSome = true
  noop : s.strategy.handler = .noop → set.main.setterValues = []
  proxy : (set.proxy.map Plan.memberLists).getD {} =
    { aroundMethods := (methodsWith (· = .intercepted) es).map fun m =>
        ⟨.of m false, interceptorBindings s.registry c
          ((m.resolve s.registry).deriveValidated s.registry)⟩ }
  adapters : ∀ a ∈ set.adapters, a.memberLists = {}

namespace Entries

theorem lists_append (a b : Entries) : (a ++ b).lists = a.lists ++ b.lists := rfl

theorem lists_total (l : List Entries) : (total l).lists = total (l.map lists) := by
  induction l with
  | nil => rfl
  | cons a l ih =>
      have hcons : total (a :: l) = a ++ total l := rfl
      rw [hcons, lists_append, ih]
      rfl

/-- What is listed one candidate at a time, each under one disposition or another, is listed by
disposition. -/
theorem flatMap_listed {α β : Type} {g : Candidate → Disposition → List β}
    (sel : Candidate → Option α) {p : Disposition → Bool} {k : α → β}
    (hg : ∀ x d, g x d = if p d then ((sel x).map k).toList else [])
    (es : List (Candidate × Disposition)) :
    es.flatMap (fun e => g e.1 e.2) = ((es.filter (p ·.2)).filterMap (sel ·.1)).map k := by
  induction es with
  | nil => rfl
  | cons e es ih =>
      rw [List.flatMap_cons, ih, hg]
      by_cases hp : p e.2 = true
      · cases hs : sel e.1 <;> simp [hp, hs]
      · simp [hp]

theorem total_listed {α β : Type} (f : Entries → List β) (hnil : f {} = [])
    (happend : ∀ a b, f (a ++ b) = f a ++ f b) {g : Candidate → Disposition → Entries}
    (sel : Candidate → Option α) {p : Disposition → Bool} {k : α → β}
    (hg : ∀ x d, f (g x d) = if p d then ((sel x).map k).toList else [])
    (es : List (Candidate × Disposition)) :
    f (total (es.map fun e => g e.1 e.2)) = ((es.filter (p ·.2)).filterMap (sel ·.1)).map k := by
  rw [total_list hnil happend, List.flatMap_map]
  exact flatMap_listed sel hg es

theorem total_aroundMethods {α : Type} (l : List α) (g : α → List InterceptedMethod) :
    total (l.map fun e => { aroundMethods := g e }) = { aroundMethods := l.flatMap g } := by
  induction l with
  | nil => rfl
  | cons e l ih =>
      have hcons (a : Entries) (l : List Entries) : total (a :: l) = a ++ total l := rfl
      rw [List.map_cons, hcons, ih]
      simp [append_def, append]

end Entries

namespace Candidate

variable (c : ClassModel) (r : Registry) (x : Candidate) (d : Disposition)

theorem ref_seen (m : MethodModel) (b : Bool) :
    MethodRef.of ((m.resolve r).deriveValidated r) b = .of m b := by
  rw [← MethodRef.of_bare, m.bare_derived, MethodRef.of_bare]

theorem requiresReflection_seen (m : MethodModel) :
    ((m.resolve r).deriveValidated r).member.requiresReflection (c.resolve r) =
      m.member.requiresReflection c := by
  have h (m : MethodModel) :
      m.member.requiresReflection c = m.bare.member.requiresReflection c := rfl
  rw [h m, ← m.bare_derived r]
  rfl

theorem listing_seen (optional : Bool) :
    (x.seen r).listing (c.resolve r) optional d = x.listing c optional d := by
  cases x with
  | field f => cases d <;> rfl
  | method m => cases d <;> simp [seen, listing, ref_seen, requiresReflection_seen]

theorem lists_mainEntries (s : Strategy) :
    (x.mainEntries s c d).lists = x.listing c s.optionalFieldValues d := by
  cases x <;> cases d <;> rfl

theorem total_listing (optional : Bool) (es : List (Candidate × Disposition)) :
    total (es.map fun e => e.1.listing c optional e.2) =
      { postConstructMethods := (methodsWith (·.isPostConstruct) es).map fun m =>
          .of m (m.member.requiresReflection c)
        preDestroyMethods := (methodsWith (·.isPreDestroy) es).map fun m =>
          .of m (m.member.requiresReflection c)
        methodInjectionPoints := (methodsWith (· = .methodInjection) es).map fun m =>
          .of m (m.member.requiresReflection c)
        fieldInjectionPoints := (fieldsWith (· = .fieldInjection) es).map fun f =>
          .of f (f.member.requiresReflection c)
        fieldValues := (fieldsWith (· = .fieldValue) es).map fun f =>
          ⟨.of f (f.member.requiresReflection c), optional, f.capabilities.markerNames⟩
        executableMethods := (methodsWith (·.isExecutable) es).map (.of · false) } := by
  -- What is not listed by the main plan is listed by it under no disposition.
  have hnone {β : Type} (f : Entries → List β) (hnil : f {} = [])
      (happend : ∀ a b, f (a ++ b) = f a ++ f b) (hf : ∀ x d, f (listing c optional x d) = []) :
      f (total (es.map fun e => e.1.listing c optional e.2)) = [] := by
    rw [total_list hnil happend, List.flatMap_map]
    simp [hf]
  ext1 <;> dsimp only [methodsWith, fieldsWith]
  case postConstructMethods =>
    refine total_listed (·.postConstructMethods) rfl (fun _ _ => rfl) method? ?_ es
    rintro (f | m) d <;> cases d with
    | lifecycle post pre => cases post <;> rfl
    | _ => rfl
  case preDestroyMethods =>
    refine total_listed (·.preDestroyMethods) rfl (fun _ _ => rfl) method? ?_ es
    rintro (f | m) d <;> cases d with
    | lifecycle post pre => cases pre <;> rfl
    | _ => rfl
  case methodInjectionPoints =>
    refine total_listed (·.methodInjectionPoints) rfl (fun _ _ => rfl) method?
      (p := (· = .methodInjection)) ?_ es
    rintro (f | m) d <;> cases d <;> rfl
  case fieldInjectionPoints =>
    refine total_listed (·.fieldInjectionPoints) rfl (fun _ _ => rfl) field?
      (p := (· = .fieldInjection)) ?_ es
    rintro (f | m) d <;> cases d <;> rfl
  case fieldValues =>
    refine total_listed (·.fieldValues) rfl (fun _ _ => rfl) field?
      (p := (· = .fieldValue)) ?_ es
    rintro (f | m) d <;> cases d <;> rfl
  case setterValues =>
    refine hnone (·.setterValues) rfl (fun _ _ => rfl) ?_
    rintro (f | m) d <;> cases d <;> rfl
  case executableMethods =>
    refine total_listed (·.executableMethods) rfl (fun _ _ => rfl) method? ?_ es
    rintro (f | m) d <;> cases d <;> rfl
  case aroundMethods =>
    refine hnone (·.aroundMethods) rfl (fun _ _ => rfl) ?_
    rintro (f | m) d <;> cases d <;> rfl
  case requiresMethodProcessing =>
    have hf : ∀ x d, (listing c optional x d).requiresMethodProcessing = false := by
      rintro (f | m) d <;> cases d <;> rfl
    simp [total_processing, hf]
  case originatingElements =>
    have hf : ∀ x d, (listing c optional x d).originatingElements = .empty := by
      rintro (f | m) d <;> cases d <;> rfl
    exact StringSet.ext_mem fun t => by simp [mem_total_origins, hf, StringSet.not_mem_empty]

def advice (x : Candidate) (d : Disposition) : List InterceptedMethod :=
  match x, d with
  | .method m, .intercepted =>
    [⟨.of m false, interceptorBindings r c ((m.resolve r).deriveValidated r)⟩]
  | _, _ => []

theorem lists_proxyEntries :
    ((x.seen r).proxyEntries r (c.resolve r) d).lists = { aroundMethods := advice c r x d } := by
  cases x with
  | field f => rfl
  | method m =>
      cases d with
      | intercepted => simp only [advice, ← ref_seen r m]; rfl
      | _ => rfl

theorem total_advice (es : List (Candidate × Disposition)) :
    (total (es.map fun e => (e.1.seen r).proxyEntries r (c.resolve r) e.2)).lists =
      { aroundMethods := (methodsWith (· = .intercepted) es).map fun m =>
          ⟨.of m false, interceptorBindings r c ((m.resolve r).deriveValidated r)⟩ } := by
  simp only [lists_total, List.map_map, Function.comp_def, lists_proxyEntries, total_aroundMethods]
  congr 1
  refine flatMap_listed method? (p := (· = .intercepted)) ?_ es
  rintro (f | m) d <;> cases d <;> rfl

end Candidate

theorem Pass.settersOf_resolve (c : ClassModel) (r : Registry) (optional : Bool)
    (xs : List (PropertyModel × Disposition)) :
    settersOf (c.resolve r) optional (xs.map fun e => (e.1.resolve r, e.2)) =
      settersOf c optional xs := by
  have hx (x : PropertyModel) :
      (c.resolve r).setterValue? optional (x.resolve r) = c.setterValue? optional x := by
    rw [← ClassModel.setterValue?_bare, ClassModel.bare_resolve]
    exact c.setterValue?_bare optional x
  simp [settersOf, List.filter_map, Function.comp_def, hx]

section Courses

variable {s : Setting} {c : ClassModel} {rs : List (PropertyModel × Disposition)}
  {es : List (Candidate × Disposition)} {p q : Pass}

/-- What a build enters on the main plan is what properties enter and the total of what its candidates
enter. -/
theorem Course.main_entries (hh : s.strategy.handler.Plain) (h : Course s c rs es p q) :
    ∃ vs, vs.map some =
          Pass.settersOf (c.resolve s.registry) s.strategy.optionalFieldValues rs ∧
      q.main.entries =
        { setterValues := vs
          originatingElements := .ofList (Pass.originsIn (c.resolve s.registry) rs) } ++
          total (es.map fun e => e.1.mainEntries s.strategy (c.resolve s.registry) e.2) := by
  obtain ⟨js, _, hm⟩ := Pass.model_of_reads h.properties h.reads
  obtain ⟨vs, hreads, hvs⟩ := h.reads.entries hh
  have hmain := h.runs.main_entries
  rw [Pass.model_opened] at hvs hreads
  rw [hreads, Pass.main_entries_opened, empty_append, hm] at hmain
  exact ⟨vs, hvs, hmain⟩

theorem Course.proxy_entries (hw : s.weaver.Plain) (h : Course s c rs es p q) :
    q.proxyEntries =
      total (es.map fun e => e.1.proxyEntries s.registry (c.resolve s.registry) e.2) := by
  obtain ⟨js, _, hm⟩ := Pass.model_of_reads h.properties h.reads
  have hp : p.proxyEntries = (Pass.opened s c).proxyEntries := by
    unfold Pass.proxyEntries
    rw [h.reads.proxy_eq]
  have hproxy := h.runs.proxy_entries hw
  rw [hp, Pass.proxy_entries_opened hw, empty_append, hm] at hproxy
  exact hproxy

theorem Course.adapter_entries (hw : s.weaver.Plain) (h : Course s c rs es p q) :
    ∀ a ∈ q.adapters, a.entries = {} := by
  refine h.runs.entries_adapter hw ?_
  rw [h.reads.adapters_eq, Pass.adapters_opened]
  simp

/-- The lists of the main plan are those of the values that properties give and those of the candidates. -/
theorem Course.memberLists_main (hh : s.strategy.handler.Plain)
    (h : Course s c (rs.map fun e => (e.1.resolve s.registry, e.2))
      (es.map fun e => (e.1.seen s.registry, e.2)) p q) :
    ∃ vs, vs.map some = Pass.settersOf c s.strategy.optionalFieldValues rs ∧
      q.main.memberLists = { setterValues := vs } ++
        total (es.map fun e => e.1.listing c s.strategy.optionalFieldValues e.2) := by
  obtain ⟨vs, hvs, hmain⟩ := h.main_entries hh
  rw [Pass.settersOf_resolve] at hvs
  refine ⟨vs, hvs, ?_⟩
  rw [Plan.memberLists, hmain, lists_append, lists_total, List.map_map, List.map_map]
  congr 2
  refine List.map_congr_left fun e _ => ?_
  rw [← Candidate.listing_seen c s.registry, ← Candidate.lists_mainEntries]
  rfl

theorem Course.accounts (hh : s.strategy.handler.Plain) (hw : s.weaver.Plain)
    (h : Course s c rs es p q) : ∃ xs ys, q.planSet.Accounts s c xs ys := by
  obtain ⟨xs, ys, htells, rfl, rfl⟩ := h.tells
  obtain ⟨vs, hvs, hlists⟩ := h.memberLists_main hh
  have hset : (xs.filter (·.2 = .property)).filterMap
      (fun e => c.setterValue? s.strategy.optionalFieldValues e.1) = vs := by
    have hid := congrArg (List.filterMap id) hvs
    simpa [Pass.settersOf, List.filterMap_map, Function.comp_def] using hid.symm
  refine ⟨xs, ys, ⟨htells, ?_, ?_, ?_, ?_, ?_⟩⟩
  · have hq : q.planSet.main = q.main := rfl
    rw [hq, hlists, Candidate.total_listing, hset]
    simp [append_def, append]
  · intro e he hd
    have hmem : c.setterValue? s.strategy.optionalFieldValues e.1 ∈ vs.map some := by
      rw [hvs]
      exact List.mem_map.2 ⟨e, List.mem_filter.2 ⟨he, by simpa using hd⟩, rfl⟩
    obtain ⟨v, _, hv⟩ := List.mem_map.1 hmem
    rw [← hv]
    rfl
  · intro hnoop
    have hunclaimed : ∀ e ∈ xs, e.2 = .unclaimed := fun e he => by
      have hd := h.reads.disposition_eq (Or.inl hnoop) (List.mem_map.2 ⟨e, he, rfl⟩)
      rw [Strategy.disposeProperty, hnoop] at hd
      exact hd
    have hnil : xs.filter (·.2 = .property) = [] :=
      List.filter_eq_nil_iff.2 fun e he => by simp [hunclaimed e he]
    have hsetters : q.main.setterValues = vs := by
      have hq := congrArg Entries.setterValues hlists
      rw [Candidate.total_listing] at hq
      exact hq.trans (List.append_nil vs)
    rw [hnil] at hset
    exact hsetters.trans hset.symm
  · have hp : (q.planSet.proxy.map Plan.memberLists).getD {} = q.proxyEntries.lists := by
      simp only [Pass.planSet, Pass.proxyEntries]
      cases q.proxy <;> rfl
    rw [hp, h.proxy_entries hw, List.map_map]
    exact Candidate.total_advice c s.registry ys
  · intro a ha
    rw [Plan.memberLists, h.adapter_entries hw a ha]
    rfl

end Courses

/-- The plans of a class account for what became of its members: walking the candidates in order, each
list of each plan holds the members of some dispositions, and nothing else. -/
theorem build_accounts {s : Setting} {c : ClassModel} {set : PlanSet}
    (hh : s.strategy.handler = .noop ∨ s.strategy.handler = .configuration)
    (hw : s.weaver = .standard ∨ s.weaver = .declining) (h : (build s c).result = .ok set) :
    ∃ rs es, set.Accounts s c rs es := by
  obtain ⟨rs, es, p, q, hcourse, rfl⟩ := build_ok h
  have hweaver : s.weaver.Plain := by
    rcases hw with hw | hw
    · exact hw ▸ Weaver.standard_plain
    · exact hw ▸ Weaver.declining_plain
  exact hcourse.accounts (PropertyHandler.plain_of_either hh) hweaver

theorem build_accounts_of_inherited_callback :
    let c : ClassModel :=
      { name := "app.Service"
        methods := [{ name := "open", declaringType := "app.Base"
                      capabilities := CapabilitySet.empty.withDeclared Marker.postConstruct }] }
    ∃ set, (build {} c).result = .ok set ∧
      set.main.postConstructMethods = [⟨"app.Base", "open", "open()", false⟩] ∧
      ∃ rs es, set.Accounts {} c rs es := by
  intro c
  have hset : ∃ set, (build {} c).result = .ok set ∧
      set.main.postConstructMethods = [⟨"app.Base", "open", "open()", false⟩] := ⟨_, rfl, rfl⟩
  obtain ⟨set, h, hmain⟩ := hset
  exact ⟨set, h, hmain, build_accounts (Or.inl rfl) (Or.inl rfl) h⟩

end Wiring
