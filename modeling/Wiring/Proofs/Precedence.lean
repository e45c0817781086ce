import Wiring.Proofs.Accounts

/-!
# Precedence

Every property that is read and every candidate has one disposition, in the order of classification, and
in each list of a plan what is inherited comes before what is declared on the class
(`build_precedence`).
-/

namespace Wiring

/-- Of two declaring types in one list, the second is the class itself if the first is. -/
def Precedes (name a b : String) : Prop := a = name → b = name

def Entries.declaringTypes (e : Entries) : List (List String) :=
  [e.postConstructMethods.map (·.declaringType), e.preDestroyMethods.map (·.declaringType),
    e.methodInjectionPoints.map (·.declaringType), e.fieldInjectionPoints.map (·.declaringType),
    e.fieldValues.map (·.field.declaringType), e.executableMethods.map (·.declaringType),
    e.aroundMethods.map (·.method.declaringType)]

/-- In each list, values of setters apart, what is inherited comes before what is declared on the class
of that name. -/
def Plan.InheritedFirst (p : Plan) (name : String) : Prop :=
  ∀ l ∈ p.entries.declaringTypes, l.Pairwise (Precedes name)

/-! ## What is selected keeps its order -/

theorem selected_sublist {α : Type} {sel : Candidate → Option α} {t : α → String}
    (hsel : ∀ x a, sel x = some a → t a = x.member.declaringType) (p : Disposition → Bool)
    (es : List (Candidate × Disposition)) :
    (((es.filter (p ·.2)).filterMap (sel ·.1)).map t).Sublist
      (es.map (·.1.member.declaringType)) := by
  induction es with
  | nil => exact .slnil
  | cons e es ih =>
      by_cases hp : p e.2 = true
      · cases hs : sel e.1 with
        | none =>
            simp only [List.filter_cons, hp, if_true, List.filterMap_cons, hs, List.map_cons]
            exact ih.cons _
        | some a =>
            simp only [List.filter_cons, hp, if_true, List.filterMap_cons, hs, List.map_cons,
              hsel e.1 a hs]
            exact ih.cons_cons _
      · simp only [List.filter_cons, hp, List.map_cons]
        exact ih.cons _

variable {s : Setting} {c : ClassModel} {rs : List (PropertyModel × Disposition)}
  {es : List (Candidate × Disposition)} {set : PlanSet}

theorem PlanSet.Tells.precedes (h : set.Tells s.strategy c rs es) :
    (es.map (·.1.member.declaringType)).Pairwise (Precedes c.name) := by
  have hc := ClassModel.candidates_pairwise (c := c) s.strategy
  rw [← h.candidates, List.pairwise_map] at hc
  rw [List.pairwise_map]
  refine hc.imp fun hd ha => ?_
  simp only [Member.isDeclaredOn, beq_iff_eq] at hd
  exact hd ha

theorem PlanSet.Tells.methodsWith_precedes (h : set.Tells s.strategy c rs es)
    (p : Disposition → Bool) :
    ((methodsWith p es).map (·.declaringType)).Pairwise (Precedes c.name) := by
  refine h.precedes.sublist (selected_sublist (fun x m hx => ?_) p es)
  cases x <;> cases hx
  rfl

theorem PlanSet.Tells.fieldsWith_precedes (h : set.Tells s.strategy c rs es)
    (p : Disposition → Bool) :
    ((fieldsWith p es).map (·.declaringType)).Pairwise (Precedes c.name) := by
  refine h.precedes.sublist (selected_sublist (fun x f hx => ?_) p es)
  cases x <;> cases hx
  rfl

theorem PlanSet.Accounts.inheritedFirst (h : set.Accounts s c rs es) :
    set.main.InheritedFirst c.name ∧ ∀ proxy ∈ set.proxy, proxy.InheritedFirst c.name := by
  have hmethods := h.methodsWith_precedes
  have hfields := h.fieldsWith_precedes
  constructor
  · intro l hl
    have hlists : set.main.entries.declaringTypes = set.main.memberLists.declaringTypes := rfl
    rw [hlists, h.main] at hl
    simp only [Entries.declaringTypes, List.map_map, Function.comp_def, List.mem_cons,
      List.not_mem_nil, or_false] at hl
    rcases hl with rfl | rfl | rfl | rfl | rfl | rfl | rfl
    · exact hmethods _
    · exact hmethods _
    · exact hmethods _
    · exact hfields _
    · exact hfields _
    · exact hmethods _
    · exact .nil
  · intro proxy hproxy l hl
    have hlists : proxy.entries.declaringTypes = proxy.memberLists.declaringTypes := rfl
    have hp := h.proxy
    rw [hproxy, Option.map_some, Option.getD_some] at hp
    rw [hlists, hp] at hl
    simp only [Entries.declaringTypes, List.map_nil, List.map_map, Function.comp_def, List.mem_cons,
      List.not_mem_nil, or_false] at hl
    rcases hl with rfl | rfl | rfl | rfl | rfl | rfl | rfl
    case inr.inr.inr.inr.inr.inr => exact hmethods _
    all_goals exact .nil

/-- Each property that is read and each candidate has one disposition: first the properties, then
inherited fields, inherited methods, declared fields and declared methods. So in each list of the main
plan and of the proxy, values of setters apart, what is inherited comes before what is declared. -/
theorem build_precedence (h : (build s c).result = .ok set) :
    set.dispositions.map (fun d => (d.kind, d.member)) =
        (if s.strategy.readsProperties then
          c.properties.map fun x => (.property, c.name ++ "#" ++ x.name)
        else []) ++
          (c.candidates s.strategy).map (fun x => (x.kind, x.member.description)) ∧
      ((s.strategy.handler = .noop ∨ s.strategy.handler = .configuration) → s.weaver = .standard →
        set.main.InheritedFirst c.name ∧ ∀ proxy ∈ set.proxy, proxy.InheritedFirst c.name) := by
  obtain ⟨rs, es, p, q, hcourse, rfl⟩ := build_ok h
  constructor
  · obtain ⟨xs, ys, htells, _, _⟩ := hcourse.tells
    have hproperties : (if s.strategy.readsProperties then
        c.properties.map fun x => (MemberKind.property, c.name ++ "#" ++ x.name) else []) =
          (xs.map (·.1)).map fun x => (MemberKind.property, c.name ++ "#" ++ x.name) := by
      rw [htells.properties]
      split <;> rfl
    rw [hproperties, ← htells.candidates, htells.dispositions, List.map_append]
    simp only [List.map_map, Function.comp_def]
  · intro hh hw
    obtain ⟨xs, ys, haccounts⟩ :=
      hcourse.accounts (PropertyHandler.plain_of_either hh) (hw ▸ Weaver.standard_plain)
    exact haccounts.inheritedFirst

theorem build_precedence_of_two_methods :
    let c : ClassModel :=
      { name := "app.Service"
        methods := [{ name := "run", declaringType := "app.Service" },
          { name := "open", declaringType := "app.Base" }] }
    ∃ set, (build {} c).result = .ok set ∧
      set.dispositions.map (fun d => (d.kind, d.member)) =
        [(.method, "app.Base#open()"), (.method, "app.Service#run()")] ∧
      set.main.InheritedFirst c.name := by
  intro c
  have hset : ∃ set, (build {} c).result = .ok set := ⟨_, rfl⟩
  obtain ⟨set, h⟩ := hset
  have hp := build_precedence h
  exact ⟨set, h, hp.1.trans rfl, (hp.2 (Or.inl rfl) rfl).1⟩

end Wiring
