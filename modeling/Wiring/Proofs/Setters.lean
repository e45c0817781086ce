import Mathlib.Data.List.Forall2
import Wiring.Proofs.Accounts

/-!
# Setters

A property that is claimed gives its value to its writer, which the plan always says can be called without
reflection. That is true just of writers that are accessible from the class; all other members are referred to
with the need for reflection that they have (`build_binds`).
-/

namespace Wiring

/-- A property gives its value to a method, which is told to be called directly. -/
structure ClassModel.Gives (c : ClassModel) (optional : Bool) (x : PropertyModel) (m : MethodModel)
    (v : SetterValue) : Prop where
  writer : c.writer? x = some m
  visible : m.visibility ≠ .priv
  unshared : m.isStatic = false
  value : v = ⟨x.name, .of m false, optional⟩
  truthful : v.setter.requiresReflection = m.member.requiresReflection c ↔
    m.member.isAccessibleFrom c = true

/-- Claimed properties give their values to their writers, in their order; what is told about reflection is
true of all other references. -/
structure PlanSet.Binds (set : PlanSet) (s : Setting) (c : ClassModel)
    (rs : List (PropertyModel × Disposition)) (es : List (Candidate × Disposition)) : Prop
    extends set.Tells s.strategy c rs es where
  claimed : ∀ x d, (x, d) ∈ rs → (d = .property ↔ c.binds x = true)
  setters : List.Forall₂ (fun x v => ∃ m, c.Gives s.strategy.optionalFieldValues x m v)
    ((rs.filter (·.2 = .property)).map (·.1)) set.main.setterValues
  postConstruct : set.main.postConstructMethods =
    (methodsWith (·.isPostConstruct) es).map fun m => .of m (m.member.requiresReflection c)
  preDestroy : set.main.preDestroyMethods =
    (methodsWith (·.isPreDestroy) es).map fun m => .of m (m.member.requiresReflection c)
  injected : set.main.methodInjectionPoints =
    (methodsWith (· = .methodInjection) es).map fun m => .of m (m.member.requiresReflection c)
  fields : set.main.fieldInjectionPoints =
    (fieldsWith (· = .fieldInjection) es).map fun f => .of f (f.member.requiresReflection c)
  values : set.main.fieldValues.map (·.field) =
    (fieldsWith (· = .fieldValue) es).map fun f => .of f (f.member.requiresReflection c)

theorem forall₂_of_map_some {α β : Type} {f : α → Option β} {l : List α} {vs : List β}
    (h : vs.map some = l.map f) : List.Forall₂ (fun a v => f a = some v) l vs := by
  have heq : List.Forall₂ (· = ·) (l.map f) (vs.map some) := by
    rw [h]
    exact List.forall₂_same.2 fun _ _ => rfl
  exact List.forall₂_map_right_iff.1 (List.forall₂_map_left_iff.1 heq)

namespace ClassModel

variable {c : ClassModel} {optional : Bool} {x : PropertyModel} {v : SetterValue}

theorem binds_resolve (r : Registry) (c : ClassModel) (x : PropertyModel) :
    (c.resolve r).binds (x.resolve r) = c.binds x := by
  rw [← binds_bare, bare_resolve]
  exact c.binds_bare x

theorem gives_of_binds (hb : c.binds x = true) (hv : c.setterValue? optional x = some v) :
    ∃ m, c.Gives optional x m v := by
  obtain ⟨m, hm, hvisible, hstatic⟩ := binds_iff.1 hb
  rw [setterValue?_eq, hm] at hv
  cases hv
  refine ⟨m, hm, hvisible, hstatic, rfl, ?_⟩
  -- What is told is that no reflection is needed.
  have htold : (MethodRef.of m false).requiresReflection = false := rfl
  rw [htold, Member.requiresReflection, eq_comm, Bool.not_eq_false']

end ClassModel

section Courses

variable {s : Setting} {c : ClassModel} {rs : List (PropertyModel × Disposition)}
  {es : List (Candidate × Disposition)} {p q : Pass} {set : PlanSet}

theorem Course.claimed_iff (hh : s.strategy.handler = .configuration) (h : Course s c rs es p q)
    {x : PropertyModel} {d : Disposition} (hx : (x.resolve s.registry, d) ∈ rs) :
    d = .property ↔ c.binds x = true := by
  have hd := h.reads.disposition_eq (Or.inr hh) hx
  rw [Strategy.disposeProperty, hh, PropertyHandler.claims_configuration, Pass.model_opened,
    ClassModel.binds_resolve] at hd
  rw [hd]
  cases c.binds x <;> simp

/-- Under the handler that binds setters, a class that is built has a value for each property whose writer is
neither private nor static, in the order of properties. The reference to the writer says that no reflection is
needed, which is true just if the writer is accessible from the class. References to lifecycle methods, to
injection points and to fields that take a value say what is true of them. -/
theorem build_binds (hh : s.strategy.handler = .configuration) (h : (build s c).result = .ok set) :
    ∃ rs es, set.Binds s c rs es := by
  obtain ⟨rs, es, p, q, hcourse, rfl⟩ := build_ok h
  obtain ⟨xs, ys, htells, rfl, rfl⟩ := hcourse.tells
  have hplain : s.strategy.handler.Plain := PropertyHandler.plain_of_either (Or.inr hh)
  obtain ⟨vs, hvs, hlists⟩ := hcourse.memberLists_main hplain
  rw [Candidate.total_listing] at hlists
  have hclaimed (x : PropertyModel) (d : Disposition) (hx : (x, d) ∈ xs) :
      d = .property ↔ c.binds x = true := hcourse.claimed_iff hh (List.mem_map.2 ⟨_, hx, rfl⟩)
  have hsetters : q.main.setterValues = vs :=
    (congrArg Entries.setterValues hlists).trans (List.append_nil vs)
  have hvalues := congrArg (List.map FieldValue.field) (congrArg Entries.fieldValues hlists)
  refine ⟨xs, ys, htells, hclaimed, ?_, congrArg Entries.postConstructMethods hlists,
    congrArg Entries.preDestroyMethods hlists, congrArg Entries.methodInjectionPoints hlists,
    congrArg Entries.fieldInjectionPoints hlists, hvalues.trans ?_⟩
  · have hsome := forall₂_of_map_some hvs
    have hmem : ∀ e ∈ xs.filter (·.2 = .property), c.binds e.1 = true := by
      intro e he
      obtain ⟨hx, hd⟩ := List.mem_filter.1 he
      exact (hclaimed e.1 e.2 hx).1 (by simpa using hd)
    have hgives := ((List.forall₂_and_left _ _).2 ⟨hmem, hsome⟩).imp fun e v hv =>
      ClassModel.gives_of_binds hv.1 hv.2
    rw [← hsetters] at hgives
    exact List.forall₂_map_left_iff.2 hgives
  · exact List.map_map

end Courses

theorem build_binds_of_public_setter :
    let setPort : MethodModel :=
      { name := "setPort", declaringType := "lib.Base", parameters := [{ name := "port" }] }
    let c : ClassModel :=
      { name := "app.Settings"
        methods := [setPort]
        properties := [{ name := "port", writeMethod := some "setPort" }, { name := "url" }] }
    ∃ set, (build { strategy := .ofMode .properties } c).result = .ok set ∧
      set.main.setterValues = [⟨"port", .of setPort false, true⟩] ∧
      ∃ rs es, set.Binds { strategy := .ofMode .properties } c rs es := by
  exact ⟨_, rfl, rfl, build_binds rfl rfl⟩

/-- A setter that is protected elsewhere is told to be called without reflection. -/
theorem foreign_setter_is_called_directly :
    let setHost : MethodModel :=
      { name := "setHost", declaringType := "lib.Base", visibility := .prot
        parameters := [{ name := "host", typeName := "String" }] }
    let c : ClassModel :=
      { name := "app.Settings"
        methods := [setHost]
        properties := [{ name := "host", typeName := "String", writeMethod := some "setHost" }] }
    setHost.member.requiresReflection c = true ∧
      ∃ set, (build { strategy := .ofMode .properties } c).result = .ok set ∧
        set.dispositions = [⟨.property, "app.Settings#host", .property⟩] ∧
        set.main.setterValues = [⟨"host", .of setHost false, true⟩] := by
  exact ⟨rfl, _, rfl, rfl, rfl⟩

end Wiring
