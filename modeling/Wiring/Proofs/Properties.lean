import Wiring.Proofs.Course

/-!
# Properties

What makes up a property (`ClassModel.constituents`), when a value can be given to it (`ClassModel.binds`),
and which properties a handler claims (`PropertyHandler.claims`). A class tells all of it without its
capability sets.
-/

namespace Wiring

namespace ClassModel

variable (c : ClassModel) (x : PropertyModel)

def reader? : Option MethodModel := (c.readerIndex? x).bind (c.methods[·]?)

def writer? : Option MethodModel := (c.writerIndex? x).bind (c.methods[·]?)

def backing? : Option FieldModel := (c.backingIndex? x).bind (c.fields[·]?)

/-- The members that make up a property: its reader, its writer and its field, as far as there are. -/
def constituents : List Member :=
  ((c.reader? x).toList ++ (c.writer? x).toList).map (·.member) ++
    (c.backing? x).toList.map (·.member)

/-- Whether the property has a writer that is neither private nor static. -/
def binds : Bool := (c.writer? x).any fun m => m.visibility != .priv && !m.isStatic

variable {c x}

theorem binds_iff :
    c.binds x = true ↔ ∃ m, c.writer? x = some m ∧ m.visibility ≠ .priv ∧ m.isStatic = false := by
  simp [binds, Option.any_eq_true]

theorem mem_methods_of_writer? {m : MethodModel} (h : c.writer? x = some m) : m ∈ c.methods := by
  obtain ⟨i, _, hi⟩ := Option.bind_eq_some_iff.1 h
  exact List.mem_of_getElem? hi

/-! ## Without capability sets -/

variable (c x)

theorem reader?_bare : c.bare.reader? x.bare = (c.reader? x).map .bare := by
  have hm : c.bare.methods = c.methods.map .bare := rfl
  rw [reader?, c.readerIndex?_bare, hm, reader?]
  cases c.readerIndex? x <;> simp

theorem writer?_bare : c.bare.writer? x.bare = (c.writer? x).map .bare := by
  have hm : c.bare.methods = c.methods.map .bare := rfl
  rw [writer?, c.writerIndex?_bare, hm, writer?]
  cases c.writerIndex? x <;> simp

theorem backing?_bare : c.bare.backing? x.bare = (c.backing? x).map .bare := by
  have hf : c.bare.fields = c.fields.map .bare := rfl
  rw [backing?, c.backingIndex?_bare, hf, backing?]
  cases c.backingIndex? x <;> simp

theorem binds_bare : c.bare.binds x.bare = c.binds x := by
  rw [binds, writer?_bare, Option.any_map]
  rfl

variable {c} in
theorem binds_eq_of_bare {c' : ClassModel} (h : c'.bare = c.bare) : c'.binds x = c.binds x := by
  rw [← c.binds_bare, ← h, c'.binds_bare]

end ClassModel

theorem filterMap_toList_getElem? {α β : Type} (l : List α) (f : α → β) (o : Option Nat) :
    o.toList.filterMap (fun i => l[i]?.map f) = (o.bind (l[·]?)).toList.map f := by
  cases o with
  | none => rfl
  | some i => cases h : l[i]? <;> simp [h]

namespace Pass

/-- What makes up a property and is declared elsewhere names its declaring type. -/
theorem originsOf_eq (c : ClassModel) (x : PropertyModel) :
    originsOf c x = ((c.constituents x).map (·.declaringType)).filter (· != c.name) := by
  simp only [originsOf, ClassModel.accessors, List.filterMap_append, filterMap_toList_getElem?,
    ClassModel.constituents, ClassModel.reader?, ClassModel.writer?, ClassModel.backing?,
    List.map_append, List.filter_append, List.filter_map]
  rfl

theorem originsOf_bare (c : ClassModel) (x : PropertyModel) :
    originsOf c.bare x.bare = originsOf c x := by
  have hname : c.bare.name = c.name := rfl
  rw [originsOf_eq, originsOf_eq, hname, ClassModel.constituents, ClassModel.constituents,
    c.reader?_bare, c.writer?_bare, c.backing?_bare]
  congr 1
  cases c.reader? x <;> cases c.writer? x <;> cases c.backing? x <;> rfl

theorem originsOf_eq_of_bare {c c' : ClassModel} (h : c'.bare = c.bare) (x : PropertyModel) :
    originsOf c' x = originsOf c x := by
  rw [← originsOf_bare, h, originsOf_bare]

end Pass

/-! ## Values of properties -/

/-- The value that a property gives to its writer. -/
def ClassModel.setterValue? (c : ClassModel) (optional : Bool) (x : PropertyModel) :
    Option SetterValue :=
  ((c.writerIndex? x).bind (c.methods[·]?)).map fun m => ⟨x.name, .of m false, optional⟩

theorem ClassModel.setterValue?_eq (c : ClassModel) (optional : Bool) (x : PropertyModel) :
    c.setterValue? optional x =
      (c.writer? x).map fun m => ⟨x.name, .of m false, optional⟩ := rfl

theorem MethodRef.of_bare (m : MethodModel) (b : Bool) : MethodRef.of m.bare b = MethodRef.of m b := by
  simp only [MethodRef.of, MethodModel.signature_bare]
  rfl

theorem ClassModel.setterValue?_bare (c : ClassModel) (optional : Bool) (x : PropertyModel) :
    c.bare.setterValue? optional x.bare = c.setterValue? optional x := by
  rw [setterValue?_eq, setterValue?_eq, c.writer?_bare, Option.map_map]
  simp only [Function.comp_def, MethodRef.of_bare]
  rfl

theorem ClassModel.setterValue?_eq_of_bare {c c' : ClassModel} (h : c'.bare = c.bare) (optional : Bool)
    (x : PropertyModel) : c'.setterValue? optional x = c.setterValue? optional x := by
  rw [← c.setterValue?_bare, ← h, c'.setterValue?_bare]

/-- A handler that leaves a property as it is or gives its value to its writer. -/
def PropertyHandler.Plain (h : PropertyHandler) : Prop := ∀ c plan optional x,
  h.visit c plan optional x = .ok (false, plan) ∨
    ∃ v, c.setterValue? optional x = some v ∧
      h.visit c plan optional x = .ok (true, { plan with setterValues := plan.setterValues ++ [v] })

theorem PropertyHandler.noop_plain : noop.Plain := fun _ _ _ _ => Or.inl rfl

theorem PropertyHandler.configuration_visit (c : ClassModel) (plan : Plan) (optional : Bool)
    (x : PropertyModel) :
    configuration.visit c plan optional x =
      if c.binds x then
        .ok (true,
          { plan with
            setterValues := plan.setterValues ++ (c.setterValue? optional x).toList })
      else .ok (false, plan) := by
  have hwriter : (c.writerIndex? x).bind (c.methods[·]?) = c.writer? x := rfl
  rw [ClassModel.setterValue?_eq, ClassModel.binds]
  simp only [configuration, hwriter]
  cases c.writer? x with
  | none => rfl
  | some m => cases hv : m.visibility <;> cases hs : m.isStatic <;> simp [hv, hs, Plan.addSetterValue]

theorem PropertyHandler.configuration_plain : configuration.Plain := by
  intro c plan optional x
  rw [configuration_visit]
  by_cases hx : c.binds x = true
  · obtain ⟨m, hm, _⟩ := ClassModel.binds_iff.1 hx
    have hv : c.setterValue? optional x = some ⟨x.name, .of m false, optional⟩ :=
      Option.map_eq_some_iff.2 ⟨m, hm, rfl⟩
    exact Or.inr ⟨_, hv, by rw [if_pos hx, hv]; rfl⟩
  · exact Or.inl (if_neg hx)

/-- A plain handler leaves alone whatever does not depend on the values of setters. -/
theorem PropertyHandler.Plain.keeps {α : Type} {f : Plan → α} {h : PropertyHandler} (hp : h.Plain)
    (hf : ∀ plan vs, f { plan with setterValues := vs } = f plan) : h.Keeps f := by
  intro c plan optional x claimed main hv
  rcases hp c plan optional x with hx | ⟨v, _, hx⟩
  · rw [hx] at hv
    cases hv
    rfl
  · rw [hx] at hv
    cases hv
    exact hf plan _

theorem PropertyHandler.Plain.total {h : PropertyHandler} (hp : h.Plain) : h.Total := by
  intro c plan optional x v hv
  rcases hp c plan optional x with hx | ⟨_, _, hx⟩ <;> simp [hx] at hv

theorem PropertyHandler.plain_of_either {h : PropertyHandler} (hh : h = noop ∨ h = configuration) :
    h.Plain := by
  rcases hh with rfl | rfl
  · exact noop_plain
  · exact configuration_plain

/-! ## Claimed properties -/

/-- Whether a handler claims a property. -/
def PropertyHandler.claims (h : PropertyHandler) (c : ClassModel) (x : PropertyModel) : Bool :=
  match h.visit c (Plan.new "" "" .bean) false x with
  | .ok (claimed, _) => claimed
  | .error _ => false

def Strategy.disposeProperty (s : Strategy) (c : ClassModel) (x : PropertyModel) : Disposition :=
  if s.handler.claims c x then .property else .unclaimed

theorem Strategy.filter_disposeProperty (s : Strategy) (c : ClassModel) (xs : List PropertyModel) :
    (xs.map fun x => (x, s.disposeProperty c x)).filter (fun e => e.2 = .property) =
      (xs.filter (s.handler.claims c)).map fun x => (x, s.disposeProperty c x) := by
  rw [List.filter_map]
  congr 1
  refine List.filter_congr fun x _ => ?_
  simp only [Function.comp_apply, disposeProperty]
  cases s.handler.claims c x <;> rfl

namespace PropertyHandler

theorem claims_configuration (c : ClassModel) (x : PropertyModel) :
    configuration.claims c x = c.binds x := by
  rw [claims, configuration_visit]
  cases c.binds x <;> rfl

variable {h : PropertyHandler}

theorem visit_of_either (hh : h = noop ∨ h = configuration) (c : ClassModel) (plan : Plan)
    (optional : Bool) (x : PropertyModel) :
    ∃ main, h.visit c plan optional x = .ok (h.claims c x, main) := by
  rcases hh with rfl | rfl
  · exact ⟨plan, rfl⟩
  · rw [configuration_visit, claims_configuration]
    cases c.binds x <;> exact ⟨_, rfl⟩

theorem claims_bare (hh : h = noop ∨ h = configuration) (c : ClassModel) (x : PropertyModel) :
    h.claims c.bare x.bare = h.claims c x := by
  rcases hh with rfl | rfl
  · rfl
  · rw [claims_configuration, claims_configuration, c.binds_bare]

theorem claims_eq_of_bare (hh : h = noop ∨ h = configuration) {c c' : ClassModel}
    (hc : c'.bare = c.bare) (x : PropertyModel) : h.claims c' x = h.claims c x := by
  rw [← claims_bare hh c, ← hc, claims_bare hh c']

end PropertyHandler

namespace Pass

variable {s : Setting} {p q : Pass} {d : Disposition}

theorem Claims.disposition_eq
    (hh : s.strategy.handler = .noop ∨ s.strategy.handler = .configuration) {x : PropertyModel}
    (h : Claims s p x d q) : d = s.strategy.disposeProperty p.model x := by
  have hbare := bare_validateAccessors p.model s.registry x
  obtain ⟨main, hvisit⟩ := PropertyHandler.visit_of_either hh
    (p.model.validateAccessors s.registry x) p.main s.strategy.optionalFieldValues x
  rw [PropertyHandler.claims_eq_of_bare hh hbare] at hvisit
  rw [Strategy.disposeProperty]
  cases h with
  | left hv =>
      rw [hv] at hvisit
      cases hc : s.strategy.handler.claims p.model x with
      | true => rw [hc] at hvisit; cases hvisit
      | false => rfl
  | claimed hv _ =>
      rw [hv] at hvisit
      cases hc : s.strategy.handler.claims p.model x with
      | true => rfl
      | false => rw [hc] at hvisit; cases hvisit

theorem Reads.eq_map (hh : s.strategy.handler = .noop ∨ s.strategy.handler = .configuration)
    {rs : List (PropertyModel × Disposition)} (h : Reads s p rs q) :
    rs = (rs.map (·.1)).map fun x => (x, s.strategy.disposeProperty p.model x) := by
  induction h with
  | nil p => rfl
  | @cons p q p' x d rs hx _ ih =>
      have hbare : q.model.bare = p.model.bare := by rw [hx.model_eq, bare_validateAccessors]
      have hd (x : PropertyModel) : s.strategy.disposeProperty q.model x =
          s.strategy.disposeProperty p.model x := by
        rw [Strategy.disposeProperty, PropertyHandler.claims_eq_of_bare hh hbare]
        rfl
      simp only [hd] at ih
      rw [List.map_cons, List.map_cons, ← ih, hx.disposition_eq hh]

theorem Reads.disposition_eq (hh : s.strategy.handler = .noop ∨ s.strategy.handler = .configuration)
    {rs : List (PropertyModel × Disposition)} (h : Reads s p rs q) {x : PropertyModel}
    (hx : (x, d) ∈ rs) : d = s.strategy.disposeProperty p.model x := by
  rw [h.eq_map hh] at hx
  obtain ⟨y, _, hy⟩ := List.mem_map.1 hx
  cases hy
  rfl

end Pass

end Wiring
