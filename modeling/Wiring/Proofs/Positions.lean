import Wiring.Proofs.Enumeration

/-!
# Positions of members

Which positions are found by name, which ones a query enumerates, and in what order positions are gone over.
What a query asks of a member is said of the member at its position (`TakesField`, `TakesMethod`), so it can
be compared with what is enumerated (`ClassModel.enumerates`). An order is given by its groups
(`ClassModel.arranges_order`), for positions in any order and with any repetitions.
-/

namespace Wiring

/-- The first position of a list at which there is such an element. -/
structure IsFirst {α : Type} (P : α → Prop) (l : List α) (i : Nat) : Prop where
  here : ∃ x, l[i]? = some x ∧ P x
  before : ∀ j < i, ∀ x, l[j]? = some x → ¬P x

theorem findIdx?_eq_some_iff_isFirst {α : Type} {p : α → Bool} {l : List α} {i : Nat} :
    l.findIdx? p = some i ↔ IsFirst (p · = true) l i := by
  rw [List.findIdx?_eq_some_iff_getElem]
  constructor
  · rintro ⟨hi, hp, hbefore⟩
    refine ⟨⟨l[i], List.getElem?_eq_getElem hi, hp⟩, fun j hj x hx => ?_⟩
    obtain ⟨_, rfl⟩ := List.getElem?_eq_some_iff.1 hx
    exact hbefore j hj
  · rintro ⟨⟨x, hx, hp⟩, hbefore⟩
    obtain ⟨hi, rfl⟩ := List.getElem?_eq_some_iff.1 hx
    exact ⟨hi, hp, fun j hj => hbefore j hj _ (List.getElem?_eq_getElem (Nat.lt_trans hj hi))⟩

namespace ClassModel

variable (c : ClassModel)

/-- The position of the first field of a name that is not hidden. -/
def IsVisibleField (name : String) (i : Nat) : Prop :=
  IsFirst (fun f : FieldModel => f.name = name ∧ f.hidden = false) c.fields i

/-- The position of the first method of a name with so many parameters. -/
def IsOverload (name : String) (arity i : Nat) : Prop :=
  IsFirst (fun m : MethodModel => m.name = name ∧ m.parameters.length = arity) c.methods i

/-- The field at a position makes up a property. -/
def BacksProperty (i : Nat) : Prop :=
  ∃ x ∈ c.properties, ∃ name, x.field = some name ∧ c.IsVisibleField name i

/-- The method at a position reads or writes a property. -/
def AccessesProperty (i : Nat) : Prop :=
  ∃ x ∈ c.properties, (∃ name, x.readMethod = some name ∧ c.IsOverload name 0 i) ∨
    ∃ name, x.writeMethod = some name ∧ c.IsOverload name 1 i

end ClassModel

/-- What a query asks of a field at a position. -/
structure ElementQuery.TakesField (q : ElementQuery) (c : ClassModel) (i : Nat) (f : FieldModel) :
    Prop where
  hidden : f.hidden = true → q.includeHidden = true
  declared : q.onlyDeclared = true → f.declaringType = c.name
  property : q.excludeProperties = true → ¬c.BacksProperty i

/-- What a query asks of a method at a position. -/
structure ElementQuery.TakesMethod (q : ElementQuery) (c : ClassModel) (i : Nat) (m : MethodModel) :
    Prop where
  declared : q.onlyDeclared = true → m.declaringType = c.name
  property : q.excludeProperties = true → ¬c.AccessesProperty i

namespace ClassModel

variable {c : ClassModel} {q : ElementQuery} {i : Nat}

/-! ## Members by name -/

theorem fieldIndex?_eq_some_iff {name : String} :
    c.fieldIndex? name = some i ↔ c.IsVisibleField name i := by
  rw [fieldIndex?, findIdx?_eq_some_iff_isFirst, IsVisibleField]
  simp

theorem methodIndex?_eq_some_iff {name : String} {arity : Nat} :
    c.methodIndex? name arity = some i ↔ c.IsOverload name arity i := by
  rw [methodIndex?, findIdx?_eq_some_iff_isFirst, IsOverload]
  simp

theorem mem_propertyFields : i ∈ c.propertyFields ↔ c.BacksProperty i := by
  simp only [propertyFields, List.mem_filterMap, backingIndex?, Option.bind_eq_some_iff,
    fieldIndex?_eq_some_iff, BacksProperty]

theorem mem_propertyMethods : i ∈ c.propertyMethods ↔ c.AccessesProperty i := by
  simp only [propertyMethods, List.mem_flatMap, List.mem_append, Option.mem_toList, readerIndex?,
    writerIndex?, Option.bind_eq_some_iff, methodIndex?_eq_some_iff, AccessesProperty]

/-! ## Enumerated members -/

theorem pairwise_positions {α : Type} (p : α × Nat → Bool) (l : List α) :
    ((l.zipIdx.filter p).map (·.2)).Pairwise (· < ·) := by
  have hsublist := (List.filter_sublist (l := l.zipIdx) (p := p)).map Prod.snd
  rw [List.zipIdx_map_snd] at hsublist
  exact (List.pairwise_lt_range' 1).sublist hsublist

theorem mem_positions {α : Type} {p : α × Nat → Bool} {l : List α} :
    i ∈ (l.zipIdx.filter p).map (·.2) ↔ ∃ x, l[i]? = some x ∧ p (x, i) = true := by
  simp only [List.mem_map, List.mem_filter, List.mem_zipIdx_iff_getElem?]
  constructor
  · rintro ⟨⟨x, j⟩, ⟨hx, hp⟩, rfl⟩
    exact ⟨x, hx, hp⟩
  · rintro ⟨x, hx, hp⟩
    exact ⟨(x, i), ⟨hx, hp⟩, rfl⟩

theorem mem_fieldIndices :
    i ∈ c.fieldIndices q ↔ ∃ f, c.fields[i]? = some f ∧ q.TakesField c i f := by
  rw [fieldIndices, mem_positions]
  refine exists_congr fun f => and_congr_right fun _ => ?_
  simp only [Bool.and_eq_true, Bool.or_eq_true, Bool.not_eq_true', Bool.eq_false_iff, ne_eq, beq_iff_eq,
    List.contains_iff_mem, mem_propertyFields, not_and]
  constructor
  · rintro ⟨⟨hhidden, hdeclared⟩, hproperty⟩
    exact ⟨fun hf => hhidden.resolve_right (not_not_intro hf),
      fun hq => hdeclared.resolve_left (not_not_intro hq), hproperty⟩
  · rintro ⟨hhidden, hdeclared, hproperty⟩
    exact ⟨⟨or_iff_not_imp_right.2 fun hf => hhidden (not_not.1 hf),
      or_iff_not_imp_left.2 fun hq => hdeclared (not_not.1 hq)⟩, hproperty⟩

theorem mem_methodIndices :
    i ∈ c.methodIndices q ↔ ∃ m, c.methods[i]? = some m ∧ q.TakesMethod c i m := by
  rw [methodIndices, mem_positions]
  refine exists_congr fun m => and_congr_right fun _ => ?_
  simp only [Bool.and_eq_true, Bool.or_eq_true, Bool.not_eq_true', Bool.eq_false_iff, ne_eq, beq_iff_eq,
    List.contains_iff_mem, mem_propertyMethods, not_and]
  constructor
  · rintro ⟨hdeclared, hproperty⟩
    exact ⟨fun hq => hdeclared.resolve_left (not_not_intro hq), hproperty⟩
  · rintro ⟨hdeclared, hproperty⟩
    exact ⟨or_iff_not_imp_left.2 fun hq => hdeclared (not_not.1 hq), hproperty⟩

/-- Positions are enumerated in ascending order, exactly those of the members that the query asks for. -/
structure Enumerates (c : ClassModel) (q : ElementQuery) : Prop where
  ascendingFields : (c.fieldIndices q).Pairwise (· < ·)
  fields : ∀ i, i ∈ c.fieldIndices q ↔ ∃ f, c.fields[i]? = some f ∧ q.TakesField c i f
  ascendingMethods : (c.methodIndices q).Pairwise (· < ·)
  methods : ∀ i, i ∈ c.methodIndices q ↔ ∃ m, c.methods[i]? = some m ∧ q.TakesMethod c i m

theorem enumerates (c : ClassModel) (q : ElementQuery) : c.Enumerates q :=
  ⟨pairwise_positions _ _, fun _ => mem_fieldIndices, pairwise_positions _ _,
    fun _ => mem_methodIndices⟩

theorem lt_of_mem_fieldIndices (hi : i ∈ c.fieldIndices q) : i < c.fields.length := by
  obtain ⟨f, hf, _⟩ := mem_fieldIndices.1 hi
  exact (List.getElem?_eq_some_iff.1 hf).1

theorem lt_of_mem_methodIndices (hi : i ∈ c.methodIndices q) : i < c.methods.length := by
  obtain ⟨m, hm, _⟩ := mem_methodIndices.1 hi
  exact (List.getElem?_eq_some_iff.1 hm).1

/-! ## The order of members -/

/-- The group in which a member is classified: whether it is declared on the class, and whether it is a
method. -/
def group (c : ClassModel) : MemberSlot → Bool × Bool
  | .field i => (c.declaresField i, false)
  | .method i => (c.declaresMethod i, true)

/-- The groups in their order. -/
def groups : List (Bool × Bool) := [(false, false), (false, true), (true, false), (true, true)]

variable {fields methods : List Nat}

theorem pair_beq (a b a' b' : Bool) : ((a, b) == (a', b')) = (a == a' && b == b') := by
  cases a <;> cases b <;> cases a' <;> cases b' <;> rfl

/-- Within a group, positions stay in the order in which they are given. -/
theorem filter_order (g : Bool × Bool) :
    (c.order fields methods).filter (c.group · == g) =
      (fields.map MemberSlot.field ++ methods.map MemberSlot.method).filter (c.group · == g) := by
  obtain ⟨declared, isMethod⟩ := g
  simp only [order, List.filter_append, List.filter_map, List.filter_filter, Function.comp_def, group,
    pair_beq]
  cases declared <;> cases isMethod <;> simp

/-- The groups come one after the other. -/
theorem order_eq_flatMap :
    c.order fields methods =
      groups.flatMap fun g => (c.order fields methods).filter (c.group · == g) := by
  simp only [filter_order]
  simp [order, groups, List.filter_map, Function.comp_def, group, pair_beq]

theorem order_perm :
    (c.order fields methods).Perm (fields.map MemberSlot.field ++ methods.map MemberSlot.method) := by
  rw [List.perm_iff_count]
  intro slot
  have hslot : (c.group slot == c.group slot) = true := beq_self_eq_true _
  have hcount (slots : List MemberSlot) :
      slots.count slot = (slots.filter (c.group · == c.group slot)).count slot :=
    (List.count_filter (p := (c.group · == c.group slot)) hslot).symm
  rw [hcount, filter_order, ← hcount]

/-- The members are those at the given positions, group after group, and within each group as given. -/
structure Arranges (c : ClassModel) (fields methods : List Nat) (slots : List MemberSlot) : Prop where
  perm : slots.Perm (fields.map MemberSlot.field ++ methods.map MemberSlot.method)
  stable : ∀ g, slots.filter (c.group · == g) =
    (fields.map MemberSlot.field ++ methods.map MemberSlot.method).filter (c.group · == g)
  grouped : slots = groups.flatMap fun g => slots.filter (c.group · == g)

theorem arranges_order (c : ClassModel) (fields methods : List Nat) :
    c.Arranges fields methods (c.order fields methods) :=
  ⟨order_perm, filter_order, order_eq_flatMap⟩

/-- The class has the member at a position. -/
def Has (c : ClassModel) : MemberSlot → Prop
  | .field i => i < c.fields.length
  | .method i => i < c.methods.length

section Within

variable (hf : ∀ i ∈ fields, i < c.fields.length) (hm : ∀ i ∈ methods, i < c.methods.length)

include hf hm

theorem order?_eq_some : c.order? fields methods = some (c.order fields methods) := by
  rw [order?, if_pos]
  simpa using ⟨hf, hm⟩

theorem has_of_mem_order {slot : MemberSlot} (h : slot ∈ c.order fields methods) : c.Has slot := by
  rw [order_perm.mem_iff, List.mem_append, List.mem_map, List.mem_map] at h
  rcases h with ⟨i, hi, rfl⟩ | ⟨i, hi, rfl⟩
  · exact hf i hi
  · exact hm i hi

end Within

end ClassModel

end Wiring
