import Wiring.Format.Class
import Wiring.Proofs.Decoding
import Wiring.Proofs.Frame

/-!
# Class files

A class file whose attributes hold no doubles is read back as it was written, except that nothing is cached
any more (`ClassBatch.readText_write`). What a class has cached does not show in its text, and two classes
with one text are otherwise the same (`ClassModel.text_eq_iff`).
-/

namespace Wiring

open Json Json.Codec Json.RecordField

/-! ## Attribute values -/

/-- The values of all attributes of a set. -/
def CapabilitySet.attributeValues (c : CapabilitySet) : List CanonicalJson :=
  (c.declared.values ++ c.inherited.values).flatMap (·.values)

def CapabilitySet.Exact (c : CapabilitySet) : Prop := ∀ v ∈ c.attributeValues, v.json.Exact

namespace Json

mutual

/-- No doubles at any level. -/
def DoubleFree : Json → Prop
  | .float _ => False
  | .arr items => DoubleFreeItems items
  | .obj members => DoubleFreeMembers members
  | _ => True

def DoubleFreeItems : List Json → Prop
  | [] => True
  | j :: js => DoubleFree j ∧ DoubleFreeItems js

def DoubleFreeMembers : List (String × Json) → Prop
  | [] => True
  | (_, j) :: ms => DoubleFree j ∧ DoubleFreeMembers ms

end

mutual

/-- In canonical form doubles are all that is inexact. -/
theorem exact_of_canonical : (j : Json) → j.Canonical → j.DoubleFree → j.Exact
  | .null, _, _ => trivial
  | .bool _, _, _ => trivial
  | .int _, hc, _ => hc
  | .str _, _, _ => trivial
  | .arr items, hc, h => exactItems_of_canonical items hc h
  | .obj members, hc, h => exactMembers_of_canonical members hc.2 h

theorem exactItems_of_canonical :
    (js : List Json) → CanonicalItems js → DoubleFreeItems js → ExactItems js
  | [], _, _ => trivial
  | j :: js, hc, h => ⟨exact_of_canonical j hc.1 h.1, exactItems_of_canonical js hc.2 h.2⟩

theorem exactMembers_of_canonical :
    (ms : List (String × Json)) → CanonicalMembers ms → DoubleFreeMembers ms → ExactMembers ms
  | [], _, _ => trivial
  | (_, j) :: ms, hc, h => ⟨exact_of_canonical j hc.1 h.1, exactMembers_of_canonical ms hc.2 h.2⟩

end

end Json

def CapabilitySet.DoubleFree (c : CapabilitySet) : Prop :=
  ∀ v ∈ c.attributeValues, v.json.DoubleFree

/-- No attribute of any capability set holds a double. -/
def ClassModel.DoubleFree (c : ClassModel) : Prop := ∀ x ∈ c.capabilitySets, x.DoubleFree

def ClassBatch.DoubleFree (b : ClassBatch) : Prop := ∀ c ∈ b.classes, c.DoubleFree

theorem CapabilitySet.DoubleFree.exact {c : CapabilitySet} (h : c.DoubleFree) : c.Exact :=
  fun v hv => Json.exact_of_canonical v.json v.canonical (h v hv)

/-! ## What is kept -/

theorem keeps_typeArguments (a : TypeArguments) : typeArgumentsCodec.Keeps a a :=
  keeps_map fun _ _ => keeps_map fun _ _ => keeps_string _

theorem keeps_markers {m : StringMap Attributes}
    (h : ∀ a ∈ m.values, ∀ v ∈ a.values, v.json.Exact) : (map (map value)).Keeps m m :=
  keeps_map fun a ha => keeps_map fun v hv =>
    keeps_value (h a.2 (List.mem_map_of_mem ha) v.2 (List.mem_map_of_mem hv))

theorem CapabilitySet.keeps {c : CapabilitySet} (h : c.Exact) : codec.Keeps c c.uncached :=
  keeps_record (by decide) <|
    .unlessBlank rfl StringMap.eq_empty_of_isEmpty (keeps_markers fun a ha v hv =>
      h v (List.mem_flatMap.2 ⟨a, List.mem_append_left _ ha, hv⟩)) <|
    .unlessBlank rfl StringMap.eq_empty_of_isEmpty (keeps_markers fun a ha v hv =>
      h v (List.mem_flatMap.2 ⟨a, List.mem_append_right _ ha, hv⟩)) (.nil _)

theorem CapabilitySet.uncached_of_isEmpty {c : CapabilitySet} (h : c.isEmpty = true) :
    c.uncached = {} := by
  obtain ⟨declared, inherited, resolved⟩ := c
  obtain ⟨hd, hi⟩ := Bool.and_eq_true_iff.1 h
  obtain rfl : declared = .empty := StringMap.eq_empty_of_isEmpty hd
  obtain rfl : inherited = .empty := StringMap.eq_empty_of_isEmpty hi
  rfl

section Fields

variable {σ : Type} {s t t' : σ} {fs : List (RecordField σ)} {get : σ → CapabilitySet}
  {set : CapabilitySet → σ → σ}

/-- The closure of a set is lost. -/
theorem fills_capabilities (ht : set {} t = t) (h : (get s).Exact)
    (rest : Fills s (set (get s).uncached t) fs t') :
    Fills s t (capabilitiesField get set :: fs) t' :=
  .unlessBlank ht CapabilitySet.uncached_of_isEmpty (CapabilitySet.keeps h) rest

end Fields

theorem keeps_members {α : Type} {c : Codec α} {f : α → α} {as : List α}
    (h : ∀ a ∈ as, c.Keeps a (f a)) : (list c).Keeps as (as.map f) :=
  keeps_list (List.forall₂_map_right_iff.2 (List.forall₂_same.2 h))

theorem Visibility.keeps (v : Visibility) : codec.Keeps v v := keeps_cases (by cases v <;> rfl)

theorem Dialect.keeps (d : Dialect) : codec.Keeps d d := keeps_cases (by cases d <;> rfl)

theorem ParameterModel.keeps {p : ParameterModel} (h : p.capabilities.Exact) :
    codec.Keeps p (p.mapSets .uncached) :=
  keeps_record (by decide) <| .required (keeps_string _) <| .required (keeps_string _) <|
    fills_capabilities rfl h (.nil _)

theorem keeps_parameters {ps : List ParameterModel} (h : ∀ p ∈ ps, p.capabilities.Exact) :
    (list ParameterModel.codec).Keeps ps (ps.map (·.mapSets .uncached)) :=
  keeps_members fun p hp => ParameterModel.keeps (h p hp)

theorem ConstructorModel.keeps {k : ConstructorModel} (h : ∀ c ∈ k.capabilitySets, c.Exact) :
    codec.Keeps k (k.mapSets .uncached) := by
  have hparameters : ∀ p ∈ k.parameters, p.capabilities.Exact := fun p hp =>
    h p.capabilities (List.mem_cons_of_mem _ (List.mem_map_of_mem hp))
  exact keeps_record (by decide) <| .defaulted k.visibility.keeps <|
    .defaulted (keeps_parameters hparameters) <|
    fills_capabilities rfl (h k.capabilities List.mem_cons_self) (.nil _)

theorem FieldModel.keeps {f : FieldModel} (h : f.capabilities.Exact) :
    codec.Keeps f (f.mapSets .uncached) :=
  keeps_record (by decide) <| .required (keeps_string _) <| .required (keeps_string _) <|
    .required (keeps_string _) <| .defaulted f.visibility.keeps <| .defaulted (keeps_boolean _) <|
    .defaulted (keeps_boolean _) <| .defaulted (keeps_boolean _) <| fills_capabilities rfl h (.nil _)

theorem MethodModel.keeps {m : MethodModel} (h : ∀ c ∈ m.capabilitySets, c.Exact) :
    codec.Keeps m (m.mapSets .uncached) := by
  have hparameters : ∀ p ∈ m.parameters, p.capabilities.Exact := fun p hp =>
    h p.capabilities (List.mem_cons_of_mem _ (List.mem_map_of_mem hp))
  exact keeps_record (by decide) <| .required (keeps_string _) <| .required (keeps_string _) <|
    .defaulted m.visibility.keeps <| .defaulted (keeps_boolean _) <| .defaulted (keeps_boolean _) <|
    .defaulted (keeps_boolean _) <| .defaulted (keeps_parameters hparameters) <|
    .optional rfl neverNull_string (fun _ _ => keeps_string _) <|
    fills_capabilities rfl (h m.capabilities List.mem_cons_self) (.nil _)

theorem PropertyModel.keeps {x : PropertyModel} (h : x.capabilities.Exact) :
    codec.Keeps x (x.mapSets .uncached) :=
  keeps_record (by decide) <| .required (keeps_string _) <| .required (keeps_string _) <|
    .optional rfl neverNull_string (fun _ _ => keeps_string _) <|
    .optional rfl neverNull_string (fun _ _ => keeps_string _) <|
    .optional rfl neverNull_string (fun _ _ => keeps_string _) <| fills_capabilities rfl h (.nil _)

theorem SupertypeModel.keeps {x : SupertypeModel} (h : x.capabilities.Exact) :
    codec.Keeps x (x.mapSets .uncached) :=
  keeps_record (by decide) <| .required (keeps_string _) <| fills_capabilities rfl h (.nil _)

theorem ClassModel.keeps {c : ClassModel} (h : ∀ x ∈ c.capabilitySets, x.Exact) :
    codec.Keeps c c.uncached := by
  simp only [capabilitySets, List.forall_mem_cons, List.forall_mem_append, List.forall_mem_map,
    List.mem_flatMap, Option.mem_toList, forall_exists_index, and_imp] at h
  obtain ⟨hown, ⟨⟨⟨hconstructor, hfields⟩, hmethods⟩, hproperties⟩, hsupertypes⟩ := h
  exact keeps_record (by decide) <| .required (keeps_string _) <| .defaulted (keeps_boolean _) <|
    .defaulted (keeps_boolean _) <| .defaulted c.dialect.keeps <| fills_capabilities rfl hown <|
    .unlessBlank rfl StringMap.eq_empty_of_isEmpty (keeps_typeArguments _) <|
    .unlessBlank rfl (fun hnone => by rw [Option.isNone_iff_eq_none.1 hnone, Option.map_none])
      (keeps_optional neverNull_record fun k hk =>
        ConstructorModel.keeps fun x hx => hconstructor x k hk hx) <|
    .defaulted (keeps_members fun f hf => FieldModel.keeps (hfields f hf)) <|
    .defaulted (keeps_members fun m hm => MethodModel.keeps fun x hx => hmethods x m hm hx) <|
    .defaulted (keeps_members fun p hp => PropertyModel.keeps (hproperties p hp)) <|
    .defaulted (keeps_members fun x hx => SupertypeModel.keeps (hsupertypes x hx)) (.nil _)

/-- The batch without what its classes have cached. -/
def ClassBatch.uncached (b : ClassBatch) : ClassBatch := { b with classes := b.classes.map (·.uncached) }

theorem ClassBatch.keeps {b : ClassBatch} (h : b.DoubleFree) : codec.Keeps b b.uncached :=
  keeps_record (by decide) <|
    .unlessBlank rfl StringMap.eq_empty_of_isEmpty
      (keeps_map fun _ _ => keeps_list (List.forall₂_same.2 fun _ _ => keeps_string _)) <|
    .defaulted (keeps_members fun c hc => ClassModel.keeps fun x hx => (h c hc x hx).exact) (.nil _)

theorem ClassBatch.readText_write {b : ClassBatch} (h : b.DoubleFree)
    (hd : (codec.write b).depth < 128) {text : String}
    (ht : text = (codec.write b).compact ∨ text = (codec.write b).pretty) :
    codec.readText text = .ok b.uncached :=
  (ClassBatch.keeps h).readText hd ht

/-! ## The text of a class -/

theorem Json.RecordField.members_congr {σ : Type} {fields : List (RecordField σ)} {s t : σ}
    (h : ∀ f ∈ fields, f.write s = f.write t) : members fields s = members fields t :=
  List.filterMap_congr fun f hf => by rw [h f hf]

theorem write_list_map {α : Type} {c : Codec α} {f : α → α} {as : List α}
    (h : ∀ a, c.write (f a) = c.write a) : (list c).write (as.map f) = (list c).write as := by
  have hwrite : c.write ∘ f = c.write := funext h
  have hmap : (as.map f).map c.write = as.map c.write := by rw [List.map_map, hwrite]
  exact congrArg Json.arr hmap

theorem ParameterModel.write_uncached (p : ParameterModel) :
    codec.write (p.mapSets .uncached) = codec.write p := rfl

theorem ConstructorModel.write_uncached (k : ConstructorModel) :
    codec.write (k.mapSets .uncached) = codec.write k := by
  refine congrArg Json.obj (members_congr ?_)
  simp only [List.forall_mem_cons]
  exact ⟨rfl, congrArg some (write_list_map ParameterModel.write_uncached), rfl, List.forall_mem_nil _⟩

theorem MethodModel.write_uncached (m : MethodModel) :
    codec.write (m.mapSets .uncached) = codec.write m := by
  refine congrArg Json.obj (members_congr ?_)
  simp only [List.forall_mem_cons]
  exact ⟨rfl, rfl, rfl, rfl, rfl, rfl,
    congrArg some (write_list_map ParameterModel.write_uncached), rfl, rfl, List.forall_mem_nil _⟩

theorem ClassModel.write_uncached (c : ClassModel) : codec.write c.uncached = codec.write c := by
  refine congrArg Json.obj (members_congr ?_)
  simp only [List.forall_mem_cons]
  refine ⟨rfl, rfl, rfl, rfl, rfl, rfl, ?_, congrArg some (write_list_map fun _ => rfl),
    congrArg some (write_list_map MethodModel.write_uncached), congrArg some (write_list_map fun _ => rfl),
    congrArg some (write_list_map fun _ => rfl), List.forall_mem_nil _⟩
  have hconstructor : c.uncached.primaryConstructor = c.primaryConstructor.map (·.mapSets .uncached) :=
    rfl
  simp only [RecordField.optional, RecordField.unlessBlank, hconstructor]
  cases c.primaryConstructor with
  | none => rfl
  | some k => exact congrArg some k.write_uncached

/-- The text of a class in its file. -/
def ClassModel.text (c : ClassModel) : String := (codec.write c).compact

theorem ClassModel.text_uncached (c : ClassModel) : c.uncached.text = c.text :=
  congrArg Json.compact c.write_uncached

theorem ClassModel.text_eq_iff {c d : ClassModel} (hc : c.DoubleFree) (hd : d.DoubleFree) :
    c.text = d.text ↔ c.uncached = d.uncached := by
  constructor
  · intro htext
    exact (ClassModel.keeps fun x hx => (hc x hx).exact).eq_of_compact_eq
      (ClassModel.keeps fun x hx => (hd x hx).exact) htext
  · intro huncached
    rw [← c.text_uncached, huncached, d.text_uncached]

end Wiring
