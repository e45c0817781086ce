import Mathlib.Data.List.Basic
import Wiring.Proofs.Marking

/-!
# Candidates

The members that a pass goes over, as fields and methods rather than positions: inherited fields,
inherited methods, declared fields, declared methods. Under a strategy that reads properties, what
makes up a property is left out.
-/

namespace Wiring

/-- A field or a method that classification goes over. -/
inductive Candidate where
  | field (f : FieldModel)
  | method (m : MethodModel)

def FieldModel.resolve (r : Registry) (f : FieldModel) : FieldModel :=
  { f with capabilities := f.capabilities.resolve r }

def MethodModel.resolve (r : Registry) (m : MethodModel) : MethodModel :=
  { m with
    capabilities := m.capabilities.resolve r
    parameters := m.parameters.map fun p => { p with capabilities := p.capabilities.resolve r } }

namespace MethodModel

variable (r : Registry) (m : MethodModel)

theorem bare_resolve : (m.resolve r).bare = m.bare := by
  simp [resolve, bare, ParameterModel.bare, Function.comp_def]

theorem bare_derived : ((m.resolve r).deriveValidated r).bare = m.bare := by
  rw [bare_deriveValidated, bare_resolve]

end MethodModel

namespace Candidate

def kind : Candidate → MemberKind
  | .field _ => .field
  | .method _ => .method

def member : Candidate → Member
  | .field f => f.member
  | .method m => m.member

def field? : Candidate → Option FieldModel
  | .field f => some f
  | .method _ => none

def method? : Candidate → Option MethodModel
  | .field _ => none
  | .method m => some m

/-- The candidate as it is when it is classified: resolved and, if it is a method that requires
validation, marked as validated. -/
def seen (r : Registry) : Candidate → Candidate
  | .field f => .field (f.resolve r)
  | .method m => .method ((m.resolve r).deriveValidated r)

end Candidate

namespace ClassModel

variable (c : ClassModel)

/-- Whether the field at a position is the field of a property. -/
def constitutesField (i : Nat) : Bool := c.properties.any fun p => c.backingIndex? p == some i

def constitutesMethod (i : Nat) : Bool :=
  c.properties.any fun p => c.readerIndex? p == some i || c.writerIndex? p == some i

/-- The fields that are enumerated, hidden ones included, with their positions. -/
def enumeratedFields (s : Strategy) : List (FieldModel × Nat) :=
  c.fields.zipIdx.filter fun e => !(s.readsProperties && c.constitutesField e.2)

def enumeratedMethods (s : Strategy) : List (MethodModel × Nat) :=
  c.methods.zipIdx.filter fun e => !(s.readsProperties && c.constitutesMethod e.2)

/-- The candidates in the order in which they are classified. -/
def candidates (s : Strategy) : List Candidate :=
  let fields := (c.enumeratedFields s).map (·.1)
  let methods := (c.enumeratedMethods s).map (·.1)
  (fields.filter (!·.member.isDeclaredOn c)).map .field ++
    (methods.filter (!·.member.isDeclaredOn c)).map .method ++
    (fields.filter (·.member.isDeclaredOn c)).map .field ++
    (methods.filter (·.member.isDeclaredOn c)).map .method

def candidate? : MemberSlot → Option Candidate
  | .field i => c.fields[i]?.map .field
  | .method i => c.methods[i]?.map .method

/-- The candidate at a position, marked as validated if it requires it. -/
def derived? (r : Registry) : MemberSlot → Option Candidate
  | .field i => c.fields[i]?.map .field
  | .method i => c.methods[i]?.map fun m => .method (m.deriveValidated r)

theorem constitutesField_iff {i : Nat} : c.constitutesField i = c.propertyFields.contains i := by
  rw [Bool.eq_iff_iff]
  simp [constitutesField, propertyFields]

theorem constitutesMethod_iff {i : Nat} : c.constitutesMethod i = c.propertyMethods.contains i := by
  rw [Bool.eq_iff_iff]
  simp [constitutesMethod, propertyMethods]

theorem methods_resolve (r : Registry) : (c.resolve r).methods = c.methods.map (·.resolve r) := rfl

theorem constitutesMethod_of_mem_accessors {c : ClassModel} {x : PropertyModel} (hx : x ∈ c.properties)
    {i : Nat} (hi : i ∈ c.accessors x) : c.constitutesMethod i = true := by
  rw [constitutesMethod_iff]
  simp only [List.contains_iff_mem, propertyMethods, List.mem_flatMap]
  exact ⟨x, hx, hi⟩

theorem constitutesMethod_resolve (r : Registry) (i : Nat) :
    (c.resolve r).constitutesMethod i = c.constitutesMethod i := by
  rw [constitutesMethod_iff, constitutesMethod_iff, ← (c.resolve r).propertyMethods_bare,
    c.bare_resolve, c.propertyMethods_bare]

/-! ## Positions and what stands there -/

theorem filterMap_positions {α β : Type} {l : List α} {es : List (α × Nat)}
    (hes : ∀ e ∈ es, l[e.2]? = some e.1) {p : Nat → Bool} {q : α → Bool}
    (hpq : ∀ e ∈ es, p e.2 = q e.1) (g : α → β) :
    ((es.map (·.2)).filter p).filterMap (fun i => l[i]?.map g) = ((es.map (·.1)).filter q).map g := by
  induction es with
  | nil => rfl
  | cons e es ih =>
      have he := hes e List.mem_cons_self
      have hpe := hpq e List.mem_cons_self
      have ih := ih (fun e h => hes e (List.mem_cons_of_mem _ h))
        (fun e h => hpq e (List.mem_cons_of_mem _ h))
      simp only [List.map_cons, List.filter_cons, hpe]
      cases q e.1 <;> simp [he, ih]

theorem fieldIndices_query (s : Strategy) :
    c.fieldIndices { Pass.query s with includeHidden := true } =
      (c.enumeratedFields s).map (·.2) := by
  simp [fieldIndices, Pass.query, enumeratedFields, constitutesField_iff]

theorem methodIndices_query (s : Strategy) :
    c.methodIndices (Pass.query s) = (c.enumeratedMethods s).map (·.2) := by
  simp [methodIndices, Pass.query, enumeratedMethods, constitutesMethod_iff]

variable {c}

theorem getElem?_of_enumeratedFields {s : Strategy} {e : FieldModel × Nat}
    (h : e ∈ c.enumeratedFields s) : c.fields[e.2]? = some e.1 :=
  List.mem_zipIdx_iff_getElem?.1 (List.mem_filter.1 h).1

theorem getElem?_of_enumeratedMethods {s : Strategy} {e : MethodModel × Nat}
    (h : e ∈ c.enumeratedMethods s) : c.methods[e.2]? = some e.1 :=
  List.mem_zipIdx_iff_getElem?.1 (List.mem_filter.1 h).1

theorem declaresField_eq {i : Nat} {f : FieldModel} (h : c.fields[i]? = some f) :
    c.declaresField i = f.member.isDeclaredOn c := by
  simp [declaresField, h, Member.isDeclaredOn, FieldModel.member]

theorem declaresMethod_eq {i : Nat} {m : MethodModel} (h : c.methods[i]? = some m) :
    c.declaresMethod i = m.member.isDeclaredOn c := by
  simp [declaresMethod, h, Member.isDeclaredOn, MethodModel.member]

theorem filterMap_candidate? (s : Strategy) :
    (Pass.slots s c).filterMap c.candidate? = c.candidates s := by
  have hf (p : FieldModel → Bool) (d : Nat → Bool)
      (h : ∀ i f, c.fields[i]? = some f → d i = p f) := filterMap_positions
    (fun e => getElem?_of_enumeratedFields (c := c) (s := s) (e := e))
    (p := d) (q := p) (fun e he => h e.2 e.1 (getElem?_of_enumeratedFields he)) Candidate.field
  have hm (p : MethodModel → Bool) (d : Nat → Bool)
      (h : ∀ i m, c.methods[i]? = some m → d i = p m) := filterMap_positions
    (fun e => getElem?_of_enumeratedMethods (c := c) (s := s) (e := e))
    (p := d) (q := p) (fun e he => h e.2 e.1 (getElem?_of_enumeratedMethods he)) Candidate.method
  simp only [Pass.slots, order, List.filterMap_append, List.filterMap_map, fieldIndices_query,
    methodIndices_query, candidates]
  congr 1
  · congr 1
    · congr 1
      · exact hf _ _ fun i f h => congrArg (!·) (declaresField_eq h)
      · exact hm _ _ fun i m h => congrArg (!·) (declaresMethod_eq h)
    · exact hf _ _ fun i f h => declaresField_eq h
  · exact hm _ _ fun i m h => declaresMethod_eq h

/-- Inherited candidates come before declared ones. -/
theorem candidates_pairwise (s : Strategy) :
    (c.candidates s).Pairwise fun x y =>
      x.member.isDeclaredOn c = true → y.member.isDeclaredOn c = true := by
  simp only [candidates]
  rw [List.append_assoc, List.pairwise_append]
  refine ⟨?_, ?_, ?_⟩
  · apply List.pairwise_of_forall_mem_list
    intro x hx y hy hd
    simp only [List.mem_append, List.mem_map, List.mem_filter] at hx
    rcases hx with ⟨f, ⟨_, hf⟩, rfl⟩ | ⟨m, ⟨_, hm⟩, rfl⟩
    · simp_all [Candidate.member]
    · simp_all [Candidate.member]
  · apply List.pairwise_of_forall_mem_list
    intro x hx y hy hd
    simp only [List.mem_append, List.mem_map, List.mem_filter] at hy
    rcases hy with ⟨f, ⟨_, hf⟩, rfl⟩ | ⟨m, ⟨_, hm⟩, rfl⟩
    · exact hf
    · exact hm
  · intro x hx y hy hd
    simp only [List.mem_append, List.mem_map, List.mem_filter] at hy
    rcases hy with ⟨f, ⟨_, hf⟩, rfl⟩ | ⟨m, ⟨_, hm⟩, rfl⟩
    · exact hf
    · exact hm

theorem mem_methods_of_candidates {s : Strategy} {m : MethodModel} (h : .method m ∈ c.candidates s) :
    m ∈ c.methods := by
  have hm : m ∈ (c.enumeratedMethods s).map (·.1) := by
    simp only [candidates, List.mem_append, List.mem_map, List.mem_filter, reduceCtorEq, and_false,
      exists_false, false_or, or_false, Candidate.method.injEq, exists_eq_right] at h
    simpa only [List.mem_map] using h.elim And.left And.left
  obtain ⟨e, he, rfl⟩ := List.mem_map.1 hm
  exact List.mem_of_getElem? (getElem?_of_enumeratedMethods he)

theorem mem_fields_of_candidates {s : Strategy} {f : FieldModel} (h : .field f ∈ c.candidates s) :
    f ∈ c.fields := by
  have hf : f ∈ (c.enumeratedFields s).map (·.1) := by
    simp only [candidates, List.mem_append, List.mem_map, List.mem_filter, reduceCtorEq, and_false,
      exists_false, or_false, Candidate.field.injEq, exists_eq_right] at h
    simpa only [List.mem_map] using h.elim And.left And.left
  obtain ⟨e, he, rfl⟩ := List.mem_map.1 hf
  exact List.mem_of_getElem? (getElem?_of_enumeratedFields he)

/-! ## Candidates as they are seen -/

theorem not_constitutes_of_mem_slots {s : Strategy} {i : Nat}
    (h : MemberSlot.method i ∈ Pass.slots s c) (hs : s.readsProperties = true) :
    c.constitutesMethod i = false := by
  have hi : i ∈ (c.enumeratedMethods s).map (·.2) := by
    rw [← methodIndices_query]
    simp only [Pass.slots, order, List.mem_append, List.mem_map, List.mem_filter, reduceCtorEq,
      MemberSlot.method.injEq, and_false, exists_false, false_or, or_false, exists_eq_right] at h
    exact h.elim And.left And.left
  obtain ⟨e, he, rfl⟩ := List.mem_map.1 hi
  simpa [hs] using (List.mem_filter.1 he).2

section Seen

variable {c' : ClassModel} {r : Registry} {s : Strategy} {js : List Nat}

/-- What stands at a position that is gone over is not marked as part of a property. -/
theorem derived?_eq_seen (hc' : c' = (c.resolve r).modifyMethods (·.markValidated r) js)
    (hjs : ∀ j ∈ js, s.readsProperties = true ∧ c.constitutesMethod j = true) {slot : MemberSlot}
    (hslot : slot ∈ Pass.slots s c) : c'.derived? r slot = (c.candidate? slot).map (Candidate.seen r) := by
  cases slot with
  | field i =>
      have hi : c'.fields[i]? = c.fields[i]?.map (·.resolve r) := by
        rw [hc']
        exact List.getElem?_map
      simp [derived?, candidate?, hi, Function.comp_def, Candidate.seen]
  | method i =>
      have hi : i ∉ js := by
        intro hj
        obtain ⟨hs, hc⟩ := hjs i hj
        simp [not_constitutes_of_mem_slots hslot hs] at hc
      have hm : c'.methods[i]? = c.methods[i]?.map (·.resolve r) := by
        rw [hc', getElem?_modifyMethods (fun m => m.markValidated_markValidated r) js i,
          methods_resolve]
        simp [hi, Function.comp_def]
      simp [derived?, candidate?, hm, Function.comp_def, Candidate.seen]

theorem bare_of_marks (hc' : c' = (c.resolve r).modifyMethods (·.markValidated r) js) :
    c'.bare = c.bare := by
  rw [hc', bare_modifyMethods (fun m => m.bare_markValidated r), bare_resolve]

theorem filterMap_derived? (hc' : c' = (c.resolve r).modifyMethods (·.markValidated r) js)
    (hjs : ∀ j ∈ js, s.readsProperties = true ∧ c.constitutesMethod j = true) :
    (Pass.slots s c').filterMap (c'.derived? r) = (c.candidates s).map (Candidate.seen r) := by
  rw [slots_eq_of_bare (bare_of_marks hc'), ← filterMap_candidate?, List.map_filterMap]
  exact List.filterMap_congr fun slot hslot => derived?_eq_seen hc' hjs hslot

end Seen

end ClassModel

end Wiring
