import Mathlib.Data.List.Nodup
import Wiring.Proofs.Course

/-!
# Looking up dispositions

Dispositions are looked up by description alone, and the first of a description counts. Properties come before
fields and methods. So where descriptions are different within each of these two groups, each property is found,
and each field or method whose description is not that of a property that was read (`build_looks_up`).
-/

namespace Wiring

/-! ## Different descriptions -/

namespace ClassModel

/-- The description of a property. -/
def describe (c : ClassModel) (x : PropertyModel) : String := c.name ++ "#" ++ x.name

/-- No two fields or methods have the same description, and no two properties the same name. -/
structure Distinct (c : ClassModel) : Prop where
  members : (c.fields.map (·.member.description) ++ c.methods.map (·.member.description)).Nodup
  properties : (c.properties.map (·.name)).Nodup

variable {c : ClassModel}

theorem Distinct.nodup_properties (h : c.Distinct) : (c.properties.map c.describe).Nodup := by
  have hdescribe : c.properties.map c.describe =
      (c.properties.map (·.name)).map (c.name ++ "#" ++ ·) := by
    rw [List.map_map]
    rfl
  rw [hdescribe]
  exact List.Nodup.map (fun _ _ => (String.append_right_inj _).1) h.properties

theorem enumeratedFields_sublist (c : ClassModel) (s : Strategy) :
    ((c.enumeratedFields s).map (·.1)).Sublist c.fields := by
  have h := (List.filter_sublist (l := c.fields.zipIdx)
    (p := fun e => !(s.readsProperties && c.constitutesField e.2))).map Prod.fst
  rwa [List.zipIdx_map_fst] at h

theorem enumeratedMethods_sublist (c : ClassModel) (s : Strategy) :
    ((c.enumeratedMethods s).map (·.1)).Sublist c.methods := by
  have h := (List.filter_sublist (l := c.methods.zipIdx)
    (p := fun e => !(s.readsProperties && c.constitutesMethod e.2))).map Prod.fst
  rwa [List.zipIdx_map_fst] at h

/-- The candidates are the fields and methods that are enumerated, each once. -/
theorem candidates_perm (c : ClassModel) (s : Strategy) :
    (c.candidates s).Perm (((c.enumeratedFields s).map (·.1)).map Candidate.field ++
      ((c.enumeratedMethods s).map (·.1)).map Candidate.method) := by
  have hsplit {α : Type} (p : α → Bool) (f : α → Candidate) (l : List α) :
      ((l.filter (!p ·)).map f ++ (l.filter p).map f).Perm (l.map f) := by
    rw [← List.map_append]
    exact (List.perm_append_comm.trans (List.filter_append_perm p l)).map f
  refine .trans ?_ ((hsplit (·.member.isDeclaredOn c) _ _).append (hsplit (·.member.isDeclaredOn c) _ _))
  rw [candidates, List.append_assoc, List.append_assoc, List.append_assoc]
  refine .append_left _ ?_
  rw [← List.append_assoc, ← List.append_assoc]
  exact .append_right _ List.perm_append_comm

theorem Distinct.nodup_candidates (h : c.Distinct) (s : Strategy) :
    ((c.candidates s).map (·.member.description)).Nodup := by
  refine ((c.candidates_perm s).map _).nodup_iff.2 (h.members.sublist ?_)
  have hfields := (c.enumeratedFields_sublist s).map (·.member.description)
  have hmethods := (c.enumeratedMethods_sublist s).map (·.member.description)
  simp only [List.map_append, List.map_map] at hfields hmethods ⊢
  exact hfields.append hmethods

end ClassModel

/-! ## What is found -/

namespace PlanSet

variable {set : PlanSet} {s : Strategy} {c : ClassModel} {rs : List (PropertyModel × Disposition)}
  {es : List (Candidate × Disposition)}

/-- The first disposition of a description: of a property if there is one, else of a candidate. -/
theorem Tells.dispositionOf?_eq (h : set.Tells s c rs es) (member : String) :
    set.dispositionOf? member =
      ((rs.find? (c.describe ·.1 == member)).map (·.2)).or
        ((es.find? (·.1.member.description == member)).map (·.2)) := by
  rw [dispositionOf?, h.dispositions, List.find?_append, List.find?_map, List.find?_map, Option.map_or,
    Option.map_map, Option.map_map]
  rfl

theorem Tells.nodup_describe (h : set.Tells s c rs es) (hc : c.Distinct) :
    (rs.map (c.describe ·.1)).Nodup := by
  have hrs : rs.map (c.describe ·.1) =
      (if s.readsProperties then c.properties else []).map c.describe := by
    rw [← h.properties, List.map_map]
    rfl
  rw [hrs]
  split
  · exact hc.nodup_properties
  · exact .nil

theorem Tells.nodup_description (h : set.Tells s c rs es) (hc : c.Distinct) :
    (es.map (·.1.member.description)).Nodup := by
  have hes : es.map (·.1.member.description) = (c.candidates s).map (·.member.description) := by
    rw [← h.candidates, List.map_map]
    rfl
  rw [hes]
  exact hc.nodup_candidates s

theorem Tells.dispositionOf?_property (h : set.Tells s c rs es) (hc : c.Distinct)
    {e : PropertyModel × Disposition} (he : e ∈ rs) :
    set.dispositionOf? (c.describe e.1) = some e.2 := by
  rw [h.dispositionOf?_eq, find?_key_of_nodup (h.nodup_describe hc) he]
  rfl

theorem Tells.dispositionOf?_candidate (h : set.Tells s c rs es) (hc : c.Distinct)
    {e : Candidate × Disposition} (he : e ∈ es)
    (hrs : ∀ x ∈ rs, c.describe x.1 ≠ e.1.member.description) :
    set.dispositionOf? e.1.member.description = some e.2 := by
  have hnone : rs.find? (c.describe ·.1 == e.1.member.description) = none :=
    List.find?_eq_none.2 fun x hx => by simpa using hrs x hx
  rw [h.dispositionOf?_eq, hnone, find?_key_of_nodup (h.nodup_description hc) he]
  rfl

end PlanSet

variable {s : Setting} {c : ClassModel} {set : PlanSet}

/-- In each mode, where no two fields or methods of a class have the same description and no two properties the
same name, the disposition that is found under the description of a property is the one that is recorded for
it; the one that is found under the description of a field or method is the one that is recorded for that,
unless a property that was read has the same description and is found in its place. -/
theorem build_looks_up (h : (build s c).result = .ok set) (hc : c.Distinct) :
    ∃ rs es, set.Tells s.strategy c rs es ∧
      (∀ e ∈ rs, set.dispositionOf? (c.describe e.1) = some e.2) ∧
      (∀ e ∈ es, (∀ x ∈ rs, c.describe x.1 ≠ e.1.member.description) →
        set.dispositionOf? e.1.member.description = some e.2) ∧
      ∀ e ∈ es, ∀ x ∈ rs, c.describe x.1 = e.1.member.description →
        set.dispositionOf? e.1.member.description = some x.2 := by
  obtain ⟨_, _, _, _, hcourse, rfl⟩ := build_ok h
  obtain ⟨rs, es, htells, _, _⟩ := hcourse.tells
  refine ⟨rs, es, htells, fun e he => htells.dispositionOf?_property hc he,
    fun e he => htells.dispositionOf?_candidate hc he, fun e he x hx heq => ?_⟩
  rw [← heq]
  exact htells.dispositionOf?_property hc hx

theorem build_looks_up_of_overloads :
    let host : PropertyModel := { name := "host", readMethod := some "host" }
    let field : FieldModel :=
      { name := "port", declaringType := "app.Settings", hidden := true
        capabilities := CapabilitySet.empty.withDeclared Marker.inject }
    let reader : MethodModel := { name := "host", declaringType := "app.Settings" }
    let other : MethodModel :=
      { name := "host", declaringType := "app.Settings", parameters := [{ typeName := "int" }]
        capabilities := CapabilitySet.empty.withDeclared Marker.executable }
    let c : ClassModel :=
      { name := "app.Settings", fields := [field], methods := [reader, other], properties := [host] }
    let s : Setting := { strategy := .ofMode .properties }
    c.Distinct ∧ ∃ set, (build s c).result = .ok set ∧
      ["app.Settings#host", "app.Settings#port", "app.Settings#host(int)"].map set.dispositionOf? =
        [some .unclaimed, some .fieldInjection, some .executable] ∧
      ∃ rs es, set.Tells s.strategy c rs es ∧
        (∀ e ∈ rs, set.dispositionOf? (c.describe e.1) = some e.2) ∧
        ∀ e ∈ es, (∀ x ∈ rs, c.describe x.1 ≠ e.1.member.description) →
          set.dispositionOf? e.1.member.description = some e.2 := by
  intro host field reader other c s
  have hc : c.Distinct := ⟨by decide +kernel, by decide +kernel⟩
  have hfound : ((build s c).result.toOption.map fun set =>
      ["app.Settings#host", "app.Settings#port", "app.Settings#host(int)"].map set.dispositionOf?) =
        some [some .unclaimed, some .fieldInjection, some .executable] := by decide +kernel
  cases h : (build s c).result with
  | error v =>
      rw [h] at hfound
      cases hfound
  | ok set =>
      rw [h] at hfound
      obtain ⟨rs, es, htells, hproperties, hmembers, _⟩ := build_looks_up h hc
      exact ⟨hc, set, rfl, Option.some.inj hfound, rs, es, htells, hproperties, hmembers⟩

/-- A field is taken for the property of its name if it is not the field of that property. -/
theorem namesake_is_looked_up :
    let host : FieldModel :=
      { name := "host", declaringType := "app.Settings"
        capabilities := CapabilitySet.empty.withDeclared Marker.inject }
    let c : ClassModel :=
      { name := "app.Settings", fields := [host], properties := [{ name := "host" }] }
    let s : Setting := { strategy := .ofMode .properties }
    c.Distinct ∧ ∃ set, (build s c).result = .ok set ∧
      ⟨.field, host.member.description, .fieldInjection⟩ ∈ set.dispositions ∧
      set.dispositionOf? host.member.description = some .unclaimed := by
  -- Evaluation is slow as long as the class is a variable.
  exact ⟨⟨by decide +kernel, by decide +kernel⟩, _, rfl, by decide +kernel, by decide +kernel⟩

end Wiring
