import Wiring.Proofs.Layers
import Wiring.Proofs.Readers

/-!
# Histories of capability sets

A set is changed in one of five ways, time after time. Each change either brings its cache up to date with a
registry or drops it, so that the last change alone says what is cached (`resolvedBy_after`). Markers are
never lost, and an attribute has the value it was given last (`after_reflects`).
-/

namespace Wiring

/-! ## Changes -/

/-- What may be done to a capability set. -/
inductive Change
  | withDeclared (marker : String)
  | withDeclaredAttribute (marker key : String) (value : CanonicalJson)
  | withInherited (marker : String)
  | resolve (r : Registry)
  | addDerived (marker : String) (r : Registry)

namespace Change

/-- The registry that a set is resolved with by the change. -/
def registry? : Change → Option Registry
  | .resolve r => some r
  | .addDerived _ r => some r
  | _ => none

/-- The change resolves the set. All others leave it unresolved. -/
def Resolves (x : Change) : Prop := x.registry?.isSome = true

/-- The value that the change gives to an attribute. -/
def value? (marker key : String) : Change → Option CanonicalJson
  | .withDeclaredAttribute m k v => if marker = m ∧ key = k then some v else none
  | _ => none

end Change

namespace CapabilitySet

def change (c : CapabilitySet) : Change → CapabilitySet
  | .withDeclared m => c.withDeclared m
  | .withDeclaredAttribute m k v => c.withDeclaredAttribute m k v
  | .withInherited m => c.withInherited m
  | .resolve r => c.resolve r
  | .addDerived m r => c.addDerived m r

def after (c : CapabilitySet) (xs : List Change) : CapabilitySet := xs.foldl change c

/-- A set as it comes first: without markers, or as it is read. -/
inductive Initial : CapabilitySet → Prop
  | empty : Initial .empty
  | read {l : Json.Limits} {t : Json.Tree} {c : CapabilitySet} (h : codec.read l t = .ok c) : Initial c

variable {c : CapabilitySet} {r : Registry} {o : Option Registry} {x : Change} {xs : List Change}
  {a t marker key : String}

theorem Initial.unresolved (h : c.Initial) : c.isResolved = false := by
  cases h with
  | empty => rfl
  | read h => exact CapabilitySet.yields _ _ _ h

theorem after_append (c : CapabilitySet) (xs ys : List Change) :
    c.after (xs ++ ys) = (c.after xs).after ys :=
  List.foldl_append

/-! ## The cache -/

/-- The registry of the last change, if that resolved the set. -/
def latest? (xs : List Change) : Option Registry := xs.getLast?.bind Change.registry?

theorem latest?_append (xs : List Change) (x : Change) : latest? (xs ++ [x]) = x.registry? := by
  simp [latest?]

theorem resolvedBy_change (c : CapabilitySet) (x : Change) : (c.change x).ResolvedBy x.registry? := by
  cases x with
  | withDeclared m => exact .unresolved rfl
  | withDeclaredAttribute m k v => exact .unresolved rfl
  | withInherited m => exact .unresolved rfl
  | resolve r => exact .resolved (coherent_resolve r c)
  | addDerived m r => exact .resolved (coherent_resolve r _)

/-- The last change says what is cached. -/
theorem resolvedBy_after (h : c.isResolved = false) (xs : List Change) :
    (c.after xs).ResolvedBy (latest? xs) := by
  -- No induction: a change does not ask what was cached before.
  rcases List.eq_nil_or_concat xs with rfl | ⟨ys, x, rfl⟩
  · exact .unresolved h
  · rw [List.concat_eq_append, latest?_append, after_append]
    exact resolvedBy_change _ x

theorem hasMarker_of_hasDeclaredMarker (h : c.hasDeclaredMarker t = true) : c.hasMarker t = true :=
  Bool.or_eq_true_iff.2 (Or.inl h)

namespace ResolvedBy

theorem isResolved_eq (h : c.ResolvedBy o) : c.isResolved = o.isSome := by
  cases h with
  | unresolved h => exact h
  | resolved h => rw [← h]; rfl

theorem hasStereotype_of_hasDeclaredStereotype (h : c.ResolvedBy o)
    (hd : c.hasDeclaredStereotype t = true) : c.hasStereotype t = true := by
  cases h with
  | unresolved h =>
      rw [hasDeclaredStereotype_of_unresolved h] at hd
      rw [hasStereotype_of_unresolved h]
      exact hasMarker_of_hasDeclaredMarker hd
  | resolved h =>
      obtain ⟨a, ha, hcarries⟩ := h.hasDeclaredStereotype_iff.1 hd
      exact h.hasStereotype_iff.2 ⟨a, List.mem_append_left _ ha, hcarries⟩

end ResolvedBy

theorem latest?_isSome_iff : (latest? xs).isSome = true ↔
    ∃ pre x post, xs = pre ++ x :: post ∧ x.Resolves ∧ ∀ y ∈ post, y.Resolves := by
  constructor
  · intro h
    rcases List.eq_nil_or_concat xs with rfl | ⟨ys, x, rfl⟩
    · cases h
    · rw [List.concat_eq_append, latest?_append] at h
      exact ⟨ys, x, [], List.concat_eq_append, h, List.forall_mem_nil _⟩
  · rintro ⟨pre, x, post, rfl, hx, hpost⟩
    rcases List.eq_nil_or_concat post with rfl | ⟨ys, y, rfl⟩
    · rwa [latest?_append]
    · have hlast : pre ++ x :: ys.concat y = (pre ++ x :: ys) ++ [y] := by simp
      rw [hlast, latest?_append]
      exact hpost y (by simp)

/-! ## Markers -/

theorem hasDeclaredMarker_change (h : c.hasDeclaredMarker a = true) :
    (c.change x).hasDeclaredMarker a = true := by
  unfold hasDeclaredMarker at h ⊢
  cases x <;>
    simp [change, withDeclared, withDeclaredAttribute, withInherited, resolve, addDerived, mark, h]

theorem inherited_contains_change (h : c.inherited.contains a = true) :
    (c.change x).inherited.contains a = true := by
  cases x <;>
    simp [change, withDeclared, withDeclaredAttribute, withInherited, resolve, addDerived, mark, h]

theorem hasDeclaredMarker_after (h : c.hasDeclaredMarker a = true) (xs : List Change) :
    (c.after xs).hasDeclaredMarker a = true := by
  induction xs generalizing c with
  | nil => exact h
  | cons x xs ih => exact ih (hasDeclaredMarker_change h)

theorem inherited_contains_after (h : c.inherited.contains a = true) (xs : List Change) :
    (c.after xs).inherited.contains a = true := by
  induction xs generalizing c with
  | nil => exact h
  | cons x xs ih => exact ih (inherited_contains_change h)

theorem hasMarker_after (h : c.hasMarker a = true) (xs : List Change) :
    (c.after xs).hasMarker a = true := by
  rw [hasMarker, Bool.or_eq_true] at h ⊢
  exact h.imp (hasDeclaredMarker_after · xs) (inherited_contains_after · xs)

/-! ## Attributes -/

theorem valueIn_mark (layer : StringMap Attributes) (m marker key : String) :
    valueIn (mark layer m) marker key = valueIn layer marker key := by
  unfold valueIn mark
  rw [StringMap.get?_alter]
  by_cases hm : marker = m
  · subst hm
    rw [if_pos rfl]
    cases layer.get? marker <;> rfl
  · rw [if_neg hm]

theorem valueIn_withDeclaredAttribute (c : CapabilitySet) (m k : String) (v : CanonicalJson)
    (marker key : String) :
    valueIn (c.withDeclaredAttribute m k v).declared marker key =
      if marker = m ∧ key = k then some v else valueIn c.declared marker key := by
  unfold valueIn withDeclaredAttribute
  rw [StringMap.get?_alter]
  by_cases hm : marker = m
  · subst hm
    rw [if_pos rfl, Option.bind_some, StringMap.insert, StringMap.get?_alter]
    cases c.declared.get? marker <;> simp
    rfl
  · simp [hm]

theorem valueIn_declared_change (c : CapabilitySet) (x : Change) (marker key : String) :
    valueIn (c.change x).declared marker key =
      (x.value? marker key).or (valueIn c.declared marker key) := by
  cases x with
  | withDeclared m => exact valueIn_mark c.declared m marker key
  | withDeclaredAttribute m k v =>
      rw [change, valueIn_withDeclaredAttribute, Change.value?]
      split <;> rfl
  | withInherited m => rfl
  | resolve r => rfl
  | addDerived m r => exact valueIn_mark c.declared m marker key

theorem valueIn_inherited_change (c : CapabilitySet) (x : Change) (marker key : String) :
    valueIn (c.change x).inherited marker key = valueIn c.inherited marker key := by
  cases x with
  | withInherited m => exact valueIn_mark c.inherited m marker key
  | _ => rfl

theorem attribute?_change (c : CapabilitySet) (x : Change) (marker key : String) :
    (c.change x).attribute? marker key = (x.value? marker key).or (c.attribute? marker key) := by
  rw [attribute?_eq_or, attribute?_eq_or, valueIn_declared_change, valueIn_inherited_change,
    Option.or_assoc]

/-- What is written of an attribute is the value that it was given last, or else the one that it had. -/
theorem valueIn_declared_after (c : CapabilitySet) (xs : List Change) (marker key : String) :
    valueIn (c.after xs).declared marker key =
      (xs.reverse.findSome? (Change.value? marker key)).or (valueIn c.declared marker key) := by
  induction xs generalizing c with
  | nil => rfl
  | cons x xs ih =>
      rw [List.reverse_cons, List.findSome?_append, List.findSome?_singleton, Option.or_assoc,
        ← valueIn_declared_change]
      exact ih (c.change x)

theorem valueIn_inherited_after (c : CapabilitySet) (xs : List Change) (marker key : String) :
    valueIn (c.after xs).inherited marker key = valueIn c.inherited marker key := by
  induction xs generalizing c with
  | nil => rfl
  | cons x xs ih => exact (ih (c.change x)).trans (c.valueIn_inherited_change x marker key)

/-! ## Histories -/

/-- What a set tells after some changes follows from the changes. -/
structure Reflects (c : CapabilitySet) (xs : List Change) : Prop where
  resolved : (c.after xs).isResolved = true ↔
    ∃ pre x post, xs = pre ++ x :: post ∧ x.Resolves ∧ ∀ y ∈ post, y.Resolves
  registry : (c.after xs).isResolved = (latest? xs).isSome
  stereotypes : ∀ r, latest? xs = some r → ∀ t,
    ((c.after xs).hasStereotype t = true ↔ (c.after xs).Carries r t) ∧
      ((c.after xs).hasDeclaredStereotype t = true ↔ (c.after xs).DeclaredCarries r t)
  names : (c.after xs).isResolved = false → ∀ t,
    (c.after xs).hasStereotype t = (c.after xs).hasMarker t ∧
      (c.after xs).hasDeclaredStereotype t = (c.after xs).hasDeclaredMarker t
  declared : ∀ t,
    ((c.after xs).hasDeclaredStereotype t = true → (c.after xs).hasStereotype t = true) ∧
      ((c.after xs).hasDeclaredMarker t = true → (c.after xs).hasMarker t = true)
  markers : ∀ pre post, xs = pre ++ post → ∀ t,
    ((c.after pre).hasMarker t = true → (c.after xs).hasMarker t = true) ∧
      ((c.after pre).hasDeclaredMarker t = true → (c.after xs).hasDeclaredMarker t = true)
  attributes : ∀ pre x post, xs = pre ++ x :: post → ∀ marker key,
    (c.after (pre ++ [x])).attribute? marker key ≠ (c.after pre).attribute? marker key →
      ∃ v, x = .withDeclaredAttribute marker key v
  written : ∀ marker key, valueIn (c.after xs).declared marker key =
    (xs.reverse.findSome? (Change.value? marker key)).or (valueIn c.declared marker key)
  inherited : ∀ marker key,
    valueIn (c.after xs).inherited marker key = valueIn c.inherited marker key

theorem eq_withDeclaredAttribute (h : (c.change x).attribute? marker key ≠ c.attribute? marker key) :
    ∃ v, x = .withDeclaredAttribute marker key v := by
  rw [attribute?_change] at h
  cases x with
  | withDeclaredAttribute m k v =>
      by_cases hk : marker = m ∧ key = k
      · exact ⟨v, by rw [hk.1, hk.2]⟩
      · rw [Change.value?, if_neg hk] at h
        exact absurd rfl h
  | _ => exact absurd rfl h

/-- However a set is changed that was empty or read, its cache is right, no marker is lost, and an attribute
has the value that it was given last. -/
theorem after_reflects (h : c.Initial) (xs : List Change) : c.Reflects xs := by
  have hresolved := resolvedBy_after h.unresolved xs
  refine ⟨?_, hresolved.isResolved_eq, fun r hr t => ?_, fun hu t => ?_, fun t => ?_, ?_, ?_,
    c.valueIn_declared_after xs, c.valueIn_inherited_after xs⟩
  · rw [hresolved.isResolved_eq, latest?_isSome_iff]
  · rw [hr] at hresolved
    obtain _ | hcoherent := hresolved
    exact ⟨hcoherent.hasStereotype_iff, hcoherent.hasDeclaredStereotype_iff⟩
  · exact ⟨hasStereotype_of_unresolved hu, hasDeclaredStereotype_of_unresolved hu⟩
  · exact ⟨hresolved.hasStereotype_of_hasDeclaredStereotype, hasMarker_of_hasDeclaredMarker⟩
  · rintro pre post rfl t
    rw [after_append]
    exact ⟨(hasMarker_after · post), (hasDeclaredMarker_after · post)⟩
  · rintro pre x post rfl marker key hne
    rw [after_append] at hne
    exact eq_withDeclaredAttribute hne

/-- A marker that comes after the set was resolved is known to the cache by the next change that resolves
it, on whatever marker. -/
theorem after_reflects_of_late_marker :
    let r := Registry.new (.ofList [("Timed", [Marker.around])])
    let late : List Change := [.resolve r, .withInherited "Timed"]
    let xs := late ++ [.addDerived Marker.validated r]
    CapabilitySet.empty.Initial ∧ (CapabilitySet.empty.after late).isResolved = false ∧
      (CapabilitySet.empty.after late).hasStereotype Marker.around = false ∧
      (CapabilitySet.empty.after xs).hasStereotype Marker.around = true ∧
      (CapabilitySet.empty.after xs).hasDeclaredStereotype Marker.around = false ∧
      CapabilitySet.empty.Reflects xs := by
  intro r late xs
  exact ⟨.empty, by decide +kernel, by decide +kernel, by decide +kernel, by decide +kernel,
    after_reflects .empty xs⟩

end CapabilitySet

end Wiring
