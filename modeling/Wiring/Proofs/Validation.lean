import Wiring.Proofs.Frame
import Wiring.Proofs.Rejection

/-!
# Marks of validation

Which methods of a class are marked as validated once it is built. A mark reaches the methods that require
validation by themselves and both accessors of a property that does, or one of whose accessors does
(`build_validates`).
-/

namespace Wiring

/-! ## Marked methods -/

namespace MethodModel

/-- The mark of validation is written on the method. -/
def IsValidated (m : MethodModel) : Prop := m.capabilities.hasDeclaredMarker Marker.validated = true

/-- One of the method's own markers carries the need for validation. -/
def Needs (r : Registry) (m : MethodModel) : Prop := m.capabilities.Carries r Marker.requiresValidation

variable {r : Registry} {m m' : MethodModel}

theorem isValidated_markValidated (r : Registry) (m : MethodModel) : (m.markValidated r).IsValidated := by
  have hmark : (m.markValidated r).capabilities.hasDeclaredMarker Marker.validated =
      (CapabilitySet.mark m.capabilities.declared Marker.validated).contains Marker.validated := rfl
  rw [IsValidated, hmark, CapabilitySet.mark, StringMap.contains_alter]
  simp

theorem isValidated_deriveValidated (r : Registry) (m : MethodModel) :
    (m.deriveValidated r).IsValidated ↔
      m.IsValidated ∨ m.capabilities.hasStereotype Marker.requiresValidation = true := by
  unfold deriveValidated
  split
  · rename_i h
    exact iff_of_true (isValidated_markValidated r m) (Or.inr (Bool.and_eq_true_iff.1 h).1)
  · rename_i h
    refine ⟨Or.inl, ?_⟩
    rintro (hm | hn)
    · exact hm
    · rw [hn, Bool.true_and, Bool.not_eq_true', Bool.not_eq_false] at h
      exact h

theorem needs_of_isValidated (hm : m.IsValidated)
    (hr : r.Carries Marker.validated Marker.requiresValidation) : m.Needs r :=
  ⟨Marker.validated, List.mem_append_left _ (StringMap.mem_keys.2 hm), hr⟩

/-- A mark adds no need, unless the mark itself carries it. -/
theorem needs_of_needs_markValidated (h : (m.markValidated r).Needs r) :
    m.Needs r ∨ r.Carries Marker.validated Marker.requiresValidation := by
  obtain ⟨a, ha, hcarries⟩ := h
  have hkeys : a ∈ (CapabilitySet.mark m.capabilities.declared Marker.validated).keys ++
      m.capabilities.inherited.keys := ha
  rw [List.mem_append, StringMap.mem_keys, CapabilitySet.mark, StringMap.contains_alter,
    Bool.or_eq_true, beq_iff_eq] at hkeys
  rcases hkeys with (rfl | ha) | ha
  · exact Or.inr hcarries
  · exact Or.inl ⟨a, List.mem_append_left _ (StringMap.mem_keys.2 ha), hcarries⟩
  · exact Or.inl ⟨a, List.mem_append_right _ ha, hcarries⟩

theorem needs_markValidated (h : m.Needs r) : (m.markValidated r).Needs r := by
  obtain ⟨a, ha, hcarries⟩ := h
  refine ⟨a, ?_, hcarries⟩
  have hkeys : a ∈ (CapabilitySet.mark m.capabilities.declared Marker.validated).keys ++
      m.capabilities.inherited.keys := by
    rw [List.mem_append, StringMap.mem_keys, CapabilitySet.mark, StringMap.contains_alter]
    rcases List.mem_append.1 ha with ha | ha
    · rw [StringMap.mem_keys.1 ha]
      simp
    · exact Or.inr ha
  exact hkeys

namespace Marked

/-- What is cached of a method tells its need as it was at first, or one that its mark carries. -/
theorem hasStereotype_iff (h : m.Marked r m') :
    m'.capabilities.hasStereotype Marker.requiresValidation = true ↔
      m.Needs r ∨ (m'.IsValidated ∧ r.Carries Marker.validated Marker.requiresValidation) := by
  have hcoherent : m'.capabilities.Coherent r := congrArg MethodModel.capabilities h.resolve_eq
  have hneeds : m'.Needs r ↔ m.Needs r ∨
      (m'.IsValidated ∧ r.Carries Marker.validated Marker.requiresValidation) := by
    constructor
    · intro hn
      rcases h with rfl | rfl
      · exact Or.inl hn
      · exact (needs_of_needs_markValidated hn).imp_right fun hr =>
          ⟨isValidated_markValidated r (m.resolve r), hr⟩
    · rintro (hn | ⟨hm, hr⟩)
      · rcases h with rfl | rfl
        · exact hn
        · exact needs_markValidated (m := m.resolve r) hn
      · exact needs_of_isValidated hm hr
  exact hcoherent.hasStereotype_iff.trans hneeds

theorem isValidated_deriveValidated (h : m.Marked r m') :
    (m'.deriveValidated r).IsValidated ↔ m'.IsValidated ∨ m.Needs r := by
  rw [MethodModel.isValidated_deriveValidated, h.hasStereotype_iff]
  constructor
  · rintro (hm | hn | ⟨hm, _⟩)
    · exact Or.inl hm
    · exact Or.inr hn
    · exact Or.inl hm
  · rintro (hm | hn)
    · exact Or.inl hm
    · exact Or.inr (Or.inl hn)

end Marked

end MethodModel

/-! ## Marked positions -/

theorem forall₂_getElem? {α β : Type} {R : α → β → Prop} {l : List α} {k : List β}
    (h : List.Forall₂ R l k) (i : Nat) : Option.Rel R l[i]? k[i]? := by
  induction h generalizing i with
  | nil => exact .none
  | cons hab _ ih =>
      cases i with
      | zero => exact .some hab
      | succ i => exact ih i

namespace ClassModel

/-- The mark of validation is written on the method at a position. -/
def ValidatedAt (c : ClassModel) (i : Nat) : Prop := ∃ m, c.methods[i]? = some m ∧ m.IsValidated

def NeedsAt (r : Registry) (c : ClassModel) (i : Nat) : Prop := ∃ m, c.methods[i]? = some m ∧ m.Needs r

/-- The property, its reader or its writer carries the need for validation. -/
def PropertyNeeds (r : Registry) (c : ClassModel) (x : PropertyModel) : Prop :=
  x.capabilities.Carries r Marker.requiresValidation ∨ ∃ i ∈ c.accessors x, c.NeedsAt r i

/-- The accessors of the property are marked in a class that may have marks already: the property needed
validation at first, or one of its accessors needs it now by a mark that carries the need. -/
def CallsForMarks (r : Registry) (c d : ClassModel) (x : PropertyModel) : Prop :=
  c.PropertyNeeds r x ∨
    (r.Carries Marker.validated Marker.requiresValidation ∧ ∃ i ∈ c.accessors x, d.ValidatedAt i)

/-- The class once it has gone over some properties. -/
def validateProperties (r : Registry) (c : ClassModel) (xs : List PropertyModel) : ClassModel :=
  xs.foldl (fun d x => d.validateAccessors r (x.resolve r)) c

variable {r : Registry} {c d : ClassModel} {x : PropertyModel} {i : Nat}

theorem exists_of_mem_accessors (hi : i ∈ c.accessors x) : ∃ m, c.methods[i]? = some m := by
  have hindex (name : String) (n : Nat) (h : c.methodIndex? name n = some i) :
      ∃ m, c.methods[i]? = some m :=
    ⟨_, List.getElem?_eq_getElem (List.findIdx?_eq_some_iff_getElem.1 h).1⟩
  simp only [accessors, List.mem_append, Option.mem_toList, readerIndex?, writerIndex?,
    Option.bind_eq_some_iff] at hi
  rcases hi with ⟨name, _, h⟩ | ⟨name, _, h⟩
  · exact hindex name 0 h
  · exact hindex name 1 h

namespace Marked

theorem getElem?_rel (h : c.Marked r d) (i : Nat) :
    Option.Rel (MethodModel.Marked r) c.methods[i]? d.methods[i]? := forall₂_getElem? h.methods i

theorem accessors_eq (h : c.Marked r d) (x : PropertyModel) :
    d.accessors (x.resolve r) = c.accessors x := Pass.accessors_eq_of_bare h.bare_eq (x.resolve r)

/-- What a step does to the mark at a position, by what it does to the method there. -/
theorem validatedAt_modifyMethods (h : c.Marked r d) {f : MethodModel → MethodModel}
    (hf : ∀ m, f (f m) = f m) {is : List Nat} {i : Nat} {P : MethodModel → Prop}
    (hP : ∀ m m', m.Marked r m' → ((f m').IsValidated ↔ m'.IsValidated ∨ P m)) :
    (d.modifyMethods f is).ValidatedAt i ↔
      d.ValidatedAt i ∨ (i ∈ is ∧ ∃ m, c.methods[i]? = some m ∧ P m) := by
  simp only [ValidatedAt, getElem?_modifyMethods hf]
  have hrel := h.getElem?_rel i
  generalize c.methods[i]? = o at hrel ⊢
  generalize d.methods[i]? = o' at hrel ⊢
  cases hrel with
  | none => simp
  | @some m m' hm =>
      by_cases hi : i ∈ is
      · simpa [hi] using hP m m' hm
      · simp [hi]

theorem validatedAt_derive (h : c.Marked r d) {l : List MemberSlot} :
    (d.derive r l).ValidatedAt i ↔ d.ValidatedAt i ∨ (.method i ∈ l ∧ c.NeedsAt r i) := by
  have hmem : i ∈ l.filterMap MemberSlot.method? ↔ .method i ∈ l := by
    simp only [List.mem_filterMap]
    constructor
    · rintro ⟨slot, hslot, hi⟩
      cases slot <;> cases hi
      exact hslot
    · exact fun hi => ⟨_, hi, rfl⟩
  rw [ClassModel.derive, h.validatedAt_modifyMethods (fun m => m.deriveValidated_deriveValidated r)
    (fun _ _ hm => hm.isValidated_deriveValidated), hmem]
  rfl

theorem stereotypeAt_iff (h : c.Marked r d) (i : Nat) :
    d.methods[i]?.any (·.capabilities.hasStereotype Marker.requiresValidation) = true ↔
      c.NeedsAt r i ∨
        (d.ValidatedAt i ∧ r.Carries Marker.validated Marker.requiresValidation) := by
  simp only [NeedsAt, ValidatedAt]
  have hrel := h.getElem?_rel i
  generalize c.methods[i]? = o at hrel ⊢
  generalize d.methods[i]? = o' at hrel ⊢
  cases hrel with
  | none => simp
  | some hm => simpa using hm.hasStereotype_iff

theorem callsForMarks_iff (h : c.Marked r d) (x : PropertyModel) :
    c.CallsForMarks r d x ↔
      ((x.resolve r).capabilities.hasStereotype Marker.requiresValidation ||
        (d.accessors (x.resolve r)).any fun i =>
          d.methods[i]?.any (·.capabilities.hasStereotype Marker.requiresValidation)) = true := by
  have hx : (x.resolve r).capabilities.hasStereotype Marker.requiresValidation = true ↔
      x.capabilities.Carries r Marker.requiresValidation :=
    (CapabilitySet.coherent_resolve r x.capabilities).hasStereotype_iff
  rw [Bool.or_eq_true, hx, List.any_eq_true, h.accessors_eq]
  simp only [h.stereotypeAt_iff, CallsForMarks, PropertyNeeds]
  constructor
  · rintro ((hx | ⟨i, hi, hn⟩) | ⟨hr, i, hi, hd⟩)
    · exact Or.inl hx
    · exact Or.inr ⟨i, hi, Or.inl hn⟩
    · exact Or.inr ⟨i, hi, Or.inr ⟨hd, hr⟩⟩
  · rintro (hx | ⟨i, hi, hn | ⟨hd, hr⟩⟩)
    · exact Or.inl (Or.inl hx)
    · exact Or.inl (Or.inr ⟨i, hi, hn⟩)
    · exact Or.inr ⟨hr, i, hi, hd⟩

/-- What going over a property does to the mark at a position. -/
theorem validatedAt_validateAccessors (h : c.Marked r d) :
    (d.validateAccessors r (x.resolve r)).ValidatedAt i ↔
      d.ValidatedAt i ∨ (i ∈ c.accessors x ∧ c.CallsForMarks r d x) := by
  by_cases hx : c.CallsForMarks r d x
  · have hmodify : d.validateAccessors r (x.resolve r) =
        d.modifyMethods (·.markValidated r) (c.accessors x) := by
      rw [ClassModel.validateAccessors, if_pos ((h.callsForMarks_iff x).1 hx), h.accessors_eq]
      rfl
    rw [hmodify, h.validatedAt_modifyMethods (P := fun _ => True)
      (fun m => m.markValidated_markValidated r)
      (fun _ m' _ => iff_of_true (m'.isValidated_markValidated r) (Or.inr trivial))]
    constructor
    · exact Or.imp_right fun hi => ⟨hi.1, hx⟩
    · rintro (hd | ⟨hi, _⟩)
      · exact Or.inl hd
      · obtain ⟨m, hm⟩ := exists_of_mem_accessors hi
        exact Or.inr ⟨hi, m, hm, trivial⟩
  · have hsame : d.validateAccessors r (x.resolve r) = d := by
      rw [ClassModel.validateAccessors, if_neg (mt (h.callsForMarks_iff x).2 hx)]
    rw [hsame]
    exact ⟨Or.inl, fun hd => hd.resolve_right fun hi => hx hi.2⟩

theorem validateProperties (h : c.Marked r d) (xs : List PropertyModel) :
    c.Marked r (d.validateProperties r xs) := by
  induction xs generalizing d with
  | nil => exact h
  | cons x xs ih => exact ih (h.validateAccessors (x.resolve r))

/-- Marks stay, and the accessors of each property that needed validation at first are marked, wherever it
stands among the properties. -/
theorem validatedAt_of_needs (h : c.Marked r d) {xs : List PropertyModel}
    (hi : d.ValidatedAt i ∨ ∃ x ∈ xs, c.PropertyNeeds r x ∧ i ∈ c.accessors x) :
    (d.validateProperties r xs).ValidatedAt i := by
  induction xs generalizing d with
  | nil => exact hi.resolve_right fun ⟨_, hx, _⟩ => by cases hx
  | cons x xs ih =>
      refine ih (h.validateAccessors (x.resolve r)) ?_
      rw [h.validatedAt_validateAccessors]
      rcases hi with hd | ⟨y, hy, hn, hi⟩
      · exact Or.inl (Or.inl hd)
      · rcases List.mem_cons.1 hy with rfl | hy
        · exact Or.inl (Or.inr ⟨hi, Or.inl hn⟩)
        · exact Or.inr ⟨y, hy, hn, hi⟩

/-- Only accessors are marked, and unless marks carry the need, only those of properties that needed
validation at first. -/
theorem needs_of_validatedAt (h : c.Marked r d) {xs : List PropertyModel}
    (hi : (d.validateProperties r xs).ValidatedAt i) :
    d.ValidatedAt i ∨ ∃ x ∈ xs, i ∈ c.accessors x ∧
      (c.PropertyNeeds r x ∨ r.Carries Marker.validated Marker.requiresValidation) := by
  induction xs generalizing d with
  | nil => exact Or.inl hi
  | cons x xs ih =>
      rcases ih (h.validateAccessors (x.resolve r)) hi with hd | ⟨y, hy, hn⟩
      · rcases h.validatedAt_validateAccessors.1 hd with hd | ⟨hi, hx⟩
        · exact Or.inl hd
        · exact Or.inr ⟨x, List.mem_cons_self, hi, hx.imp_right And.left⟩
      · exact Or.inr ⟨y, List.mem_cons_of_mem x hy, hn⟩

end Marked

end ClassModel

/-! ## Builds -/

/-- The method at a position is marked in the second class only. -/
def ClassModel.GainsAt (c c' : ClassModel) (i : Nat) : Prop := ¬c.ValidatedAt i ∧ c'.ValidatedAt i

/-- The properties that are read under a strategy. -/
def ClassModel.propertiesRead (s : Strategy) (c : ClassModel) : List PropertyModel :=
  if s.readsProperties then c.properties else []

section Builds

variable {s : Setting} {c : ClassModel} {v : Violation}

theorem Pass.Reads.model_eq_validateProperties {p q : Pass} {rs : List (PropertyModel × Disposition)}
    (h : Reads s p rs q) {xs : List PropertyModel}
    (hrs : rs.map (·.1) = xs.map (·.resolve s.registry)) :
    q.model = p.model.validateProperties s.registry xs := by
  induction h generalizing xs with
  | nil p =>
      obtain rfl : xs = [] := List.map_eq_nil_iff.1 hrs.symm
      rfl
  | @cons p q p' x d rs hx hrest ih =>
      cases xs with
      | nil => cases hrs
      | cons y ys =>
          obtain ⟨rfl, htail⟩ := List.cons.inj hrs
          rw [ih htail, hx.model_eq]
          rfl

theorem propertiesRead_resolve (s : Strategy) (r : Registry) (c : ClassModel) :
    (if s.readsProperties then (c.resolve r).properties else []) =
      (c.propertiesRead s).map (·.resolve r) := by
  unfold ClassModel.propertiesRead
  split <;> rfl

theorem model_build_of_ok {set : PlanSet} (h : (build s c).result = .ok set) :
    (build s c).model =
      ((c.resolve s.registry).validateProperties s.registry (c.propertiesRead s.strategy)).derive
        s.registry (Pass.slots s.strategy c) := by
  obtain ⟨q, hr, _⟩ := run_of_build h
  obtain ⟨_, p, hp, hv⟩ := Pass.run_eq_ok.1 hr
  obtain ⟨rs, hrs, hreads⟩ := Pass.reads_of_readProperties hp
  obtain ⟨js, _, hm⟩ := Pass.model_of_reads hrs hreads
  have hmodel : p.model =
      (c.resolve s.registry).validateProperties s.registry (c.propertiesRead s.strategy) := by
    rw [hreads.model_eq_validateProperties (hrs.trans (propertiesRead_resolve _ _ _)),
      Pass.model_opened]
  rw [model_build, hr, Pass.left, (Pass.visits_ok hv).1,
    ClassModel.slots_eq_of_bare (ClassModel.bare_of_marks hm), hmodel]

theorem Pass.Stops.model_eq {rs : List (PropertyModel × Disposition)} {p : Pass}
    {pre post : List MemberSlot} {i : Nat} {m : MethodModel} {e : Refusal}
    (h : Stops s c rs p pre i post m e) :
    e.model =
      ((c.resolve s.registry).validateProperties s.registry (c.propertiesRead s.strategy)).derive
        s.registry (pre ++ [.method i]) := by
  have hrs := h.properties.trans (propertiesRead_resolve _ _ _)
  rw [h.model, h.reads.model_eq_validateProperties hrs, model_opened]

section Left

variable {d : ClassModel} {i : Nat}

theorem marked_validateProperties (s : Setting) (c : ClassModel) :
    c.Marked s.registry
      ((c.resolve s.registry).validateProperties s.registry (c.propertiesRead s.strategy)) :=
  (ClassModel.Marked.resolve s.registry c).validateProperties _

theorem validatedAt_resolve (r : Registry) (c : ClassModel) (i : Nat) :
    (c.resolve r).ValidatedAt i ↔ c.ValidatedAt i := by
  simp only [ClassModel.ValidatedAt, ClassModel.methods_resolve, List.getElem?_map]
  cases c.methods[i]? with
  | none => simp
  | some m => simp [MethodModel.IsValidated, MethodModel.resolve, CapabilitySet.resolve,
      CapabilitySet.hasDeclaredMarker]

/-- What is gone over after the properties is no accessor of a property that is read. -/
theorem not_mem_accessors_of_mem_slots {x : PropertyModel} (hi : .method i ∈ Pass.slots s.strategy c)
    (hx : x ∈ c.propertiesRead s.strategy) : i ∉ c.accessors x := by
  intro haccessor
  unfold ClassModel.propertiesRead at hx
  split at hx
  · rename_i hs
    have hconstitutes := ClassModel.constitutesMethod_of_mem_accessors hx haccessor
    rw [ClassModel.not_constitutes_of_mem_slots hi hs] at hconstitutes
    cases hconstitutes
  · cases hx

theorem gainsAt_derive_iff (hi : .method i ∈ Pass.slots s.strategy c) (l : List MemberSlot) :
    c.GainsAt (((c.resolve s.registry).validateProperties s.registry
        (c.propertiesRead s.strategy)).derive s.registry l) i ↔
      c.NeedsAt s.registry i ∧ ¬c.ValidatedAt i ∧ .method i ∈ l := by
  have hmarked := marked_validateProperties s c
  have hunmarked : ((c.resolve s.registry).validateProperties s.registry
      (c.propertiesRead s.strategy)).ValidatedAt i ↔ c.ValidatedAt i := by
    constructor
    · intro hd
      rcases (ClassModel.Marked.resolve s.registry c).needs_of_validatedAt hd with hd | ⟨x, hx, hxi, _⟩
      · exact (validatedAt_resolve s.registry c i).1 hd
      · exact absurd hxi (not_mem_accessors_of_mem_slots hi hx)
    · intro hd
      exact (ClassModel.Marked.resolve s.registry c).validatedAt_of_needs
        (Or.inl ((validatedAt_resolve s.registry c i).2 hd))
  rw [ClassModel.GainsAt, hmarked.validatedAt_derive, hunmarked]
  constructor
  · rintro ⟨hc, hd | ⟨hl, hn⟩⟩
    · exact absurd hd hc
    · exact ⟨hn, hc, hl⟩
  · rintro ⟨hn, hc, hl⟩
    exact ⟨hc, Or.inr ⟨hl, hn⟩⟩

end Left

/-- What a build that succeeds does to marks. -/
structure ClassModel.Validates (s : Setting) (c c' : ClassModel) : Prop where
  methods : ∀ i, .method i ∈ Pass.slots s.strategy c → c.NeedsAt s.registry i → c'.ValidatedAt i
  accessors : ∀ x ∈ c.propertiesRead s.strategy, c.PropertyNeeds s.registry x →
    ∀ i ∈ c.accessors x, c'.ValidatedAt i
  only : ¬s.registry.Carries Marker.validated Marker.requiresValidation → ∀ i, c.GainsAt c' i →
    (.method i ∈ Pass.slots s.strategy c ∧ c.NeedsAt s.registry i) ∨
      ∃ x ∈ c.propertiesRead s.strategy, c.PropertyNeeds s.registry x ∧ i ∈ c.accessors x

theorem validates_of_build {set : PlanSet} (h : (build s c).result = .ok set) :
    ClassModel.Validates s c (build s c).model := by
  have hmarked := marked_validateProperties s c
  have hresolved := ClassModel.Marked.resolve s.registry c
  rw [model_build_of_ok h]
  refine ⟨fun i hi hn => ?_, fun x hx hn i hi => ?_, fun hr i hi => ?_⟩
  · exact hmarked.validatedAt_derive.2 (Or.inr ⟨hi, hn⟩)
  · exact hmarked.validatedAt_derive.2 (Or.inl (hresolved.validatedAt_of_needs (Or.inr ⟨x, hx, hn, hi⟩)))
  · rcases hmarked.validatedAt_derive.1 hi.2 with hd | hd
    · rcases hresolved.needs_of_validatedAt hd with hc | ⟨x, hx, hxi, hn⟩
      · exact absurd ((validatedAt_resolve s.registry c i).1 hc) hi.1
      · exact Or.inr ⟨x, hx, hn.resolve_right hr, hxi⟩
    · exact Or.inl hd

end Builds

/-- What a build that fails at a method does to marks of what is gone over. -/
structure ClassModel.ValidatesUpTo (s : Setting) (c c' : ClassModel) (v : Violation)
    (pre : List MemberSlot) (i : Nat) (post : List MemberSlot) (m : MethodModel) : Prop where
  slots : Pass.slots s.strategy c = pre ++ .method i :: post
  stands : c.methods[i]? = some m
  fault : Offends s.strategy s.registry c (m.validated s.registry) v
  sound : ∀ m', .method m' ∈ pre.filterMap c.candidate? → ∀ w,
    ¬Offends s.strategy s.registry c (m'.validated s.registry) w
  gains : ∀ j, .method j ∈ Pass.slots s.strategy c → (c.GainsAt c' j ↔
    c.NeedsAt s.registry j ∧ ¬c.ValidatedAt j ∧ .method j ∈ pre ++ [.method i])

/-- A class that is built has the mark of validation on every method gone over that requires validation by
its own markers, and on both accessors of every property that is read and requires it by itself or by one of
them, wherever the property stands. Unless the mark itself carries the need, no other method gains it. A class
that is rejected for a method, with a handler that does not fail, has gained it on those methods gone over
that require validation, had no mark and come no later than the first one at fault. -/
theorem build_validates (s : Setting) (c : ClassModel) :
    (∀ set, (build s c).result = .ok set → ClassModel.Validates s c (build s c).model) ∧
    ((s.strategy.readsProperties = true → s.strategy.handler.Total) →
      ¬(s.strategy.alwaysProxies = true ∧ c.isFinal = true) →
      ∀ v, (build s c).result = .error v → ∃ pre i post m,
        ClassModel.ValidatesUpTo s c (build s c).model v pre i post m) := by
  refine ⟨fun set h => validates_of_build h, fun ht hf v h => ?_⟩
  cases hr : (Pass.start (c.resolve s.registry)).run s with
  | ok q => simp [build, hr] at h
  | error e =>
      have hbuild : build s c = ⟨.error e.violation, e.model⟩ := by rw [build, hr]
      rw [hbuild] at h ⊢
      cases h
      obtain ⟨rs, p, pre, i, post, m, hstops⟩ := Pass.stops_of_run ht hf hr
      refine ⟨pre, i, post, m, hstops.slots, hstops.stands, violation?_seen.1 hstops.fault,
        fun m' hm' => violation?_eq_none.1 (hstops.sound _ hm') m' rfl, fun j hj => ?_⟩
      rw [hstops.model_eq]
      exact gainsAt_derive_iff hj (pre ++ [.method i])

theorem build_validates_of_shared_reader :
    let needy : CapabilitySet := CapabilitySet.empty.withDeclared Marker.requiresValidation
    let c : ClassModel :=
      { name := "app.Settings"
        methods := [{ name := "view", declaringType := "app.Settings" },
          { name := "setHost", declaringType := "app.Settings", parameters := [{ name := "host" }] },
          { name := "setPort", declaringType := "app.Settings", parameters := [{ name := "port" }]
            capabilities := needy },
          { name := "check", declaringType := "app.Settings", capabilities := needy }]
        properties := [{ name := "host", readMethod := some "view", writeMethod := some "setHost" },
          { name := "port", readMethod := some "view", writeMethod := some "setPort" }] }
    let d : ClassModel :=
      { name := "app.Service"
        methods := [{ name := "late", declaringType := "app.Service", capabilities := needy },
          { name := "early", declaringType := "app.Base", capabilities := needy },
          { name := "stop", declaringType := "app.Base", isStatic := true
            capabilities := needy.withDeclared Marker.preDestroy }] }
    let marks (c : ClassModel) : List Bool :=
      c.methods.map (·.capabilities.hasDeclaredMarker Marker.validated)
    let s : Setting := { strategy := .ofMode .properties }
    (∃ set, (build s c).result = .ok set) ∧ marks (build s c).model = [true, false, true, true] ∧
      ClassModel.Validates s c (build s c).model ∧
      (build {} d).result = .error ⟨.staticNotExecutable, "app.Base#stop()"⟩ ∧
      marks (build {} d).model = [false, true, true] ∧
      ∃ pre i post m, ClassModel.ValidatesUpTo {} d (build {} d).model
        ⟨.staticNotExecutable, "app.Base#stop()"⟩ pre i post m := by
  exact ⟨⟨_, rfl⟩, rfl, (build_validates _ _).1 _ rfl, rfl, rfl,
    (build_validates _ _).2 (fun hs => absurd hs (by decide)) (fun hf => absurd hf.1 (by decide)) _ rfl⟩

end Wiring
