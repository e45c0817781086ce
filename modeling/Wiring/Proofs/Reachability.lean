import Wiring.Capability.Basic
import Wiring.Proofs.StringMap

/-!
# Stereotypes are reachability

The walk over the definitions finds what `Reaches` says, so a registry carries what it reaches, and a
capability set whose cache is right has the stereotypes that its markers reach.
-/

namespace Wiring

namespace Registry

variable {defs : StringMap StringSet}

theorem Reaches.trans {a b c : String} (hab : Reaches defs a b) (hbc : Reaches defs b c) :
    Reaches defs a c := by
  induction hab with
  | refl => exact hbc
  | step h _ ih => exact .step h (ih hbc)

/-- What holds of a marker and passes on to what is carried holds of all that is reached. -/
theorem Reaches.closed {P : String → Prop} (hP : ∀ a, P a → ∀ b ∈ carried defs a, P b) {a b : String}
    (hab : Reaches defs a b) (ha : P a) : P b := by
  induction hab with
  | refl => exact ha
  | step h _ ih => exact ih (hP _ ha _ h)

/-! ## The walk -/

theorem mem_pending {seen : StringSet} {m b : String} :
    b ∈ pending defs seen m ↔ b ∈ carried defs m ∧ b ∉ seen.insert m := by
  simp [pending]

theorem mem_walk_sound {seen : StringSet} {queue : List String} {x : String}
    (h : x ∈ walk defs seen queue) : x ∈ seen ∨ ∃ q ∈ queue, Reaches defs q x := by
  fun_induction walk defs seen queue with
  | case1 seen => exact Or.inl h
  | case2 seen m queue hm ih =>
      rcases ih h with h | ⟨q, hq, hqx⟩
      · exact Or.inl h
      · exact Or.inr ⟨q, List.mem_cons_of_mem m hq, hqx⟩
  | case3 seen m queue hm ih =>
      rcases ih h with h | ⟨q, hq, hqx⟩
      · rcases StringSet.mem_insert.1 h with rfl | h
        · exact Or.inr ⟨x, List.mem_cons_self, .refl x⟩
        · exact Or.inl h
      · rcases List.mem_append.1 hq with hq | hq
        · exact Or.inr ⟨q, List.mem_cons_of_mem m hq, hqx⟩
        · exact Or.inr ⟨m, List.mem_cons_self, .step (mem_pending.1 hq).1 hqx⟩

theorem mem_walk_of_mem {seen : StringSet} {queue : List String} {x : String}
    (h : x ∈ seen ∨ x ∈ queue) : x ∈ walk defs seen queue := by
  fun_induction walk defs seen queue with
  | case1 seen => simpa using h
  | case2 seen m queue hm ih =>
      apply ih
      rcases h with h | h
      · exact Or.inl h
      · rcases List.mem_cons.1 h with rfl | h
        · exact Or.inl hm
        · exact Or.inr h
  | case3 seen m queue hm ih =>
      apply ih
      rcases h with h | h
      · exact Or.inl (StringSet.mem_insert.2 (Or.inr h))
      · rcases List.mem_cons.1 h with rfl | h
        · exact Or.inl (StringSet.mem_insert.2 (Or.inl rfl))
        · exact Or.inr (List.mem_append_left _ h)

/-- What carried markers lack is still in the queue; at the end nothing is lacking. -/
theorem walk_closed {seen : StringSet} {queue : List String}
    (h : ∀ a ∈ seen, ∀ b ∈ carried defs a, b ∈ seen ∨ b ∈ queue) :
    ∀ a ∈ walk defs seen queue, ∀ b ∈ carried defs a, b ∈ walk defs seen queue := by
  fun_induction walk defs seen queue with
  | case1 seen => intro a ha b hb; simpa using h a ha b hb
  | case2 seen m queue hm ih =>
      apply ih
      intro a ha b hb
      rcases h a ha b hb with hb | hb
      · exact Or.inl hb
      · rcases List.mem_cons.1 hb with rfl | hb
        · exact Or.inl hm
        · exact Or.inr hb
  | case3 seen m queue hm ih =>
      apply ih
      intro a ha b hb
      rcases StringSet.mem_insert.1 ha with rfl | ha
      · by_cases hs : b ∈ seen.insert a
        · exact Or.inl hs
        · exact Or.inr (List.mem_append_right _ (mem_pending.2 ⟨hb, hs⟩))
      · rcases h a ha b hb with hb | hb
        · exact Or.inl (StringSet.mem_insert.2 (Or.inr hb))
        · rcases List.mem_cons.1 hb with rfl | hb
          · exact Or.inl (StringSet.mem_insert.2 (Or.inl rfl))
          · exact Or.inr (List.mem_append_left _ hb)

theorem mem_walk_iff {a x : String} : x ∈ walk defs .empty [a] ↔ Reaches defs a x := by
  constructor
  · intro h
    rcases mem_walk_sound h with h | ⟨q, hq, hqx⟩
    · exact absurd h StringSet.not_mem_empty
    · rwa [List.mem_singleton.1 hq] at hqx
  · intro h
    have hclosed := @walk_closed defs .empty [a]
      fun b hb => absurd hb StringSet.not_mem_empty
    exact h.closed hclosed (mem_walk_of_mem (Or.inr List.mem_cons_self))

/-! ## Registries -/

/-- `b` is reached from `a` by the definitions of a registry. -/
def Carries (r : Registry) (a b : String) : Prop := Reaches r.definitions a b

theorem get?_closure (r : Registry) (a : String) :
    r.closure.get? a = (r.definitions.get? a).map fun _ => walk r.definitions .empty [a] := by
  rw [r.closure_eq, close, StringMap.get?_mapEntries]

theorem carries_iff_eq {r : Registry} {a b : String} (h : r.definitions.get? a = none) :
    r.Carries a b ↔ a = b := by
  constructor
  · intro hab
    cases hab with
    | refl => rfl
    | step hb _ => simp [carried, h] at hb
  · rintro rfl
    exact .refl a

theorem carries_iff {r : Registry} {a b : String} : r.carries a b = true ↔ r.Carries a b := by
  simp only [carries, Bool.or_eq_true, beq_iff_eq, get?_closure]
  cases h : r.definitions.get? a with
  | none => simp [carries_iff_eq h]
  | some s =>
      simp only [Option.map_some, Option.any_some, StringSet.contains_iff, mem_walk_iff]
      constructor
      · rintro (rfl | hab)
        · exact .refl a
        · exact hab
      · exact Or.inr

instance (r : Registry) (a b : String) : Decidable (r.Carries a b) :=
  decidable_of_iff _ carries_iff

theorem mem_expand {r : Registry} {names : List String} {x : String} :
    x ∈ r.expand names ↔ ∃ n ∈ names, r.Carries n x := by
  have hempty : (∃ n ∈ names, r.Carries n x) ↔
      x ∈ StringSet.empty ∨ ∃ n ∈ names, r.Carries n x := by simp [StringSet.not_mem_empty]
  rw [hempty, expand]
  clear hempty
  -- What is reached is added to whatever is there.
  generalize StringSet.empty = s
  induction names generalizing s with
  | nil => simp
  | cons n names ih =>
      rw [List.foldl_cons]
      refine (ih _).trans ?_
      rw [get?_closure]
      cases h : r.definitions.get? n with
      | none => simp [carries_iff_eq h, or_assoc, or_left_comm, eq_comm]
      | some t => simp [mem_walk_iff, Carries, or_assoc]

end Registry

/-! ## Capability sets -/

namespace CapabilitySet

/-- Some marker of the set is or carries `target`, by the definitions of a registry. -/
def Carries (r : Registry) (c : CapabilitySet) (target : String) : Prop :=
  ∃ a ∈ c.declared.keys ++ c.inherited.keys, r.Carries a target

def DeclaredCarries (r : Registry) (c : CapabilitySet) (target : String) : Prop :=
  ∃ a ∈ c.declared.keys, r.Carries a target

instance (r : Registry) (c : CapabilitySet) (target : String) : Decidable (c.Carries r target) :=
  inferInstanceAs (Decidable (∃ a ∈ c.declared.keys ++ c.inherited.keys, r.Carries a target))

instance (r : Registry) (c : CapabilitySet) (target : String) :
    Decidable (c.DeclaredCarries r target) :=
  inferInstanceAs (Decidable (∃ a ∈ c.declared.keys, r.Carries a target))

/-- The set is resolved, and its cache is right. -/
def Coherent (r : Registry) (c : CapabilitySet) : Prop := c.resolve r = c

variable {r : Registry} {c : CapabilitySet} {t : String}

theorem coherent_resolve (r : Registry) (c : CapabilitySet) : (c.resolve r).Coherent r := rfl

theorem Coherent.hasDeclaredStereotype_iff (h : c.Coherent r) :
    c.hasDeclaredStereotype t = true ↔ c.DeclaredCarries r t := by
  rw [← h]
  simp [hasDeclaredStereotype, resolve, Registry.mem_expand, DeclaredCarries]

theorem Coherent.hasStereotype_iff (h : c.Coherent r) : c.hasStereotype t = true ↔ c.Carries r t := by
  rw [← h]
  simp [hasStereotype, resolve, Registry.mem_expand, Carries, or_and_right, exists_or]

@[simp] theorem mark_mark (layer : StringMap Attributes) (m : String) :
    mark (mark layer m) m = mark layer m := by
  unfold mark
  rw [StringMap.alter_eq_self (v := (layer.get? m).getD .empty)]
  · rw [StringMap.get?_alter, if_pos rfl]
  · rfl

theorem mark_eq_self {layer : StringMap Attributes} {m : String} (h : layer.contains m = true) :
    mark layer m = layer := by
  rw [StringMap.contains_eq_isSome, Option.isSome_iff_exists] at h
  obtain ⟨a, ha⟩ := h
  exact StringMap.alter_eq_self ha rfl

theorem mark_eq_insert {layer : StringMap Attributes} {m : String}
    (h : layer.contains m = false) : mark layer m = layer.insert m .empty := by
  rw [StringMap.contains_eq_isSome, Option.isSome_eq_false_iff, Option.isNone_iff_eq_none] at h
  apply StringMap.alter_congr
  rw [h]
  rfl

theorem addDerived_addDerived (c : CapabilitySet) (m : String) (r : Registry) :
    (c.addDerived m r).addDerived m r = c.addDerived m r := by
  simp [addDerived, resolve]

end CapabilitySet

end Wiring
