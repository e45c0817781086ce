import Mathlib.Data.List.Nodup
import Wiring.Proofs.Reports

/-!
# The order of inputs

Paths are put in a total order in which two stand at one place just if they have the same components
(`Path.le_total`, `Path.le_trans`, `Path.components_eq_of_le`). So batches whose paths differ are sorted in
one way only, and what a run comes to does not depend on the order in which they are given
(`run_sort_eq_of_perm`).
-/

namespace Wiring

namespace Path

namespace Component

variable {a b c : Component}

theorem lt_iff : a.lt b = true ↔ a.rank < b.rank ∨ a.rank = b.rank ∧ a.text < b.text := by simp [lt]

theorem eq_of_rank_of_text (hrank : a.rank = b.rank) (htext : a.text = b.text) : a = b := by
  cases a <;> cases b <;> simp_all [rank, text]

theorem lt_trichotomy (a b : Component) : a.lt b = true ∨ a = b ∨ b.lt a = true := by
  simp only [lt_iff]
  rcases Nat.lt_trichotomy a.rank b.rank with hrank | hrank | hrank
  · exact Or.inl (Or.inl hrank)
  · rcases Std.lt_trichotomy a.text b.text with htext | htext | htext
    · exact Or.inl (Or.inr ⟨hrank, htext⟩)
    · exact Or.inr (Or.inl (eq_of_rank_of_text hrank htext))
    · exact Or.inr (Or.inr (Or.inr ⟨hrank.symm, htext⟩))
  · exact Or.inr (Or.inr (Or.inl hrank))

theorem lt_asymm (h : a.lt b = true) : ¬b.lt a = true := by
  rw [lt_iff] at h ⊢
  rintro (hrank | ⟨hrank, htext⟩)
  · omega
  · rcases h with h | ⟨_, h⟩
    · omega
    · exact List.lt_asymm h htext

theorem lt_trans (h : a.lt b = true) (h' : b.lt c = true) : a.lt c = true := by
  rw [lt_iff] at h h' ⊢
  rcases h with h | ⟨hrank, htext⟩ <;> rcases h' with h' | ⟨hrank', htext'⟩
  · exact Or.inl (by omega)
  · exact Or.inl (by omega)
  · exact Or.inl (by omega)
  · exact Or.inr ⟨hrank.trans hrank', List.lt_trans htext htext'⟩

end Component

theorem componentsLe_cons {a b : Component} {as bs : List Component} :
    componentsLe (a :: as) (b :: bs) = true ↔ a.lt b = true ∨ a = b ∧ componentsLe as bs = true := by
  rw [componentsLe, Bool.or_eq_true, Bool.and_eq_true, Bool.not_eq_true']
  refine or_congr_right' fun hab => and_congr_left fun _ => ?_
  constructor
  · intro hba
    rcases a.lt_trichotomy b with h | h | h
    · exact absurd h hab
    · exact h
    · rw [h] at hba
      cases hba
  · rintro rfl
    exact Bool.eq_false_iff.2 hab

theorem componentsLe_total (as bs : List Component) :
    componentsLe as bs = true ∨ componentsLe bs as = true := by
  induction as generalizing bs with
  | nil => exact Or.inl rfl
  | cons a as ih =>
      cases bs with
      | nil => exact Or.inr rfl
      | cons b bs =>
          rw [componentsLe_cons, componentsLe_cons]
          rcases a.lt_trichotomy b with h | rfl | h
          · exact Or.inl (Or.inl h)
          · exact (ih bs).imp (fun h => Or.inr ⟨rfl, h⟩) (fun h => Or.inr ⟨rfl, h⟩)
          · exact Or.inr (Or.inl h)

theorem componentsLe_trans {as bs cs : List Component} (h : componentsLe as bs = true)
    (h' : componentsLe bs cs = true) : componentsLe as cs = true := by
  induction as generalizing bs cs with
  | nil => rfl
  | cons a as ih =>
      cases bs with
      | nil => cases h
      | cons b bs =>
          cases cs with
          | nil => cases h'
          | cons c cs =>
              rw [componentsLe_cons] at h h' ⊢
              rcases h with h | ⟨rfl, h⟩ <;> rcases h' with h' | ⟨rfl, h'⟩
              · exact Or.inl (Component.lt_trans h h')
              · exact Or.inl h
              · exact Or.inl h'
              · exact Or.inr ⟨rfl, ih h h'⟩

theorem componentsLe_antisymm {as bs : List Component} (h : componentsLe as bs = true)
    (h' : componentsLe bs as = true) : as = bs := by
  induction as generalizing bs with
  | nil =>
      cases bs with
      | nil => rfl
      | cons b bs => cases h'
  | cons a as ih =>
      cases bs with
      | nil => cases h
      | cons b bs =>
          rw [componentsLe_cons] at h h'
          rcases h with h | ⟨rfl, h⟩
          · rcases h' with h' | ⟨rfl, _⟩
            · exact absurd h' (Component.lt_asymm h)
            · exact absurd h (Component.lt_asymm h)
          · rcases h' with h' | ⟨_, h'⟩
            · exact absurd h' (Component.lt_asymm h')
            · rw [ih h h']

variable {p q r : String}

theorem le_total (p q : String) : le p q = true ∨ le q p = true := componentsLe_total _ _

theorem le_trans (h : le p q = true) (h' : le q r = true) : le p r = true := componentsLe_trans h h'

theorem components_eq_of_le (h : le p q = true) (h' : le q p = true) : components p = components q :=
  componentsLe_antisymm h h'

theorem pairwise_mergeSort {α : Type} (path : α → String) (l : List α) :
    (l.mergeSort fun a b => le (path a) (path b)).Pairwise fun a b => le (path a) (path b) = true := by
  have htrans (a b c : α) (h : le (path a) (path b) = true) (h' : le (path b) (path c) = true) :
      le (path a) (path c) = true := le_trans h h'
  have htotal (a b : α) : (le (path a) (path b) || le (path b) (path a)) = true :=
    (Bool.or_eq_true ..).mpr (le_total (path a) (path b))
  exact List.pairwise_mergeSort htrans htotal l

end Path

/-! ## Sorted batches -/

namespace LoadedBatch

theorem pairwise_sort (batches : List LoadedBatch) :
    (sort batches).Pairwise fun a b => Path.le a.path b.path = true :=
  Path.pairwise_mergeSort (·.path) batches

theorem sort_perm (batches : List LoadedBatch) : (sort batches).Perm batches :=
  List.mergeSort_perm batches _

theorem sort_eq_of_perm {batches batches' : List LoadedBatch} (h : batches.Perm batches')
    (hpaths : (batches.map fun b => Path.components b.path).Nodup) : sort batches = sort batches' := by
  have hperm : (sort batches).Perm (sort batches') :=
    (sort_perm batches).trans (h.trans (sort_perm batches').symm)
  refine hperm.eq_of_pairwise (fun a b ha hb hab hba => ?_) (pairwise_sort batches)
    (pairwise_sort batches')
  have ha : a ∈ batches := (sort_perm batches).mem_iff.1 ha
  have hb : b ∈ batches := h.mem_iff.2 ((sort_perm batches').mem_iff.1 hb)
  exact List.inj_on_of_nodup_map hpaths ha hb (Path.components_eq_of_le hab hba)

end LoadedBatch

/-- Batches may be given in any order, as long as no two of their paths have the same components: sorted by
their paths, they make for the same document, reports, counts, reasons and verdict, whether the run stops at
a rejected class or not. -/
theorem run_sort_eq_of_perm (s : Settings) (tool : ToolInfo) (time time' : RunInfo)
    {batches batches' : List LoadedBatch} (h : batches.Perm batches')
    (hpaths : (batches.map fun b => Path.components b.path).Nodup) :
    (s.run tool time (LoadedBatch.sort batches)).untimed =
      (s.run tool time' (LoadedBatch.sort batches')).untimed := by
  rw [LoadedBatch.sort_eq_of_perm h hpaths]
  rfl

theorem run_sort_eq_of_perm_of_stopped :
    let stop : MethodModel :=
      { name := "stop", declaringType := "app.Broken", isStatic := true
        capabilities := CapabilitySet.empty.withDeclared Marker.preDestroy }
    let broken : LoadedBatch := ⟨"lib//b.json", { classes := [{ name := "app.Broken", methods := [stop] }] }⟩
    let sound : LoadedBatch := ⟨"lib/./a.json", { classes := [{ name := "app.Service" }] }⟩
    let s : Settings := { failFast := true }
    [broken, sound].Perm [sound, broken] ∧
      ([broken, sound].map fun b => Path.components b.path).Nodup ∧
      (s.run {} {} (LoadedBatch.sort [broken, sound])).untimed =
        (s.run {} {} (LoadedBatch.sort [sound, broken])).untimed ∧
      (s.run {} {} (LoadedBatch.sort [broken, sound])).report.classes.map (·.status) =
        [.planned, .rejected] := by
  intro stop broken sound s
  have hperm : [broken, sound].Perm [sound, broken] := .swap ..
  have hpaths : ([broken, sound].map fun b => Path.components b.path).Nodup := by decide
  have hsorted : LoadedBatch.sort [broken, sound] = [sound, broken] :=
    (LoadedBatch.sort_eq_of_perm hperm hpaths).trans (List.mergeSort_of_pairwise (by decide))
  refine ⟨hperm, hpaths, run_sort_eq_of_perm s {} {} {} hperm hpaths, ?_⟩
  rw [hsorted]
  decide +kernel

end Wiring
