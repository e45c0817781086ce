import Wiring.Proofs.Isolation
import Wiring.Proofs.Layers

/-!
# Definitions accumulate

A registry is told by which markers it defines and what it says that each carries (`eq_of_carried`), and
definitions only add to that. So it does not matter in which order they are given, how often, or how they are
put together, and nothing that is carried is ever lost (`extend_accumulates`).
-/

namespace Wiring

namespace Registry

variable {r : Registry} {d d₁ d₂ : StereotypeDefinitions}

/-- Registries are equal that define the same markers, and each to carry the same: their closures are made from
that. -/
theorem eq_of_carried {r' : Registry}
    (hdefined : ∀ m, r.definitions.contains m = r'.definitions.contains m)
    (hcarried : ∀ a b, b ∈ carried r.definitions a ↔ b ∈ carried r'.definitions a) : r = r' := by
  have hdefinitions : r.definitions = r'.definitions := by
    refine StringMap.ext_get? fun m => ?_
    have hm := hdefined m
    have hb := hcarried m
    simp only [StringMap.contains_eq_isSome] at hm
    simp only [carried] at hb
    cases h : r.definitions.get? m <;> cases h' : r'.definitions.get? m
    case none.none => rfl
    case some.some s s' =>
      simp only [h, h', Option.map_some, Option.getD_some] at hb
      exact congrArg some (StringSet.ext_mem hb)
    all_goals simp [h, h'] at hm
  obtain ⟨defs, closure, rfl⟩ := r
  obtain ⟨defs', closure', rfl⟩ := r'
  obtain rfl : defs = defs' := hdefinitions
  rfl

/-! ## What definitions add -/

theorem contains_foldl (es : List (String × List String)) (defs : StringMap StringSet) (m : String) :
    (es.foldl (fun d e => d.alter e.1 fun s => (s.getD .empty).insertAll e.2) defs).contains m =
      (defs.contains m || es.any (·.1 == m)) := by
  induction es generalizing defs with
  | nil => simp
  | cons e es ih =>
      rw [List.foldl_cons, ih, StringMap.contains_alter, List.any_cons, BEq.comm (a := m)]
      cases defs.contains m <;> simp

theorem contains_extend (r : Registry) (d : StereotypeDefinitions) (m : String) :
    (r.extend d).definitions.contains m = (r.definitions.contains m || d.contains m) :=
  contains_foldl d.entries r.definitions m

theorem extend_comm (r : Registry) (d₁ d₂ : StereotypeDefinitions) :
    (r.extend d₁).extend d₂ = (r.extend d₂).extend d₁ := by
  refine eq_of_carried (fun m => ?_) fun a b => ?_
  · simp only [contains_extend, Bool.or_assoc, Bool.or_comm (d₁.contains m)]
  · simp only [mem_carried_extend, or_assoc, or_comm (a := Given [d₁] a b)]

/-- Definitions that a registry has change nothing. -/
theorem extend_eq_self (hdefined : ∀ m, d.contains m = true → r.definitions.contains m = true)
    (hgiven : ∀ a b, Given [d] a b → b ∈ carried r.definitions a) : r.extend d = r := by
  refine eq_of_carried (fun m => ?_) fun a b => ?_
  · rw [contains_extend, Bool.or_eq_left_iff_imp]
    exact hdefined m
  · rw [mem_carried_extend]
    exact or_iff_left_of_imp (hgiven a b)

theorem extend_extend (r : Registry) (d : StereotypeDefinitions) :
    (r.extend d).extend d = r.extend d := by
  refine extend_eq_self (fun m hm => ?_) fun a b hb => ?_
  · rw [contains_extend, hm, Bool.or_true]
  · exact (mem_carried_extend r d a b).2 (Or.inr hb)

theorem Carries.extend {a b : String} (h : r.Carries a b) (d : StereotypeDefinitions) :
    (r.extend d).Carries a b := by
  induction h with
  | refl a => exact .refl a
  | step hb _ ih => exact .step ((mem_carried_extend r d _ _).2 (Or.inl hb)) ih

/-! ## Definitions put together -/

/-- Definitions of all markers that two others define, each to carry what either says. -/
structure Unites (d d₁ d₂ : StereotypeDefinitions) : Prop where
  defined : ∀ m, d.contains m = (d₁.contains m || d₂.contains m)
  given : ∀ a b, Given [d] a b ↔ Given [d₁, d₂] a b

/-- Definitions put together marker by marker. -/
def unite (d₁ d₂ : StereotypeDefinitions) : StereotypeDefinitions := d₁.mergeWith (· ++ ·) d₂

theorem given_singleton_iff {a b : String} : Given [d] a b ↔ ∃ l, d.get? a = some l ∧ b ∈ l := by
  simp [Given, StringMap.get?_eq_some]

theorem given_pair_iff {a b : String} : Given [d₁, d₂] a b ↔ Given [d₁] a b ∨ Given [d₂] a b := by
  simp [Given]

theorem unites_unite (d₁ d₂ : StereotypeDefinitions) : Unites (unite d₁ d₂) d₁ d₂ := by
  refine ⟨StringMap.contains_mergeWith _ d₁ d₂, fun a b => ?_⟩
  simp only [given_pair_iff, given_singleton_iff, unite, StringMap.get?_mergeWith]
  cases d₁.get? a <;> cases d₂.get? a <;> simp

theorem Unites.extend_eq (h : Unites d d₁ d₂) (r : Registry) :
    r.extend d = (r.extend d₁).extend d₂ := by
  refine eq_of_carried (fun m => ?_) fun a b => ?_
  · simp only [contains_extend, h.defined, Bool.or_assoc]
  · simp only [mem_carried_extend, h.given, given_pair_iff, or_assoc]

end Registry

/-! ## Definitions of a run -/

/-- A batch with other definitions. -/
def LoadedBatch.withStereotypes (d : StereotypeDefinitions) (b : LoadedBatch) : LoadedBatch :=
  { b with batch := { b.batch with stereotypes := d } }

theorem LoadedBatch.subjects_withStereotypes (s : Settings) (b : LoadedBatch)
    (d₁ d₂ : StereotypeDefinitions) :
    (b.withStereotypes d₂).subjects { s with stereotypes := d₁ } =
      (b.withStereotypes d₁).subjects { s with stereotypes := d₂ } := by
  have hregistry : (Registry.new d₂).extend d₁ = (Registry.new d₁).extend d₂ :=
    Registry.empty.extend_comm d₂ d₁
  rw [subjects_eq, subjects_eq]
  refine List.map_congr_left fun c _ => ?_
  exact congrArg (Subject.mk · c) hregistry

theorem Settings.run_withStereotypes (s : Settings) (tool : ToolInfo) (time : RunInfo)
    (batches : List LoadedBatch) (d₁ d₂ : StereotypeDefinitions) :
    ({ s with stereotypes := d₁ } : Settings).run tool time (batches.map (·.withStereotypes d₂)) =
      ({ s with stereotypes := d₂ } : Settings).run tool time
        (batches.map (·.withStereotypes d₁)) := by
  have hledger : ({ s with stereotypes := d₁ } : Settings).ledger (batches.map (·.withStereotypes d₂)) =
      ({ s with stereotypes := d₂ } : Settings).ledger (batches.map (·.withStereotypes d₁)) := by
    simp only [ledger_eq, List.flatMap_map, LoadedBatch.subjects_withStereotypes s _ d₁ d₂]
    rfl
  rw [run, run, hledger]

namespace Registry

/-- Whatever two definitions say, they make the same registry in either order and put together in any way, its
closure included; given again they change nothing. Definitions never take away from what a registry carries. So
in a run the definitions of the settings and those of a batch can change places. -/
theorem extend_accumulates (d₁ d₂ : StereotypeDefinitions) :
    let r := (new d₁).extend d₂
    r = (new d₂).extend d₁ ∧
      Unites (unite d₁ d₂) d₁ d₂ ∧ (∀ d, Unites d d₁ d₂ → r = new d) ∧
      r.extend d₁ = r ∧ r.extend d₂ = r ∧
      (∀ (r : Registry) d a b, r.carries a b = true → (r.extend d).carries a b = true) ∧
      (∀ (s : Settings) (b : LoadedBatch), b.subjects s =
        b.batch.classes.map fun c => ⟨(new s.stereotypes).extend b.batch.stereotypes, c⟩) ∧
      ∀ (s : Settings) tool time (batches : List LoadedBatch),
        ({ s with stereotypes := d₁ } : Settings).run tool time (batches.map (·.withStereotypes d₂)) =
          ({ s with stereotypes := d₂ } : Settings).run tool time
            (batches.map (·.withStereotypes d₁)) := by
  intro r
  have hcomm : r = (new d₂).extend d₁ := empty.extend_comm d₁ d₂
  refine ⟨hcomm, unites_unite d₁ d₂, fun d hd => (hd.extend_eq empty).symm, ?_, extend_extend _ d₂,
    fun r d a b h => ?_, fun s b => ?_, fun s tool time batches => ?_⟩
  · rw [hcomm]
    exact extend_extend _ d₁
  · exact carries_iff.2 ((carries_iff.1 h).extend d)
  · exact b.subjects_withStereotypes s s.stereotypes b.batch.stereotypes
  · exact s.run_withStereotypes tool time batches d₁ d₂

/-- Two definitions that overlap and have a cycle only together. -/
theorem extend_accumulates_of_cycle :
    let d₁ : StereotypeDefinitions := .ofList [("Cached", ["Timed", "Timed"]), ("Noted", [])]
    let d₂ : StereotypeDefinitions := .ofList [("Cached", ["Lazy"]), ("Timed", ["Cached", "Around"])]
    let r := (new d₁).extend d₂
    Unites (unite d₁ d₂) d₁ d₂ ∧ r = new (unite d₁ d₂) ∧ (new d₁).carries "Cached" "Timed" = true ∧
      r.carries "Cached" "Timed" = true ∧ r.carries "Timed" "Lazy" = true := by
  intro d₁ d₂ r
  obtain ⟨_, hunites, hd, _, _, hcarries, _⟩ := extend_accumulates d₁ d₂
  have htimed : (new d₁).carries "Cached" "Timed" = true := by decide +kernel
  exact ⟨hunites, hd _ hunites, htimed, hcarries _ d₂ _ _ htimed, by decide +kernel⟩

end Registry

end Wiring
