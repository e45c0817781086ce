import Wiring.Proofs.Closure
import Wiring.Proofs.Reports

/-!
# Classes one by one

As long as a run is not halted, it adds to its report and its document what becomes of each class by itself
(`Ledger.Passes.of_running`). A run that never halts thus comes to what the runs over its single classes come
to, one after the other (`run_isolates`).
-/

namespace Wiring

/-! ## What becomes of a class -/

/-- The report on a class that is looked at. -/
def Settings.judged (s : Settings) (x : Subject) : ClassReport :=
  match (s.classify x).result with
  | .ok set =>
    { className := x.model.name, status := .planned, inputSha256 := x.model.fingerprint
      plans := set.plans.map (·.name) }
  | .error v =>
    { className := x.model.name, status := .rejected, inputSha256 := x.model.fingerprint
      rejection := some ⟨v.rule.key, v.element, v.message⟩ }

/-- The plan set of a class that is looked at, unless it is rejected. -/
def Settings.planSet? (s : Settings) (x : Subject) : Option PlanSet := (s.classify x).result.toOption

/-- A ledger has come from another by going over some classes without a halt. -/
structure Ledger.Passes (s : Settings) (l : Ledger) (xs : List Subject) (l' : Ledger) : Prop where
  reports : l'.reports = l.reports ++ xs.map s.judged
  planSets : l'.planSets = l.planSets ++ xs.filterMap s.planSet?
  running : l'.halted = false

theorem Settings.judged_cases (s : Settings) (x : Subject) :
    (∃ set, s.planSet? x = some set ∧ (s.judged x).status = .planned ∧ (s.judged x).TellsOf set) ∨
      s.planSet? x = none ∧ (s.judged x).status = .rejected := by
  unfold judged planSet?
  cases hresult : (s.classify x).result with
  | ok set => exact Or.inl ⟨set, rfl, rfl, (className_of_build hresult).symm, rfl⟩
  | error v => exact Or.inr ⟨rfl, rfl⟩

theorem Settings.planSet?_eq_none {s : Settings} {x : Subject} (h : (s.judged x).status = .rejected) :
    s.planSet? x = none := by
  rcases s.judged_cases x with ⟨_, _, hplanned, _⟩ | ⟨hnone, _⟩
  · rw [hplanned] at h
    cases h
  · exact hnone

/-- What a class adds to a run that is not halted, and whether it halts the run. -/
theorem Settings.enter_running (s : Settings) {l : Ledger} (hl : l.halted = false) (x : Subject) :
    (s.enter l x).reports = l.reports ++ [s.judged x] ∧
      (s.enter l x).planSets = l.planSets ++ (s.planSet? x).toList ∧
      (s.enter l x).halted = (s.failFast && (s.judged x).status = .rejected) := by
  have hname := name_classify s x
  unfold enter judged planSet?
  cases hresult : (s.classify x).result with
  | ok set => simp [hl, hname, hresult, Except.toOption]
  | error v => simp [hl, hname, hresult, Except.toOption]

/-- A run that is not halted passes classes at which it does not halt. -/
theorem Ledger.Passes.of_running {s : Settings} {l : Ledger} (hl : l.halted = false) {xs : List Subject}
    (hxs : s.failFast = true → ∀ x ∈ xs, (s.judged x).status ≠ .rejected) :
    Passes s l xs (xs.foldl s.enter l) := by
  induction xs generalizing l with
  | nil => exact ⟨(List.append_nil _).symm, (List.append_nil _).symm, hl⟩
  | cons x xs ih =>
      obtain ⟨hreports, hsets, hhalted⟩ := s.enter_running hl x
      -- If the run were to stop at `x`, then `x` would not be rejected.
      have hrunning : (s.enter l x).halted = false := by
        rw [hhalted, Bool.and_eq_false_imp]
        exact fun hs => decide_eq_false (hxs hs x List.mem_cons_self)
      have hrest := ih hrunning fun hs y hy => hxs hs y (List.mem_cons_of_mem x hy)
      refine ⟨?_, ?_, hrest.running⟩
      · rw [List.foldl_cons, hrest.reports, hreports, List.append_assoc]
        rfl
      · rw [List.foldl_cons, hrest.planSets, hsets, List.append_assoc]
        cases hx : s.planSet? x <;> simp [hx]

theorem Settings.ledger_eq (s : Settings) (batches : List LoadedBatch) :
    s.ledger batches = (batches.flatMap (·.subjects s)).foldl s.enter {} :=
  (List.foldl_flatMap ..).symm

/-- A run that does not stop at rejected classes passes all classes. -/
theorem Settings.run_eq (s : Settings) (hs : s.failFast = false) (tool : ToolInfo) (time : RunInfo)
    (batches : List LoadedBatch) :
    (s.run tool time batches).report.classes = (batches.flatMap (·.subjects s)).map s.judged ∧
      (s.run tool time batches).document.planSets =
        (batches.flatMap (·.subjects s)).filterMap s.planSet? := by
  have hpasses : Ledger.Passes s {} (batches.flatMap (·.subjects s)) (s.ledger batches) := by
    rw [s.ledger_eq]
    exact .of_running rfl fun h => by rw [hs] at h; cases h
  exact ⟨hpasses.reports, hpasses.planSets⟩

/-! ## Runs over one class -/

/-- One class by itself, with the definitions of a batch. -/
def LoadedBatch.alone (b : LoadedBatch) (path : String) (c : ClassModel) : LoadedBatch :=
  ⟨path, { b.batch with classes := [c] }⟩

/-- A class as it stands in a batch. -/
def LoadedBatch.subject (s : Settings) (b : LoadedBatch) (c : ClassModel) : Subject :=
  ⟨(Registry.new b.batch.stereotypes).extend s.stereotypes, c⟩

theorem LoadedBatch.subjects_eq (s : Settings) (b : LoadedBatch) :
    b.subjects s = b.batch.classes.map (b.subject s) := rfl

section Alone

variable (s : Settings) (tool : ToolInfo) (time : RunInfo) (path : String) (b : LoadedBatch)

theorem Settings.run_alone (c : ClassModel) :
    (s.run tool time [b.alone path c]).report.classes = [s.judged (b.subject s c)] ∧
      (s.run tool time [b.alone path c]).document.planSets = (s.planSet? (b.subject s c)).toList := by
  obtain ⟨hreports, hsets, _⟩ := s.enter_running (l := {}) rfl (b.subject s c)
  exact ⟨hreports, hsets⟩

theorem Settings.map_judged :
    (b.subjects s).map s.judged =
      b.batch.classes.flatMap fun c => (s.run tool time [b.alone path c]).report.classes := by
  have halone (c : ClassModel) := (s.run_alone tool time path b c).1
  simp only [halone, b.subjects_eq s, List.map_map]
  exact List.map_eq_flatMap

theorem Settings.filterMap_planSet? :
    (b.subjects s).filterMap s.planSet? =
      b.batch.classes.flatMap fun c => (s.run tool time [b.alone path c]).document.planSets := by
  have halone (c : ClassModel) := (s.run_alone tool time path b c).2
  simp only [halone, b.subjects_eq s, List.filterMap_map]
  exact List.filterMap_eq_flatMap_toList ..

end Alone

/-- A run that does not stop at a rejected class reports on each class, and plans it, as a run over that
class alone does, with the definitions of its batch. What markers carry for the classes of a batch is what
the definitions of that batch and those of the settings say. -/
theorem run_isolates (s : Settings) (h : s.failFast = false) (tool tool' : ToolInfo)
    (time time' : RunInfo) (path : String) (batches : List LoadedBatch) :
    (s.run tool time batches).report.classes =
        batches.flatMap (fun b => b.batch.classes.flatMap fun c =>
          (s.run tool' time' [b.alone path c]).report.classes) ∧
      (s.run tool time batches).document.planSets =
        batches.flatMap (fun b => b.batch.classes.flatMap fun c =>
          (s.run tool' time' [b.alone path c]).document.planSets) ∧
      ∀ b ∈ batches, ∀ x ∈ b.subjects s, ∀ m t, x.registry.carries m t = true ↔
        Relation.ReflTransGen (Registry.Given [b.batch.stereotypes, s.stereotypes]) m t := by
  obtain ⟨hreports, hsets⟩ := s.run_eq h tool time batches
  refine ⟨?_, ?_, ?_⟩
  · simp only [hreports, List.map_flatMap, s.map_judged tool' time' path]
  · simp only [hsets, List.filterMap_flatMap, s.filterMap_planSet? tool' time' path]
  · intro b _ x hx m t
    obtain ⟨c, _, rfl⟩ := List.mem_map.1 hx
    exact Registry.carries_iff.trans (Registry.carries_given b.batch.stereotypes [s.stereotypes])

theorem run_isolates_of_two_batches :
    let c : ClassModel :=
      { name := "app.Audited", capabilities := CapabilitySet.empty.withDeclared "Timed"
        methods := [{ name := "run", declaringType := "app.Audited" }] }
    let timed : LoadedBatch :=
      ⟨"timed.json", { stereotypes := .ofList [("Timed", [Marker.around])], classes := [c] }⟩
    let plain : LoadedBatch := ⟨"plain.json", { classes := [c] }⟩
    let s : Settings := {}
    s.failFast = false ∧
      (s.run {} {} [timed, plain]).report.classes =
        (s.run {} {} [timed.alone "" c]).report.classes ++ (s.run {} {} [plain.alone "" c]).report.classes ∧
      (s.run {} {} [timed, plain]).document.planSets =
        (s.run {} {} [timed.alone "" c]).document.planSets ++
          (s.run {} {} [plain.alone "" c]).document.planSets ∧
      (s.run {} {} [timed, plain]).document.planSets.map (·.proxy.isSome) = [true, false] := by
  intro c timed plain s
  obtain ⟨hreports, hsets, _⟩ := run_isolates s rfl {} {} {} {} "" [timed, plain]
  have hproxies : (s.run {} {} [timed, plain]).document.planSets.map (·.proxy.isSome) = [true, false] := by
    decide +kernel
  simp only [timed, plain, List.flatMap_cons, List.flatMap_nil, List.append_nil] at hreports hsets
  exact ⟨rfl, hreports, hsets, hproxies⟩

end Wiring
