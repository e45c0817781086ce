import Wiring.Proofs.Isolation

/-!
# Runs that stop

A run that stops at the first rejected class is the run that goes on, cut off after that class: the classes
that follow are skipped, in its own batch and in all later ones (`run_truncates`). Where no class is rejected
the two runs are one.
-/

namespace Wiring

/-! ## Going on after a halt -/

/-- The report on a class that is not looked at. -/
def Subject.skipped (x : Subject) : ClassReport :=
  { className := x.model.name, status := .skipped, inputSha256 := x.model.fingerprint }

theorem Settings.foldl_enter_halted (s : Settings) {l : Ledger} (hl : l.halted = true)
    (xs : List Subject) :
    (xs.foldl s.enter l).reports = l.reports ++ xs.map (·.skipped) ∧
      (xs.foldl s.enter l).planSets = l.planSets := by
  induction xs generalizing l with
  | nil => exact ⟨(List.append_nil _).symm, rfl⟩
  | cons x xs ih =>
      have henter : s.enter l x =
          { l with
            reports := l.reports ++ [x.skipped]
            counts :=
              { l.counts with
                classes := l.counts.classes + 1
                skipped := l.counts.skipped + 1 } } := by
        rw [enter, if_pos hl]
        rfl
      obtain ⟨hreports, hsets⟩ := ih (l := s.enter l x) (by rw [henter, hl])
      rw [List.foldl_cons, hreports, hsets, henter, List.append_assoc]
      exact ⟨rfl, rfl⟩

/-- Among some classes `x` is the first that is rejected. -/
structure Settings.FirstRejected (s : Settings) (xs before : List Subject) (x : Subject)
    (after : List Subject) : Prop where
  eq : xs = before ++ x :: after
  before : ∀ y ∈ before, (s.judged y).status ≠ .rejected
  rejected : (s.judged x).status = .rejected

theorem Settings.foldl_enter_stopped (s : Settings) (hs : s.failFast = true) {l : Ledger}
    (hl : l.halted = false) {xs before after : List Subject} {x : Subject}
    (h : s.FirstRejected xs before x after) :
    (xs.foldl s.enter l).reports =
        l.reports ++ (before.map s.judged ++ s.judged x :: after.map (·.skipped)) ∧
      (xs.foldl s.enter l).planSets = l.planSets ++ before.filterMap s.planSet? := by
  obtain ⟨rfl, hbefore, hx⟩ := h
  have hpassed := Ledger.Passes.of_running hl fun _ => hbefore
  obtain ⟨hreports, hsets, hhalted⟩ := s.enter_running hpassed.running x
  have hhalt : (s.enter (before.foldl s.enter l) x).halted = true := by
    rw [hhalted, hs, hx]
    rfl
  obtain ⟨hrest, hkept⟩ := s.foldl_enter_halted hhalt after
  constructor
  · rw [List.foldl_append, List.foldl_cons, hrest, hreports, hpassed.reports]
    simp
  · rw [List.foldl_append, List.foldl_cons, hkept, hsets, hpassed.planSets, planSet?_eq_none hx]
    simp

/-! ## Two runs -/

/-- One run has stopped after `before` and the rejected `r`, where another went on to `after`. -/
structure Outcome.StopsAt (short full : Outcome) (before : List ClassReport) (r : ClassReport)
    (after : List ClassReport) : Prop where
  reports : ∃ skipped, short.report.classes = before ++ r :: skipped ∧
    ∀ k ∈ skipped, k.status = .skipped ∧ k.plans = [] ∧ k.rejection = none
  planSets : ∃ rest, full.document.planSets = short.document.planSets ++ rest ∧
    List.Forall₂ ClassReport.TellsOf before short.document.planSets ∧
    List.Forall₂ ClassReport.TellsOf (after.filter (·.status = .planned)) rest

/-- One run stops at the first class that another rejects. -/
structure Outcome.Truncates (short full : Outcome) : Prop where
  names : short.report.classes.map (·.className) = full.report.classes.map (·.className)
  fingerprints : short.report.classes.map (·.inputSha256) = full.report.classes.map (·.inputSha256)
  stops : ∀ before r after, full.report.classes = before ++ r :: after →
    (∀ k ∈ before, k.status ≠ .rejected) → r.status = .rejected → short.StopsAt full before r after
  once : short.report.classes.countP (·.status = .rejected) ≤ 1
  rejected : short.rejected = full.rejected
  status : short.report.verdict.status = full.report.verdict.status
  untimed : full.rejected = false → short.untimed = full.untimed

theorem Settings.forall₂_tellsOf (s : Settings) (xs : List Subject) :
    List.Forall₂ ClassReport.TellsOf ((xs.map s.judged).filter (·.status = .planned))
      (xs.filterMap s.planSet?) := by
  induction xs with
  | nil => exact .nil
  | cons x xs ih =>
      rcases s.judged_cases x with ⟨set, hset, hplanned, htells⟩ | ⟨hnone, hrejected⟩
      · simpa [hset, hplanned] using And.intro htells ih
      · simpa [hnone, hrejected] using ih

theorem Settings.filter_unrejected (s : Settings) {xs : List Subject}
    (h : ∀ x ∈ xs, (s.judged x).status ≠ .rejected) :
    (xs.map s.judged).filter (·.status = .planned) = xs.map s.judged := by
  rw [List.filter_eq_self, List.forall_mem_map]
  intro x hx
  rcases s.judged_cases x with ⟨_, _, hplanned, _⟩ | ⟨_, hrejected⟩
  · exact decide_eq_true hplanned
  · exact absurd hrejected (h x hx)

/-- Ledgers that agree with the classes gone over are told apart by what they have noted. -/
theorem Ledger.Agrees.ext {l l' : Ledger} {classes classes' : List ClassModel} (h : l.Agrees classes)
    (h' : l'.Agrees classes') (hreports : l.reports = l'.reports) (hsets : l.planSets = l'.planSets)
    (hhalted : l.halted = l'.halted) : l = l' := by
  have hcounts : l.counts = l'.counts := by rw [h.counts, h'.counts, hreports, hsets]
  cases l
  cases l'
  simp_all

section Runs

variable (s : Settings) (tool : ToolInfo) (time time' : RunInfo) (batches : List LoadedBatch)

theorem Settings.rejected_run_iff :
    (s.run tool time batches).rejected = true ↔
      ∃ r ∈ (s.run tool time batches).report.classes, r.status = .rejected := by
  have hcounts := (s.ledger_agrees batches).counts
  have hrejected : (s.run tool time batches).rejected = true ↔ 0 < (s.ledger batches).counts.rejected :=
    decide_eq_true_iff
  rw [hrejected, hcounts, ReportCounts.tally, List.countP_pos_iff]
  simp only [decide_eq_true_eq]
  rfl

theorem Settings.status_run_of_rejected (h : (s.run tool time batches).rejected = true) :
    (s.run tool time batches).report.verdict.status = .fail := if_pos (of_decide_eq_true h)

theorem Settings.run_onward :
    ({ s with failFast := false }.run tool time batches).report.classes =
        (batches.flatMap (·.subjects s)).map s.judged ∧
      ({ s with failFast := false }.run tool time batches).document.planSets =
        (batches.flatMap (·.subjects s)).filterMap s.planSet? :=
  { s with failFast := false }.run_eq rfl tool time batches

theorem Settings.run_stopped {before after : List Subject} {x : Subject}
    (h : s.FirstRejected (batches.flatMap (·.subjects s)) before x after) :
    ({ s with failFast := true }.run tool time batches).report.classes =
        before.map s.judged ++ s.judged x :: after.map (·.skipped) ∧
      ({ s with failFast := true }.run tool time batches).document.planSets =
        before.filterMap s.planSet? := by
  rw [run, ledger_eq]
  -- What becomes of a class by itself does not depend on whether the run stops.
  exact { s with failFast := true }.foldl_enter_stopped rfl rfl ⟨h.eq, h.before, h.rejected⟩

/-- Where a run stops, and what the run that goes on has to tell. -/
theorem Settings.stopsAt {before : List ClassReport} {r : ClassReport} {after : List ClassReport}
    (hfull : ({ s with failFast := false }.run tool time' batches).report.classes = before ++ r :: after)
    (hbefore : ∀ k ∈ before, k.status ≠ .rejected) (hr : r.status = .rejected) :
    ({ s with failFast := true }.run tool time batches).StopsAt
      ({ s with failFast := false }.run tool time' batches) before r after := by
  obtain ⟨hreports, hsets⟩ := s.run_onward tool time' batches
  rw [hreports] at hfull
  obtain ⟨xs, rest, hxs, rfl, hrest⟩ := List.map_eq_append_iff.1 hfull
  obtain ⟨x, ys, rfl, rfl, rfl⟩ := List.map_eq_cons_iff.1 hrest
  rw [List.forall_mem_map] at hbefore
  obtain ⟨hstopped, hplanned⟩ := s.run_stopped tool time batches ⟨hxs, hbefore, hr⟩
  have htold := s.forall₂_tellsOf xs
  rw [s.filter_unrejected hbefore] at htold
  refine ⟨⟨ys.map (·.skipped), hstopped, ?_⟩, ys.filterMap s.planSet?, ?_, ?_, s.forall₂_tellsOf ys⟩
  · exact List.forall_mem_map.2 fun y _ => ⟨rfl, rfl, rfl⟩
  · rw [hsets, hplanned, hxs, List.filterMap_append, List.filterMap_cons_none (planSet?_eq_none hr)]
  · rwa [hplanned]

/-- Where no class is rejected, the run that stops at rejected classes is the run that goes on. -/
theorem Settings.ledger_of_unrejected
    (h : ∀ x ∈ batches.flatMap (·.subjects s), (s.judged x).status ≠ .rejected) :
    { s with failFast := true }.ledger batches = { s with failFast := false }.ledger batches := by
  have hpasses (b : Bool) : Ledger.Passes s {} (batches.flatMap (·.subjects s))
      ({ s with failFast := b }.ledger batches) := by
    have hrun := Ledger.Passes.of_running (s := { s with failFast := b }) (l := {}) rfl fun _ => h
    rw [ledger_eq]
    exact ⟨hrun.reports, hrun.planSets, hrun.running⟩
  have hagrees (b : Bool) := { s with failFast := b }.ledger_agrees batches
  refine (hagrees true).ext (hagrees false) ?_ ?_ ?_
  · exact (hpasses true).reports.trans (hpasses false).reports.symm
  · exact (hpasses true).planSets.trans (hpasses false).planSets.symm
  · exact (hpasses true).running.trans (hpasses false).running.symm

/-- The first class that is rejected, if one is. -/
theorem Settings.unrejected_or_first (xs : List Subject) :
    (∀ x ∈ xs, (s.judged x).status ≠ .rejected) ∨
      ∃ before x after, s.FirstRejected xs before x after := by
  by_cases h : ∀ x ∈ xs, (s.judged x).status ≠ .rejected
  · exact Or.inl h
  · push Not at h
    obtain ⟨x, hmem, hx⟩ := h
    obtain ⟨x, before, after, hbefore, hx, hxs, _⟩ :=
      List.exists_of_eraseP (p := fun x => (s.judged x).status = .rejected) hmem (decide_eq_true hx)
    refine Or.inr ⟨before, x, after, hxs, fun y hy => ?_, of_decide_eq_true hx⟩
    simpa using hbefore y hy

theorem Settings.rejected_of_first {before after : List Subject} {x : Subject}
    (h : s.FirstRejected (batches.flatMap (·.subjects s)) before x after) :
    ({ s with failFast := true }.run tool time batches).rejected = true ∧
      ({ s with failFast := false }.run tool time' batches).rejected = true := by
  obtain ⟨hstopped, _⟩ := s.run_stopped tool time batches h
  obtain ⟨honward, _⟩ := s.run_onward tool time' batches
  constructor
  · rw [rejected_run_iff, hstopped]
    exact ⟨_, List.mem_append_right _ List.mem_cons_self, h.rejected⟩
  · rw [rejected_run_iff, honward, h.eq, List.map_append]
    exact ⟨_, List.mem_append_right _ List.mem_cons_self, h.rejected⟩

theorem Settings.countP_unrejected {xs : List Subject}
    (h : ∀ x ∈ xs, (s.judged x).status ≠ .rejected) :
    (xs.map s.judged).countP (·.status = .rejected) = 0 := by
  rw [List.countP_eq_zero, List.forall_mem_map]
  exact fun x hx => by simpa using h x hx

theorem Settings.countP_stopped {before after : List Subject} {x : Subject}
    (h : s.FirstRejected (batches.flatMap (·.subjects s)) before x after) :
    let o := { s with failFast := true }.run tool time batches
    o.report.classes.countP (·.status = .rejected) = 1 := by
  intro o
  have hclasses : o.report.classes = before.map s.judged ++ s.judged x :: after.map (·.skipped) :=
    (s.run_stopped tool time batches h).1
  have hskipped : (after.map (·.skipped)).countP (·.status = .rejected) = 0 := by
    rw [List.countP_eq_zero, List.forall_mem_map]
    exact fun _ _ => nofun
  rw [hclasses, List.countP_append, s.countP_unrejected h.before, List.countP_cons, hskipped,
    if_pos (decide_eq_true h.rejected)]

end Runs

/-- A run that stops at the first rejected class tells of the same classes as the run that goes on, in the
same order. It agrees with that run up to and with the class at which it stops, and has planned what comes
before it; all later classes are skipped. Both runs come to the same verdict, and where no class is rejected
they are the same, apart from their times. -/
theorem run_truncates (s : Settings) (tool : ToolInfo) (time time' : RunInfo)
    (batches : List LoadedBatch) :
    ({ s with failFast := true }.run tool time batches).Truncates
      ({ s with failFast := false }.run tool time' batches) := by
  have hagrees (b : Bool) := { s with failFast := b }.ledger_agrees batches
  have hnames := (hagrees true).names.trans (hagrees false).names.symm
  have hfingerprints := (hagrees true).fingerprints.trans (hagrees false).fingerprints.symm
  rcases s.unrejected_or_first (batches.flatMap (·.subjects s)) with h | ⟨xs, x, ys, h⟩
  · have huntimed : ({ s with failFast := true }.run tool time batches).untimed =
        ({ s with failFast := false }.run tool time' batches).untimed := by
      rw [Settings.run, Settings.run, s.ledger_of_unrejected batches h]
      rfl
    have hrejected := congrArg Outcome.rejected huntimed
    have hclasses : ({ s with failFast := true }.run tool time batches).report.classes =
        (batches.flatMap (·.subjects s)).map s.judged :=
      (congrArg (·.report.classes) huntimed).trans (s.run_onward tool time' batches).1
    exact {
      names := hnames
      fingerprints := hfingerprints
      stops _ _ _ := s.stopsAt tool time time' batches
      once := by rw [hclasses, s.countP_unrejected h]; exact Nat.zero_le 1
      rejected := hrejected
      status := congrArg (·.report.verdict.status) huntimed
      untimed _ := huntimed }
  · obtain ⟨hshort, hfull⟩ := s.rejected_of_first tool time time' batches h
    exact {
      names := hnames
      fingerprints := hfingerprints
      stops _ _ _ := s.stopsAt tool time time' batches
      once := Nat.le_of_eq (s.countP_stopped tool time batches h)
      rejected := hshort.trans hfull.symm
      status := (Settings.status_run_of_rejected _ tool time batches hshort).trans
        (Settings.status_run_of_rejected _ tool time' batches hfull).symm
      untimed hnone := by rw [hfull] at hnone; cases hnone }

/-- A class is rejected, and the batch after its own is skipped. -/
theorem run_truncates_across_batches :
    let c : ClassModel := { name := "app.Service" }
    let stop : MethodModel :=
      { name := "stop", declaringType := "app.Broken", isStatic := true
        capabilities := CapabilitySet.empty.withDeclared Marker.preDestroy }
    let broken : ClassModel := { name := "app.Broken", methods := [stop] }
    let batches : List LoadedBatch := [⟨"a.json", { classes := [c, broken] }⟩, ⟨"b.json", { classes := [c] }⟩]
    let short := ({ failFast := true } : Settings).run {} {} batches
    let full := ({ failFast := false } : Settings).run {} {} batches
    full.report.classes.map (·.status) = [.planned, .rejected, .planned] ∧
      short.report.classes.map (·.status) = [.planned, .rejected, .skipped] ∧
      ∃ p q, full.document.planSets = [p, q] ∧ short.document.planSets = [p] := by
  intro c stop broken batches short full
  have h : short.Truncates full := run_truncates {} {} {} {} batches
  have hstatus : full.report.classes.map (·.status) = [.planned, .rejected, .planned] := by
    decide +kernel
  obtain ⟨k, rest, hclasses, hk, hrest⟩ := List.map_eq_cons_iff.1 hstatus
  obtain ⟨r, rest, rfl, hr, hrest⟩ := List.map_eq_cons_iff.1 hrest
  obtain ⟨k', rfl, hk'⟩ := List.map_eq_singleton_iff.1 hrest
  obtain ⟨⟨skipped, hshort, hskipped⟩, _, hsets, hbefore, hafter⟩ :=
    h.stops [k] r [k'] hclasses (by simp [hk]) hr
  have hlength := congrArg List.length h.names
  simp only [List.length_map, hshort, hclasses, List.length_append, List.length_cons, List.length_nil]
    at hlength
  obtain ⟨x, rfl⟩ := List.length_eq_one_iff.1 (show skipped.length = 1 by omega)
  have hafter' : [k'].filter (·.status = .planned) = [k'] := by simp [hk']
  rw [hafter'] at hafter
  obtain ⟨p, _, _, hnil, hp⟩ := List.forall₂_cons_left_iff.1 hbefore
  obtain ⟨q, _, _, hnil', rfl⟩ := List.forall₂_cons_left_iff.1 hafter
  obtain rfl := List.forall₂_nil_left_iff.1 hnil
  obtain rfl := List.forall₂_nil_left_iff.1 hnil'
  refine ⟨hstatus, ?_, p, q, by rw [hsets, hp]; rfl, hp⟩
  rw [hshort]
  simp [hk, hr, hskipped x List.mem_cons_self]

end Wiring
