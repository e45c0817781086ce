import Mathlib.Algebra.GroupWithZero.Nat
import Wiring.Proofs.Frame
import Wiring.Run.Basic

/-!
# What a run says about itself

The report, its counts and the plan document agree: going over one more class keeps them in agreement
(`Ledger.Agrees.enter`), so every run ends with them in agreement (`run_agrees`).
-/

namespace Wiring

/-- The numbers of some reports and plan sets. -/
def ReportCounts.tally (reports : List ClassReport) (sets : List PlanSet) : ReportCounts where
  classes := reports.length
  planned := reports.countP (·.status = .planned)
  rejected := reports.countP (·.status = .rejected)
  skipped := reports.countP (·.status = .skipped)
  plans := (sets.map (·.planCount)).sum
  proxies := sets.countP (·.proxy.isSome)
  adapters := (sets.map (·.adapters.length)).sum

/-- Only a planned class has plans, and only a rejected one has a rejection. -/
structure ClassReport.Consistent (r : ClassReport) : Prop where
  plans : r.status ≠ .planned → r.plans = []
  rejection : r.rejection.isSome = true ↔ r.status = .rejected

/-- A report tells of a plan set. -/
structure ClassReport.TellsOf (r : ClassReport) (set : PlanSet) : Prop where
  className : r.className = set.className
  plans : r.plans = set.plans.map (·.name)

/-- A ledger tells of some classes, in their order. -/
structure Ledger.Agrees (l : Ledger) (classes : List ClassModel) : Prop where
  names : l.reports.map (·.className) = classes.map (·.name)
  fingerprints : l.reports.map (·.inputSha256) = classes.map (·.fingerprint)
  consistent : ∀ r ∈ l.reports, r.Consistent
  planSets : List.Forall₂ ClassReport.TellsOf (l.reports.filter (·.status = .planned)) l.planSets
  counts : l.counts = .tally l.reports l.planSets
  halted : 0 < l.counts.skipped → l.halted = true

/-! ## One class -/

theorem className_of_build {s : Setting} {c : ClassModel} {set : PlanSet}
    (h : (build s c).result = .ok set) : set.className = c.name := by
  have hleft : set.className = (build s c).model.name := by
    unfold build at h ⊢
    split at h
    · cases h
      rfl
    · cases h
  rw [hleft, (ClassModel.Marked.left s c).name_eq]

theorem name_classify (s : Settings) (x : Subject) : (s.classify x).model.name = x.model.name :=
  (ClassModel.Marked.left _ x.model).name_eq

namespace Ledger.Agrees

variable {l : Ledger} {classes : List ClassModel}

theorem start : Ledger.Agrees {} [] :=
  ⟨rfl, rfl, nofun, .nil, rfl, nofun⟩

theorem planSets_of_planned (h : l.Agrees classes) {r : ClassReport} {set : PlanSet}
    (hr : r.status = .planned) (ht : r.TellsOf set) :
    List.Forall₂ ClassReport.TellsOf ((l.reports ++ [r]).filter (·.status = .planned))
      (l.planSets ++ [set]) := by
  have hfilter : [r].filter (·.status = .planned) = [r] := by simp [hr]
  rw [List.filter_append, hfilter]
  exact List.rel_append h.planSets (.cons ht .nil)

theorem planSets_of_unplanned (h : l.Agrees classes) {r : ClassReport} (hr : r.status ≠ .planned) :
    List.Forall₂ ClassReport.TellsOf ((l.reports ++ [r]).filter (·.status = .planned)) l.planSets := by
  have hfilter : [r].filter (·.status = .planned) = [] := by simp [hr]
  rw [List.filter_append, hfilter, List.append_nil]
  exact h.planSets

/-- What a ledger needs to agree once a report is added to it. -/
theorem add (h : l.Agrees classes) {c : ClassModel} {r : ClassReport} {sets : List PlanSet}
    {n : ReportCounts} {halted : Bool} (hname : r.className = c.name)
    (hfingerprint : r.inputSha256 = c.fingerprint) (hr : r.Consistent)
    (hsets : List.Forall₂ ClassReport.TellsOf ((l.reports ++ [r]).filter (·.status = .planned)) sets)
    (hn : n = .tally (l.reports ++ [r]) sets) (hh : 0 < n.skipped → halted = true) :
    Ledger.Agrees ⟨sets, l.reports ++ [r], n, halted⟩ (classes ++ [c]) where
  names := by simp [h.names, hname]
  fingerprints := by simp [h.fingerprints, hfingerprint]
  consistent r' hr' := by
    rcases List.mem_append.1 hr' with hr' | hr'
    · exact h.consistent r' hr'
    · rwa [List.mem_singleton.1 hr']
  planSets := hsets
  counts := hn
  halted := hh

/-- Going over a class keeps a ledger in agreement. -/
theorem enter (h : l.Agrees classes) (s : Settings) (x : Subject) :
    (s.enter l x).Agrees (classes ++ [x.model]) := by
  have hcounts := h.counts
  -- Nothing is skipped before the run is halted.
  have hskipped (hl : ¬l.halted = true) {n : Nat} (hn : n = l.counts.skipped) {b : Bool} :
      0 < n → b = true := fun hpos => absurd (h.halted (hn ▸ hpos)) hl
  unfold Settings.enter
  simp only
  split
  · rename_i hl
    exact h.add rfl rfl ⟨fun _ => rfl, by simp⟩ (h.planSets_of_unplanned (by simp))
      (by simp [hcounts, ReportCounts.tally]) fun _ => hl
  · rename_i hl
    split
    · rename_i set hset
      have hname : (s.classify x).model.name = set.className :=
        (name_classify s x).trans (className_of_build hset).symm
      exact h.add (name_classify s x) rfl ⟨fun hp => absurd rfl hp, by simp⟩
        (h.planSets_of_planned rfl ⟨hname, rfl⟩) (by simp [hcounts, ReportCounts.tally]) (hskipped hl rfl)
    · exact h.add (name_classify s x) rfl ⟨fun _ => rfl, by simp⟩ (h.planSets_of_unplanned (by simp))
        (by simp [hcounts, ReportCounts.tally]) (hskipped hl rfl)

/-- Going over some batches keeps a ledger in agreement. -/
theorem enterBatches (h : l.Agrees classes) (s : Settings) (batches : List LoadedBatch) :
    (batches.foldl (fun l b => (b.subjects s).foldl s.enter l) l).Agrees
      (classes ++ batches.flatMap (·.batch.classes)) := by
  have hsubjects (xs : List Subject) {l : Ledger} {classes : List ClassModel} (h : l.Agrees classes) :
      (xs.foldl s.enter l).Agrees (classes ++ xs.map (·.model)) := by
    induction xs generalizing l classes with
    | nil => simpa using h
    | cons x xs ih => simpa using ih (h.enter s x)
  induction batches generalizing l classes with
  | nil => simpa using h
  | cons b batches ih =>
      have hb := ih (hsubjects (b.subjects s) h)
      simpa [LoadedBatch.subjects, Function.comp_def] using hb

end Ledger.Agrees

theorem Settings.ledger_agrees (s : Settings) (batches : List LoadedBatch) :
    (s.ledger batches).Agrees (batches.flatMap (·.batch.classes)) :=
  Ledger.Agrees.start.enterBatches s batches

/-! ## Runs -/

/-- An outcome apart from when it came about. -/
def Outcome.untimed (o : Outcome) : Outcome := { o with report := { o.report with run := {} } }

/-- The report, its counts and the plan document tell of some classes, in their order, and agree. -/
structure Outcome.Agrees (o : Outcome) (classes : List ClassModel) : Prop where
  names : o.report.classes.map (·.className) = classes.map (·.name)
  consistent : ∀ r ∈ o.report.classes, r.Consistent
  planSets : List.Forall₂ ClassReport.TellsOf (o.report.classes.filter (·.status = .planned))
    o.document.planSets
  counts : o.report.verdict.counts = .tally o.report.classes o.document.planSets
  total : o.report.verdict.counts.classes = o.report.verdict.counts.planned +
    o.report.verdict.counts.rejected + o.report.verdict.counts.skipped
  rejected : o.rejected = true ↔ 0 < o.report.verdict.counts.rejected
  fail : o.report.verdict.status = .fail ↔ 0 < o.report.verdict.counts.rejected
  skip : o.report.verdict.status = .skip ↔ classes = []
  pass : o.report.verdict.status = .pass ↔
    o.report.verdict.counts.rejected = 0 ∧ classes ≠ []
  reasons : o.report.verdict.reasons =
    (if 0 < o.report.verdict.counts.rejected then ["rejected_classes"] else []) ++
      (if 0 < o.report.verdict.counts.skipped then ["fail_fast"] else []) ++
      (if classes = [] then ["no_inputs"] else [])

theorem ReportCounts.classes_tally (reports : List ClassReport) (sets : List PlanSet) :
    (tally reports sets).classes =
      (tally reports sets).planned + (tally reports sets).rejected + (tally reports sets).skipped := by
  simp only [tally]
  induction reports with
  | nil => rfl
  | cons r rs ih =>
      simp only [List.length_cons, List.countP_cons]
      cases r.status <;> simp <;> omega

theorem Ledger.Agrees.outcome {l : Ledger} {classes : List ClassModel} (h : l.Agrees classes)
    (document : PlanDocument) (report : Report) (hdocument : document.planSets = l.planSets)
    (hclasses : report.classes = l.reports) (hverdict : report.verdict = l.verdict) :
    Outcome.Agrees ⟨document, report, 0 < l.counts.rejected⟩ classes := by
  have hlength : l.counts.classes = classes.length := by
    rw [h.counts, ← List.length_map (·.name), ← h.names, List.length_map]
    rfl
  have hnone : l.counts.classes = 0 ↔ classes = [] := by rw [hlength, List.length_eq_zero_iff]
  have htotal : l.counts.classes = l.counts.planned + l.counts.rejected + l.counts.skipped := by
    rw [h.counts]
    exact ReportCounts.classes_tally l.reports l.planSets
  have hcounts : report.verdict.counts = l.counts := by rw [hverdict, Ledger.verdict]
  have hstatus : report.verdict.status =
      if 0 < l.counts.rejected then .fail else if l.counts.classes = 0 then .skip else .pass := by
    rw [hverdict, Ledger.verdict]
  have hskipped : l.halted = true ∧ 0 < l.counts.skipped ↔ 0 < l.counts.skipped :=
    and_iff_right_of_imp h.halted
  refine ⟨?_, ?_, ?_, ?_, ?_, ?_, ?_, ?_, ?_, ?_⟩ <;> simp only [hdocument, hclasses, hcounts, hstatus]
  · exact h.names
  · exact h.consistent
  · exact h.planSets
  · exact h.counts
  · exact htotal
  · exact decide_eq_true_iff
  · split_ifs with hr hc
    · exact ⟨fun _ => hr, fun _ => rfl⟩
    · exact ⟨nofun, fun h => absurd h hr⟩
    · exact ⟨nofun, fun h => absurd h hr⟩
  · rw [← hnone]
    split_ifs with hr hc
    · exact ⟨nofun, fun h => by omega⟩
    · exact ⟨fun _ => hc, fun _ => rfl⟩
    · exact ⟨nofun, fun h => absurd h hc⟩
  · rw [ne_eq, ← hnone]
    split_ifs with hr hc
    · exact ⟨nofun, fun h => by omega⟩
    · exact ⟨nofun, fun h => absurd hc h.2⟩
    · exact ⟨fun _ => ⟨by omega, hc⟩, fun _ => rfl⟩
  · simp only [hverdict, Ledger.verdict, hskipped, hnone]

/-- After every run the report, its counts and the plan document agree, and tell of the classes of the
batches in their order. -/
theorem run_agrees (s : Settings) (tool : ToolInfo) (time : RunInfo) (batches : List LoadedBatch) :
    (s.run tool time batches).Agrees (batches.flatMap (·.batch.classes)) := by
  have hledger : (s.ledger batches).Agrees (batches.flatMap (·.batch.classes)) :=
    Ledger.Agrees.start.enterBatches s batches
  exact hledger.outcome _ _ rfl rfl rfl

end Wiring
