import Wiring.Classify.Pass
import Wiring.Format.Report
import Wiring.Hash.Sha256
import Wiring.Path

/-!
# Runs

A run goes over every class of every batch under its settings. A `Ledger` is what it has come to so far;
`Settings.enter` goes over one more class, and from the last ledger the report and the plan document are
made.
-/

namespace Wiring

/-- What a run is told. -/
structure Settings where
  /-- The mode of every class, in place of the one that its markers call for. -/
  mode : Option Mode := none
  optionalFieldValues : Bool := false
  legacyDialectAccess : Bool := false
  /-- Look at no class after the first that is rejected. -/
  failFast : Bool := false
  /-- Definitions in addition to those of each batch. -/
  stereotypes : StereotypeDefinitions := .empty

/-- A batch and where it comes from. -/
structure LoadedBatch where
  path : String
  batch : ClassBatch

/-- Batches in the order of their paths. -/
def LoadedBatch.sort (batches : List LoadedBatch) : List LoadedBatch :=
  batches.mergeSort fun a b => Path.le a.path b.path

/-- The path of a batch that comes from nowhere. -/
def LoadedBatch.memoryPath : String := "<memory>"

/-- A class with the registry of its batch. -/
structure Subject where
  registry : Registry
  model : ClassModel

/-- The classes of a batch. -/
def LoadedBatch.subjects (s : Settings) (b : LoadedBatch) : List Subject :=
  let registry := (Registry.new b.batch.stereotypes).extend s.stereotypes
  b.batch.classes.map fun c => ⟨registry, c⟩

/-- The strategy for a class. -/
def Settings.strategyFor (s : Settings) (x : Subject) : Strategy :=
  let strategy := Strategy.ofMode (s.mode.getD (Mode.detect x.model x.registry))
  { strategy with
    optionalFieldValues := strategy.optionalFieldValues || s.optionalFieldValues
    legacyDialectAccess := s.legacyDialectAccess }

/-- Classifies a class. -/
def Settings.classify (s : Settings) (x : Subject) : Build :=
  build { strategy := s.strategyFor x, registry := x.registry } x.model

/-- The digest of a class as it stands. -/
def ClassModel.fingerprint (c : ClassModel) : String :=
  Sha256.hexOf (ClassModel.codec.write c).compact

/-- What a run has come to so far. -/
structure Ledger where
  planSets : List PlanSet := []
  reports : List ClassReport := []
  counts : ReportCounts := {}
  /-- Whether the classes to come are skipped. -/
  halted : Bool := false

/-- Goes over a class. Its fingerprint is taken before it is classified, which may mark its methods. -/
def Settings.enter (s : Settings) (l : Ledger) (x : Subject) : Ledger :=
  let counts := { l.counts with classes := l.counts.classes + 1 }
  let inputSha256 := x.model.fingerprint
  if l.halted then
    { l with
      reports := l.reports ++ [{ className := x.model.name, status := .skipped, inputSha256 }]
      counts := { counts with skipped := counts.skipped + 1 } }
  else
    let b := s.classify x
    match b.result with
    | .ok set =>
      { l with
        planSets := l.planSets ++ [set]
        reports := l.reports ++ [
          { className := b.model.name, status := .planned, inputSha256
            plans := set.plans.map (·.name) }]
        counts :=
          { counts with
            planned := counts.planned + 1
            plans := counts.plans + set.planCount
            proxies := counts.proxies + if set.proxy.isSome then 1 else 0
            adapters := counts.adapters + set.adapters.length } }
    | .error v =>
      { l with
        reports := l.reports ++ [
          { className := b.model.name, status := .rejected, inputSha256
            rejection := some ⟨v.rule.key, v.element, v.message⟩ }]
        counts := { counts with rejected := counts.rejected + 1 }
        halted := s.failFast }

/-- Goes over every class of some batches. -/
def Settings.ledger (s : Settings) (batches : List LoadedBatch) : Ledger :=
  batches.foldl (fun l b => (b.subjects s).foldl s.enter l) {}

/-- The verdict on a run, with its reasons. -/
def Ledger.verdict (l : Ledger) : ReportVerdict where
  status :=
    if 0 < l.counts.rejected then .fail else if l.counts.classes = 0 then .skip else .pass
  counts := l.counts
  reasons :=
    (if 0 < l.counts.rejected then ["rejected_classes"] else []) ++
      (if l.halted ∧ 0 < l.counts.skipped then ["fail_fast"] else []) ++
      (if l.counts.classes = 0 then ["no_inputs"] else [])

/-- What a run comes to. -/
structure Outcome where
  document : PlanDocument
  report : Report
  /-- Whether a class was rejected. -/
  rejected : Bool

/-- Runs over some batches in their order. -/
def Settings.run (s : Settings) (tool : ToolInfo) (time : RunInfo) (batches : List LoadedBatch) :
    Outcome :=
  let l := s.ledger batches
  { document := .new tool l.planSets
    report :=
      { schema := reportSchema
        tool := tool
        run := time
        verdict := l.verdict
        classes := l.reports }
    rejected := 0 < l.counts.rejected }

end Wiring
