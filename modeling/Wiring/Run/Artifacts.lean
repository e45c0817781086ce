import Wiring.Report.Markdown
import Wiring.Run.Basic

/-!
# Artifacts

The files that a run leaves behind. `artifacts` lists the calls that write them, up to a document
that cannot be put on the wire; `perform` makes the calls one by one until one is refused.
-/

namespace Wiring

/-- A call on whatever holds the files. -/
inductive WriteCall where
  | createDirs (path : String)
  | write (path text : String)
  deriving DecidableEq

/-- The document that a wire error is about. -/
inductive WireDocument where
  | plans
  | report
  deriving DecidableEq

/-- What was being done when a wire error arose. -/
def WireDocument.context : WireDocument → String
  | .plans => "convert plans to wire"
  | .report => "convert report to wire"

/-- A document that cannot be put on the wire. -/
structure Unwireable where
  document : WireDocument
  error : WireError
  deriving DecidableEq

/-- Calls, and what prevents further ones. -/
structure WriteScript where
  calls : List WriteCall
  stop : Option Unwireable := none

namespace Outcome

variable (o : Outcome) (dir : String)

def plansText (w : PlansV1) : String := (PlansV1.codec.write w).pretty

def reportText (w : ReportV1) : String := (ReportV1.codec.write w).pretty

/-- The calls that write the files of a run into a directory. -/
def artifacts : WriteScript :=
  let start := [WriteCall.createDirs dir]
  match o.document.toWire with
  | .error e => ⟨start, some ⟨.plans, e⟩⟩
  | .ok plans =>
    let calls := start ++
      [.write (Path.join dir "plans.json") (plansText plans),
        .write (Path.join dir "plans.md") (o.document.markdown o.report)]
    match o.report.toWire with
    | .error e => ⟨calls, some ⟨.report, e⟩⟩
    | .ok report => ⟨calls ++ [.write (Path.join dir "report.json") (reportText report)], none⟩

end Outcome

/-- Why files were not all written. -/
inductive WriteFailure (ε : Type) where
  | refused (error : ε)
  | unwireable (u : Unwireable)

/-- Makes calls until one is refused. -/
def performAll {m : Type → Type} [Monad m] {ε : Type} (call : WriteCall → m (Except ε Unit)) :
    List WriteCall → m (Except ε Unit)
  | [] => return .ok ()
  | c :: cs => do
    match ← call c with
    | .ok () => performAll call cs
    | .error e => return .error e

def WriteScript.perform {m : Type → Type} [Monad m] {ε : Type}
    (call : WriteCall → m (Except ε Unit)) (s : WriteScript) :
    m (Except (WriteFailure ε) Unit) := do
  match ← performAll call s.calls with
  | .error e => return .error (.refused e)
  | .ok () =>
    match s.stop with
    | some u => return .error (.unwireable u)
    | none => return .ok ()

end Wiring
