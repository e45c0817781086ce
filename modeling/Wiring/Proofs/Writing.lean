import Wiring.Proofs.Documents
import Wiring.Run.Artifacts

/-!
# Writing the files of a run

A script of calls is carried out up to the first call that is refused (`WriteScript.carriesOut_perform`).
The files of a run have both a wire form or neither, since the document and the report are of one tool. So
they are written in their order up to a call that is refused, or none of them is (`run_writes`).
-/

namespace Wiring

variable {ε : Type}

/-! ## Ports -/

/-- Whatever holds the files: how it answers a call after the calls that were made before. -/
def Port (ε : Type) : Type := List WriteCall → WriteCall → Except ε Unit

namespace Port

variable (p : Port ε)

/-- Makes a call, which is logged. -/
def call (c : WriteCall) : StateM (List WriteCall) (Except ε Unit) := do
  let log ← get
  set (log ++ [c])
  return p log c

/-- Calls are accepted, one after another, after the calls that were made before. -/
def Accepts : List WriteCall → List WriteCall → Prop
  | _, [] => True
  | log, c :: cs => p log c = .ok () ∧ Accepts (log ++ [c]) cs

variable {p}

theorem accepts_append {log cs ds : List WriteCall} :
    p.Accepts log (cs ++ ds) ↔ p.Accepts log cs ∧ p.Accepts (log ++ cs) ds := by
  induction cs generalizing log with
  | nil => simp [Accepts]
  | cons c cs ih =>
      have happend : log ++ [c] ++ cs = log ++ c :: cs := (List.append_cons log c cs).symm
      rw [List.cons_append, Accepts, Accepts, ih, happend, and_assoc]

theorem Accepts.not_refused {before after : List WriteCall} {c : WriteCall} {e : ε}
    (h : p.Accepts [] (before ++ c :: after)) : p before c ≠ .error e := by
  obtain ⟨_, hc, _⟩ := accepts_append.1 h
  intro he
  rw [List.nil_append, he] at hc
  cases hc

end Port

/-! ## Calls one after another -/

section Performing

variable {p : Port ε} {log : List WriteCall} {c : WriteCall}

theorem run_performAll_of_accepted (h : p log c = .ok ()) (cs : List WriteCall) :
    (performAll p.call (c :: cs)).run log = (performAll p.call cs).run (log ++ [c]) := by
  have hcall : (p.call c).run log = (p log c, log ++ [c]) := rfl
  rw [performAll, StateT.run_bind, hcall, h]
  rfl

theorem run_performAll_of_refused {e : ε} (h : p log c = .error e) (cs : List WriteCall) :
    (performAll p.call (c :: cs)).run log = (.error e, log ++ [c]) := by
  have hcall : (p.call c).run log = (p log c, log ++ [c]) := rfl
  rw [performAll, StateT.run_bind, hcall, h]
  rfl

/-- Either all calls are made and accepted, or those up to one that is refused. -/
theorem run_performAll (p : Port ε) (cs log : List WriteCall) :
    p.Accepts log cs ∧ (performAll p.call cs).run log = (.ok (), log ++ cs) ∨
      ∃ before c after e, cs = before ++ c :: after ∧ p.Accepts log before ∧
        p (log ++ before) c = .error e ∧
        (performAll p.call cs).run log = (.error e, log ++ (before ++ [c])) := by
  -- Whether a call is accepted depends on the log, which grows with each call.
  induction cs generalizing log with
  | nil =>
      refine Or.inl ⟨trivial, ?_⟩
      rw [List.append_nil]
      rfl
  | cons c cs ih =>
      cases hc : p log c with
      | error e =>
          refine Or.inr ⟨[], c, cs, e, rfl, trivial, ?_, run_performAll_of_refused hc cs⟩
          rw [List.append_nil, hc]
      | ok u =>
          rw [run_performAll_of_accepted hc]
          rcases ih (log ++ [c]) with ⟨haccepts, hrun⟩ | ⟨before, d, after, e, rfl, haccepts, hd, hrun⟩
          · refine Or.inl ⟨⟨hc, haccepts⟩, ?_⟩
            rw [hrun, List.append_assoc, List.singleton_append]
          · refine Or.inr ⟨c :: before, d, after, e, rfl, ⟨hc, haccepts⟩, ?_, ?_⟩
            · rw [← hd, List.append_assoc, List.singleton_append]
            · rw [hrun, List.append_assoc, List.singleton_append, List.cons_append]

end Performing

/-- A script is carried out on a port: these calls were made, with this result. -/
structure WriteScript.CarriesOut (script : WriteScript) (p : Port ε)
    (result : Except (WriteFailure ε) Unit) (log : List WriteCall) : Prop where
  calls : log <+: script.calls
  ok : result = .ok () ↔ script.stop = none ∧ log = script.calls ∧ p.Accepts [] log
  refused : ∀ e, result = .error (.refused e) ↔
    ∃ before c, log = before ++ [c] ∧ p.Accepts [] before ∧ p before c = .error e
  unwireable : ∀ u, result = .error (.unwireable u) ↔
    script.stop = some u ∧ log = script.calls ∧ p.Accepts [] log

namespace WriteScript

variable {p : Port ε} {script : WriteScript}

/-- What a script comes to once all its calls are accepted. -/
def ended (script : WriteScript) : Except (WriteFailure ε) Unit :=
  match script.stop with
  | some u => .error (.unwireable u)
  | none => .ok ()

theorem ended_eq_ok : script.ended = (.ok () : Except (WriteFailure ε) Unit) ↔ script.stop = none := by
  cases hstop : script.stop <;> simp [ended, hstop]

theorem ended_ne_refused (e : ε) : script.ended ≠ .error (.refused e) := by
  cases hstop : script.stop <;> simp [ended, hstop]

theorem ended_eq_unwireable {u : Unwireable} :
    script.ended = (.error (.unwireable u) : Except (WriteFailure ε) Unit) ↔
      script.stop = some u := by
  cases hstop : script.stop <;> simp [ended, hstop]

theorem carriesOut_ended (h : p.Accepts [] script.calls) :
    script.CarriesOut p script.ended script.calls := by
  refine ⟨List.prefix_refl _, ?_, ?_, ?_⟩
  · rw [ended_eq_ok]
    exact ⟨fun hstop => ⟨hstop, rfl, h⟩, And.left⟩
  · refine fun e => ⟨fun he => absurd he (ended_ne_refused e), fun ⟨before, c, hcalls, _, hc⟩ => ?_⟩
    rw [hcalls] at h
    exact absurd hc h.not_refused
  · intro u
    rw [ended_eq_unwireable]
    exact ⟨fun hstop => ⟨hstop, rfl, h⟩, And.left⟩

theorem carriesOut_refused {before after : List WriteCall} {c : WriteCall} {e : ε}
    (hcalls : script.calls = before ++ c :: after) (hbefore : p.Accepts [] before)
    (hc : p before c = .error e) :
    script.CarriesOut p (.error (.refused e)) (before ++ [c]) := by
  have hnever : ¬p.Accepts [] (before ++ [c]) := fun h => h.not_refused hc
  refine ⟨⟨after, ?_⟩, ?_, ?_, ?_⟩
  · rw [hcalls, List.append_assoc, List.singleton_append]
  · exact ⟨nofun, fun ⟨_, _, h⟩ => absurd h hnever⟩
  · refine fun e' => ⟨fun he => ?_, fun ⟨before', c', hlog, _, hc'⟩ => ?_⟩
    · cases he
      exact ⟨before, c, rfl, hbefore, hc⟩
    -- A call that is refused is the last one, so the log says which it was.
    · obtain ⟨rfl, hlast⟩ := List.append_inj' hlog rfl
      cases hlast
      rw [hc] at hc'
      cases hc'
      rfl
  · exact fun u => ⟨nofun, fun ⟨_, _, h⟩ => absurd h hnever⟩

theorem run_perform (p : Port ε) (script : WriteScript) :
    (script.perform p.call).run [] =
      match (performAll p.call script.calls).run [] with
      | (.ok (), log) => (script.ended, log)
      | (.error e, log) => (.error (.refused e), log) := by
  rw [perform, StateT.run_bind]
  generalize (performAll p.call script.calls).run [] = r
  obtain ⟨result, log⟩ := r
  cases result with
  | error e => rfl
  | ok u =>
      rw [ended]
      cases script.stop <;> rfl

theorem carriesOut_perform (p : Port ε) (script : WriteScript) :
    script.CarriesOut p ((script.perform p.call).run []).1 ((script.perform p.call).run []).2 := by
  rw [run_perform]
  rcases run_performAll p script.calls [] with
    ⟨haccepts, hrun⟩ | ⟨before, c, after, e, hcalls, hbefore, hc, hrun⟩
  · rw [hrun]
    exact carriesOut_ended haccepts
  · rw [hrun]
    exact carriesOut_refused hcalls hbefore hc

end WriteScript

/-! ## The files of a run -/

/-- The calls that write some texts as the files of a run. -/
def artifactCalls (dir plans page report : String) : List WriteCall :=
  [.createDirs dir, .write (Path.join dir "plans.json") plans,
    .write (Path.join dir "plans.md") page, .write (Path.join dir "report.json") report]

namespace Outcome

/-- The numbers of an outcome fit the words that hold them. -/
structure Fits (o : Outcome) : Prop where
  indices : ∀ i ∈ o.document.indices, i < Json.word32Count
  counts : ∀ n ∈ o.report.verdict.counts.numbers, n < Json.word64Count
  duration : ∀ n ∈ o.report.run.durationMs, n < Json.word64Count

/-- The script of an outcome whose document and report are of one tool. -/
theorem artifacts_eq {o : Outcome} (h : o.report.tool = o.document.tool) (dir : String) :
    o.document.tool.version = none ∧
        o.artifacts dir = ⟨[.createDirs dir], some ⟨.plans, .missingToolVersion "plans"⟩⟩ ∨
      o.document.tool.version ≠ none ∧ ∃ plans report,
        o.document.toWire = .ok plans ∧ o.report.toWire = .ok report ∧
          o.artifacts dir =
            ⟨artifactCalls dir (plansText plans) (o.document.markdown o.report) (reportText report),
              none⟩ := by
  rcases o.document.toWire_eq with ⟨hplans, hversion⟩ | ⟨plans, hplans, hversion, _⟩
  · refine Or.inl ⟨hversion, ?_⟩
    rw [artifacts, hplans]
  · rcases o.report.toWire_eq with ⟨_, hnone⟩ | ⟨report, hreport, _⟩
    -- The report cannot fail once the document has not: they are of one tool.
    · exact absurd (h ▸ hnone) hversion
    · refine Or.inr ⟨hversion, plans, report, hplans, hreport, ?_⟩
      rw [artifacts, hplans, hreport]
      rfl

theorem Fits.readText_plansText {o : Outcome} (h : o.Fits) {plans : PlansV1}
    (hplans : o.document.toWire = .ok plans) :
    PlansV1.codec.readText (plansText plans) = .ok plans := by
  rcases o.document.toWire_eq with ⟨herror, _⟩ | ⟨w, hw, _, hdocument⟩
  · rw [hplans] at herror
    cases herror
  · obtain rfl : plans = w := Except.ok.inj (hplans.symm.trans hw)
    have hindices := h.indices
    rw [← hdocument] at hindices
    exact PlansV1.readText_pretty hindices

theorem Fits.readText_reportText {o : Outcome} (h : o.Fits) {report : ReportV1}
    (hreport : o.report.toWire = .ok report) :
    ReportV1.codec.readText (reportText report) = .ok report := by
  rcases o.report.toWire_eq with ⟨herror, _⟩ | ⟨w, hw, _, hrun, hverdict⟩
  · rw [hreport] at herror
    cases herror
  · obtain rfl : report = w := Except.ok.inj (hreport.symm.trans hw)
    have hcounts := h.counts
    have hduration := h.duration
    rw [← hverdict] at hcounts
    rw [← hrun] at hduration
    exact ReportV1.readText_pretty hcounts hduration

/-- The files of an outcome are written to a port in their order, all or up to a call that is refused, or
none of them is: these calls were made, with this result. -/
structure Writes (o : Outcome) (dir : String) (p : Port ε) (result : Except (WriteFailure ε) Unit)
    (log : List WriteCall) : Prop where
  inOrder : ∃ plans page report, log <+: artifactCalls dir plans page report
  ok : result = .ok () ↔ log.length = 4 ∧ p.Accepts [] log
  refused : ∀ e, result = .error (.refused e) ↔
    ∃ before c, log = before ++ [c] ∧ p.Accepts [] before ∧ p before c = .error e
  unwireable : ∀ u, result = .error (.unwireable u) → log = [.createDirs dir]
  unversioned : o.document.tool.version = none → log = [.createDirs dir] ∧
    ((∃ e, result = .error (.refused e)) ∨
      result = .error (.unwireable ⟨.plans, .missingToolVersion "plans"⟩))
  texts : result = .ok () → ∃ plans report,
    o.document.toWire = .ok plans ∧ o.report.toWire = .ok report ∧
      log = artifactCalls dir (plansText plans) (o.document.markdown o.report) (reportText report) ∧
      (o.Fits → PlansV1.codec.readText (plansText plans) = .ok plans ∧
        ReportV1.codec.readText (reportText report) = .ok report)

/-- An outcome of one tool is written as its script is carried out. -/
theorem writes_of_carriesOut {o : Outcome} (h : o.report.tool = o.document.tool) {dir : String}
    {p : Port ε} {result : Except (WriteFailure ε) Unit} {log : List WriteCall}
    (hlog : (o.artifacts dir).CarriesOut p result log) : o.Writes dir p result log := by
  rcases artifacts_eq h dir with ⟨hversion, hscript⟩ | ⟨hversion, plans, report, hplans, hreport, hscript⟩
  · rw [hscript] at hlog
    have hlength : log.length ≤ 1 := hlog.calls.length_le
    have hfailed : result ≠ .ok () := fun hok => by cases (hlog.ok.1 hok).1
    have hrefused {e : ε} (he : result = .error (.refused e)) : log = [.createDirs dir] := by
      obtain ⟨before, c, rfl, _⟩ := (hlog.refused e).1 he
      exact hlog.calls.eq_of_length_le (by simp)
    refine ⟨⟨"", "", "", hlog.calls.trans ⟨_, rfl⟩⟩, ?_, hlog.refused, ?_, fun _ => ?_, ?_⟩
    · exact ⟨fun hok => absurd hok hfailed, fun ⟨hfour, _⟩ => by omega⟩
    · exact fun u hu => ((hlog.unwireable u).1 hu).2.1
    · match result with
      | .ok () => exact absurd rfl hfailed
      | .error (.refused e) => exact ⟨hrefused rfl, Or.inl ⟨e, rfl⟩⟩
      | .error (.unwireable u) =>
          obtain ⟨hu, hcalls, _⟩ := (hlog.unwireable u).1 rfl
          cases hu
          exact ⟨hcalls, Or.inr rfl⟩
    · exact fun hok => absurd hok hfailed
  · rw [hscript] at hlog
    refine ⟨⟨_, _, _, hlog.calls⟩, ?_, hlog.refused, ?_, fun hnone => absurd hnone hversion, ?_⟩
    · refine ⟨fun hok => ?_, fun ⟨hfour, haccepts⟩ => ?_⟩
      · obtain ⟨_, rfl, haccepts⟩ := hlog.ok.1 hok
        exact ⟨rfl, haccepts⟩
      · exact hlog.ok.2 ⟨rfl, hlog.calls.eq_of_length hfour, haccepts⟩
    · intro u hu
      cases ((hlog.unwireable u).1 hu).1
    · intro hok
      obtain ⟨_, hall, _⟩ := hlog.ok.1 hok
      refine ⟨plans, report, hplans, hreport, hall, fun hfits => ?_⟩
      exact ⟨hfits.readText_plansText hplans, hfits.readText_reportText hreport⟩

end Outcome

/-- The files of every run are written to whatever holds them in their order, all or up to the first call
that is refused. If the version of the tool is not known none is written, as neither the plan document nor
the report has a wire form. Once all are written, what is written is read back. -/
theorem run_writes (s : Settings) (tool : ToolInfo) (time : RunInfo) (batches : List LoadedBatch)
    (dir : String) (p : Port ε) :
    let o := s.run tool time batches
    let written := ((o.artifacts dir).perform p.call).run []
    o.Writes dir p written.1 written.2 :=
  Outcome.writes_of_carriesOut rfl ((Outcome.artifacts _ dir).carriesOut_perform p)

open Outcome in
theorem run_writes_of_willing_port :
    let o := ({} : Settings).run { name := "beanwire", version := some "0.1.0" } {}
      [⟨"a.json", { classes := [{ name := "app.Service" }] }⟩]
    let p : Port String := fun _ _ => .ok ()
    let written := ((o.artifacts "out").perform p.call).run []
    written.1 = .ok () ∧ ∃ plans report,
      written.2 =
        artifactCalls "out" (plansText plans) (o.document.markdown o.report) (reportText report) ∧
      PlansV1.codec.readText (plansText plans) = .ok plans ∧
      ReportV1.codec.readText (reportText report) = .ok report := by
  intro o p written
  have hwrites : o.Writes "out" p written.1 written.2 := run_writes _ _ _ _ _ p
  have hok : written.1 = .ok () := rfl
  have hfits : o.Fits := ⟨by decide +kernel, by decide +kernel, nofun⟩
  obtain ⟨plans, report, _, _, hlog, hread⟩ := hwrites.texts hok
  exact ⟨hok, plans, report, hlog, hread hfits⟩

end Wiring
