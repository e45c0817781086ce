import Wiring.Format.Report
import Wiring.Proofs.ClassFiles

/-!
# Documents on the wire

A plan document has a wire form just if the version of its tool is known. The text of its wire form, compact
or pretty, is then read back as the document that it was made from (`PlanDocument.readText_toWire`). The
numbers of adapters must fit a 32-bit word, as on the wire they do. The same goes for reports, whose numbers
are of 64 bits.
-/

namespace Wiring

open Json Json.Codec Json.RecordField

/-! ## The numbers of adapters -/

def PlanKind.indices : PlanKind → List Nat
  | .adapter index => [index]
  | _ => []

def Disposition.indices : Disposition → List Nat
  | .adapter index => [index]
  | _ => []

def PlanSet.indices (s : PlanSet) : List Nat :=
  s.plans.flatMap (·.kind.indices) ++ s.dispositions.flatMap (·.disposition.indices)

/-- The numbers that a document gives to adapters. -/
def PlanDocument.indices (d : PlanDocument) : List Nat := d.planSets.flatMap (·.indices)

/-! ## What is kept -/

theorem MethodRef.keeps (m : MethodRef) : codec.Keeps m m :=
  keeps_record (by decide) <| .required (keeps_string _) <| .required (keeps_string _) <|
    .required (keeps_string _) <| .defaulted (keeps_boolean _) (.nil _)

theorem FieldRef.keeps (f : FieldRef) : codec.Keeps f f :=
  keeps_record (by decide) <| .required (keeps_string _) <| .required (keeps_string _) <|
    .required (keeps_string _) <| .defaulted (keeps_boolean _) (.nil _)

theorem ParameterRef.keeps (p : ParameterRef) : codec.Keeps p p :=
  keeps_record (by decide) <| .required (keeps_string _) <| .required (keeps_string _) (.nil _)

theorem FieldValue.keeps (v : FieldValue) : codec.Keeps v v :=
  keeps_record (by decide) <| .required v.field.keeps <| .required (keeps_boolean _) <|
    .listed rfl (fun _ _ => keeps_string _) (.nil _)

theorem SetterValue.keeps (v : SetterValue) : codec.Keeps v v :=
  keeps_record (by decide) <| .required (keeps_string _) <| .required v.setter.keeps <|
    .required (keeps_boolean _) (.nil _)

theorem InterceptedMethod.keeps (m : InterceptedMethod) : codec.Keeps m m :=
  keeps_record (by decide) <| .required m.method.keeps <|
    .listed rfl (fun _ _ => keeps_string _) (.nil _)

theorem ConstructorBinding.keeps (k : ConstructorBinding) : codec.Keeps k k := by
  cases k with
  | declared parameters reflection =>
      exact keeps_fields "declared" rfl rfl (by decide)
        (.required (keeps_list (List.forall₂_same.2 fun p _ => ParameterRef.keeps p))
          (.required (keeps_boolean _) (.nil _))) rfl
  | default => exact keeps_constant "default" rfl rfl

theorem PlanKind.keeps {k : PlanKind} (h : ∀ i ∈ k.indices, i < word32Count) : codec.Keeps k k := by
  cases k with
  | bean => exact keeps_constant "bean" rfl rfl
  | proxy => exact keeps_constant "proxy" rfl rfl
  | adapter i =>
      exact keeps_fields "adapter" rfl rfl (by decide)
        (.required (keeps_word32 (h i (List.mem_singleton_self i))) (.nil _)) rfl

theorem Plan.keeps {p : Plan} (h : ∀ i ∈ p.kind.indices, i < word32Count) : codec.Keeps p p :=
  keeps_record (by decide) <| .required (keeps_string _) <| .required (keeps_string _) <|
    .required (PlanKind.keeps h) <|
    .unlessBlank rfl StringMap.eq_empty_of_isEmpty (keeps_typeArguments _) <|
    .listed rfl (fun _ _ => keeps_string _) <|
    .optional rfl neverNull_tagged (fun k _ => k.keeps) <|
    .optional rfl neverNull_string (fun _ _ => keeps_string _) <|
    .optional rfl neverNull_record (fun m _ => m.keeps) <|
    .optional rfl neverNull_string (fun _ _ => keeps_string _) <|
    .listed rfl (fun m _ => m.keeps) <| .listed rfl (fun m _ => m.keeps) <|
    .listed rfl (fun m _ => m.keeps) <| .listed rfl (fun f _ => f.keeps) <|
    .listed rfl (fun v _ => v.keeps) <| .listed rfl (fun v _ => v.keeps) <|
    .listed rfl (fun m _ => m.keeps) <| .listed rfl (fun m _ => m.keeps) <|
    .defaulted (keeps_boolean _) <|
    .unlessBlank rfl StringSet.eq_empty_of_isEmpty (keeps_stringSet _) (.nil _)

theorem MemberKind.keeps (k : MemberKind) : codec.Keeps k k :=
  keeps_cases (by cases k <;> rfl)

theorem Disposition.keeps {d : Disposition} (h : ∀ i ∈ d.indices, i < word32Count) :
    codec.Keeps d d := by
  cases d with
  | unclaimed => exact keeps_constant "unclaimed" rfl rfl
  | fieldValue => exact keeps_constant "field_value" rfl rfl
  | fieldInjection => exact keeps_constant "field_injection" rfl rfl
  | lifecycle post pre =>
      exact keeps_fields "lifecycle" rfl rfl (by decide)
        (.required (keeps_boolean _) (.required (keeps_boolean _) (.nil _))) rfl
  | methodInjection => exact keeps_constant "method_injection" rfl rfl
  | adapter i =>
      exact keeps_fields "adapter" rfl rfl (by decide)
        (.required (keeps_word32 (h i (List.mem_singleton_self i))) (.nil _)) rfl
  | adapterDeclined => exact keeps_constant "adapter_declined" rfl rfl
  | intercepted => exact keeps_constant "intercepted" rfl rfl
  | executable => exact keeps_constant "executable" rfl rfl
  | property => exact keeps_constant "property" rfl rfl

theorem MemberDisposition.keeps {d : MemberDisposition}
    (h : ∀ i ∈ d.disposition.indices, i < word32Count) : codec.Keeps d d :=
  keeps_record (by decide) <| .required d.kind.keeps <| .required (keeps_string _) <|
    .required (Disposition.keeps h) (.nil _)

theorem PlanSet.keeps {s : PlanSet} (h : ∀ i ∈ s.indices, i < word32Count) : codec.Keeps s s := by
  have hplan (p : Plan) (hp : p ∈ s.plans) : Plan.codec.Keeps p p :=
    Plan.keeps fun i hi => h i (List.mem_append_left _ (List.mem_flatMap.2 ⟨p, hp, hi⟩))
  have hdisposition (d : MemberDisposition) (hd : d ∈ s.dispositions) :
      MemberDisposition.codec.Keeps d d :=
    MemberDisposition.keeps fun i hi =>
      h i (List.mem_append_right _ (List.mem_flatMap.2 ⟨d, hd, hi⟩))
  exact keeps_record (by decide) <| .required (keeps_string _) <|
    .required (hplan s.main (by simp [plans])) <|
    .optional rfl neverNull_record (fun p hp => hplan p (by simp [plans, Option.mem_def.1 hp])) <|
    .listed rfl (fun p hp => hplan p (by simp [plans, hp])) <|
    .defaulted (keeps_list (List.forall₂_same.2 hdisposition)) (.nil _)

theorem ToolInfoV1.keeps (t : ToolInfoV1) : codec.Keeps t t :=
  keeps_record (by decide) <| .required (keeps_string _) <| .required (keeps_string _) <|
    .optional rfl neverNull_string (fun _ _ => keeps_string _) (.nil _)

theorem PlansV1.keeps {w : PlansV1} (h : ∀ i ∈ w.document.indices, i < word32Count) :
    codec.Keeps w w := by
  have hsets : ∀ s ∈ w.planSets, PlanSet.codec.Keeps s s := fun s hs =>
    PlanSet.keeps fun i hi => h i (List.mem_flatMap.2 ⟨s, hs, hi⟩)
  exact keeps_record (by decide) <| .required (keeps_string _) <| .required w.tool.keeps <|
    .defaulted (keeps_list (List.forall₂_same.2 hsets)) (.nil _)

/-! ## What is kept of reports -/

def ReportCounts.numbers (c : ReportCounts) : List Nat :=
  [c.classes, c.planned, c.rejected, c.skipped, c.plans, c.proxies, c.adapters]

theorem RunInfo.keeps {r : RunInfo} (h : ∀ n ∈ r.durationMs, n < word64Count) : codec.Keeps r r :=
  keeps_record (by decide) <| .required (keeps_string _) <|
    .optional rfl neverNull_string (fun _ _ => keeps_string _) <|
    .optional rfl neverNull_word64 (fun n hn => keeps_word64 (h n hn)) (.nil _)

theorem ReportStatus.keeps (s : ReportStatus) : codec.Keeps s s := keeps_cases (by cases s <;> rfl)

theorem ReportCounts.keeps {c : ReportCounts} (h : ∀ n ∈ c.numbers, n < word64Count) :
    codec.Keeps c c := by
  simp only [numbers, List.forall_mem_cons] at h
  obtain ⟨hclasses, hplanned, hrejected, hskipped, hplans, hproxies, hadapters, _⟩ := h
  exact keeps_record (by decide) <| .required (keeps_word64 hclasses) <|
    .required (keeps_word64 hplanned) <| .required (keeps_word64 hrejected) <|
    .required (keeps_word64 hskipped) <| .required (keeps_word64 hplans) <|
    .required (keeps_word64 hproxies) <| .required (keeps_word64 hadapters) (.nil _)

theorem ReportVerdict.keeps {v : ReportVerdict} (h : ∀ n ∈ v.counts.numbers, n < word64Count) :
    codec.Keeps v v :=
  keeps_record (by decide) <| .required v.status.keeps <| .required (ReportCounts.keeps h) <|
    .listed rfl (fun _ _ => keeps_string _) (.nil _)

theorem ClassStatus.keeps (s : ClassStatus) : codec.Keeps s s := keeps_cases (by cases s <;> rfl)

theorem Rejection.keeps (r : Rejection) : codec.Keeps r r :=
  keeps_record (by decide) <| .required (keeps_string _) <| .required (keeps_string _) <|
    .required (keeps_string _) (.nil _)

theorem ClassReport.keeps (r : ClassReport) : codec.Keeps r r :=
  keeps_record (by decide) <| .required (keeps_string _) <| .required r.status.keeps <|
    .required (keeps_string _) <| .listed rfl (fun _ _ => keeps_string _) <|
    .optional rfl neverNull_record (fun x _ => x.keeps) (.nil _)

theorem ReportV1.keeps {w : ReportV1} (hcounts : ∀ n ∈ w.verdict.counts.numbers, n < word64Count)
    (hduration : ∀ n ∈ w.run.durationMs, n < word64Count) : codec.Keeps w w :=
  keeps_record (by decide) <| .required (keeps_string _) <| .required w.tool.keeps <|
    .required (RunInfo.keeps hduration) <| .required (ReportVerdict.keeps hcounts) <|
    .defaulted (keeps_list (List.forall₂_same.2 fun r _ => r.keeps)) (.nil _)

/-! ## How deep documents nest -/

section Depths

variable {n : Nat}

theorem within_typeArguments : typeArgumentsCodec.Within (n + 2) := within_map (within_map within_string)

theorem MethodRef.within : codec.Within (n + 1) :=
  within_record <| .required within_string <| .required within_string <| .required within_string <|
    .defaulted within_boolean .nil

theorem FieldRef.within : codec.Within (n + 1) :=
  within_record <| .required within_string <| .required within_string <| .required within_string <|
    .defaulted within_boolean .nil

theorem ParameterRef.within : codec.Within (n + 1) :=
  within_record <| .required within_string <| .required within_string .nil

theorem FieldValue.within : codec.Within (n + 2) :=
  within_record <| .required FieldRef.within <| .required within_boolean <|
    .unlessBlank (within_list within_string) .nil

theorem SetterValue.within : codec.Within (n + 2) :=
  within_record <| .required within_string <| .required MethodRef.within <|
    .required within_boolean .nil

theorem InterceptedMethod.within : codec.Within (n + 2) :=
  within_record <| .required MethodRef.within <| .unlessBlank (within_list within_string) .nil

theorem ConstructorBinding.within : codec.Within (n + 3) :=
  within_tagged <|
    .fields (.required (within_list ParameterRef.within) <| .required within_boolean .nil) <|
    .constant .nil

theorem PlanKind.within : codec.Within (n + 1) :=
  within_tagged <| .constant <| .constant <| .fields (.required within_word32 .nil) .nil

theorem Plan.within : codec.Within (n + 4) := by
  have hnames : (list string).Within (n + 3) := within_list within_string
  have hmethods : (list MethodRef.codec).Within (n + 3) := within_list MethodRef.within
  exact within_record <| .required within_string <| .required within_string <|
    .required PlanKind.within <| .unlessBlank within_typeArguments <| .unlessBlank hnames <|
    .unlessBlank (within_optional ConstructorBinding.within) <|
    .unlessBlank (within_optional within_string) <|
    .unlessBlank (within_optional MethodRef.within) <|
    .unlessBlank (within_optional within_string) <|
    .unlessBlank hmethods <| .unlessBlank hmethods <| .unlessBlank hmethods <|
    .unlessBlank (within_list FieldRef.within) <| .unlessBlank (within_list FieldValue.within) <|
    .unlessBlank (within_list SetterValue.within) <| .unlessBlank hmethods <|
    .unlessBlank (within_list InterceptedMethod.within) <| .defaulted within_boolean <|
    .unlessBlank within_stringSet .nil

theorem Disposition.within : codec.Within (n + 1) :=
  within_tagged <| .constant <| .constant <| .constant <|
    .fields (.required within_boolean <| .required within_boolean .nil) <| .constant <|
    .fields (.required within_word32 .nil) <| .constant <| .constant <| .constant <| .constant .nil

theorem MemberDisposition.within : codec.Within (n + 2) :=
  within_record <| .required (within_cases _ _) <| .required within_string <|
    .required Disposition.within .nil

theorem PlanSet.within : codec.Within (n + 6) :=
  within_record <| .required within_string <| .required Plan.within <|
    .unlessBlank (within_optional Plan.within) <| .unlessBlank (within_list Plan.within) <|
    .defaulted (within_list MemberDisposition.within) .nil

theorem ToolInfoV1.within : codec.Within (n + 1) :=
  within_record <| .required within_string <| .required within_string <|
    .unlessBlank (within_optional within_string) .nil

theorem PlansV1.within : codec.Within (n + 8) :=
  within_record <| .required within_string <| .required ToolInfoV1.within <|
    .defaulted (within_list PlanSet.within) .nil

theorem RunInfo.within : codec.Within (n + 1) :=
  within_record <| .required within_string <| .unlessBlank (within_optional within_string) <|
    .unlessBlank (within_optional within_word64) .nil

theorem ReportCounts.within : codec.Within (n + 1) :=
  within_record <| .required within_word64 <| .required within_word64 <| .required within_word64 <|
    .required within_word64 <| .required within_word64 <| .required within_word64 <|
    .required within_word64 .nil

theorem ReportVerdict.within : codec.Within (n + 2) :=
  within_record <| .required (within_cases _ _) <| .required ReportCounts.within <|
    .unlessBlank (within_list within_string) .nil

theorem Rejection.within : codec.Within (n + 1) :=
  within_record <| .required within_string <| .required within_string <| .required within_string .nil

theorem ClassReport.within : codec.Within (n + 2) :=
  within_record <| .required within_string <| .required (within_cases _ _) <|
    .required within_string <| .unlessBlank (within_list within_string) <|
    .unlessBlank (within_optional Rejection.within) .nil

theorem ReportV1.within : codec.Within (n + 4) :=
  within_record <| .required within_string <| .required ToolInfoV1.within <|
    .required RunInfo.within <| .required ReportVerdict.within <|
    .defaulted (within_list ClassReport.within) .nil

end Depths

/-! ## Documents -/

/-- A tool whose version is known, and no other, has a wire form, of which it is the tool. -/
theorem ToolInfo.toWire_eq (t : ToolInfo) (context : String) :
    t.toWire context = .error (.missingToolVersion context) ∧ t.version = none ∨
      ∃ w, t.toWire context = .ok w ∧ t.version ≠ none ∧ w.tool = t := by
  obtain ⟨name, version, commit⟩ := t
  cases version with
  | none => exact Or.inl ⟨rfl, rfl⟩
  | some version => exact Or.inr ⟨_, rfl, nofun, rfl⟩

theorem PlanDocument.toWire_eq (d : PlanDocument) :
    d.toWire = .error (.missingToolVersion "plans") ∧ d.tool.version = none ∨
      ∃ w, d.toWire = .ok w ∧ d.tool.version ≠ none ∧ w.document = d := by
  rcases d.tool.toWire_eq "plans" with ⟨htool, hversion⟩ | ⟨w, htool, hversion, hw⟩
  · refine Or.inl ⟨?_, hversion⟩
    rw [toWire, htool]
    rfl
  · refine Or.inr ⟨⟨d.schema, w, d.planSets⟩, ?_, hversion, ?_⟩
    · rw [toWire, htool]
      rfl
    · rw [PlansV1.document, hw]

/-- So has a report whose tool has a version, with numbers that are its own. -/
theorem Report.toWire_eq (r : Report) :
    r.toWire = .error (.missingToolVersion "report") ∧ r.tool.version = none ∨
      ∃ w, r.toWire = .ok w ∧ r.tool.version ≠ none ∧ w.run = r.run ∧ w.verdict = r.verdict := by
  rcases r.tool.toWire_eq "report" with ⟨htool, hversion⟩ | ⟨w, htool, hversion, _⟩
  · refine Or.inl ⟨?_, hversion⟩
    rw [toWire, htool]
    rfl
  · refine Or.inr ⟨⟨r.schema, w, r.run, r.verdict, r.classes⟩, ?_, hversion, rfl, rfl⟩
    rw [toWire, htool]
    rfl

theorem PlansV1.readText_pretty {w : PlansV1} (h : ∀ i ∈ w.document.indices, i < word32Count) :
    codec.readText (codec.write w).pretty = .ok w := by
  have hdepth : (codec.write w).depth < ({} : Json.Limits).depth :=
    Nat.lt_of_le_of_lt (within (n := 0) w) (by decide)
  exact (keeps h).readText hdepth (Or.inr rfl)

theorem ReportV1.readText_pretty {w : ReportV1}
    (hcounts : ∀ n ∈ w.verdict.counts.numbers, n < word64Count)
    (hduration : ∀ n ∈ w.run.durationMs, n < word64Count) :
    codec.readText (codec.write w).pretty = .ok w := by
  have hdepth : (codec.write w).depth < ({} : Json.Limits).depth :=
    Nat.lt_of_le_of_lt (within (n := 0) w) (by decide)
  exact (keeps hcounts hduration).readText hdepth (Or.inr rfl)

/-- A plan document fails to have a wire form just if its tool has no version. Either text of its wire form
is read back as a wire form of the same document, as long as its adapters are numbered within 32 bits. -/
theorem PlanDocument.readText_toWire (d : PlanDocument)
    (h : ∀ i ∈ d.indices, i < Json.word32Count) :
    ((∃ e, d.toWire = .error e) ↔ d.tool.version = none) ∧
      ∀ w, d.toWire = .ok w → ∀ text,
        text = (PlansV1.codec.write w).compact ∨ text = (PlansV1.codec.write w).pretty →
          (PlansV1.codec.readText text).map (·.document) = .ok d := by
  rcases d.toWire_eq with ⟨hwire, hversion⟩ | ⟨w, hwire, hversion, hw⟩
  · exact ⟨⟨fun _ => hversion, fun _ => ⟨_, hwire⟩⟩, fun w hok => by rw [hwire] at hok; cases hok⟩
  · refine ⟨⟨fun ⟨e, he⟩ => ?_, fun hnone => absurd hnone hversion⟩, fun w' hok text htext => ?_⟩
    · rw [hwire] at he
      cases he
    · obtain rfl : w = w' := Except.ok.inj (hwire.symm.trans hok)
      have hkeeps := PlansV1.keeps (w := w) (hw.symm ▸ h)
      have hdepth : (PlansV1.codec.write w).depth < ({} : Json.Limits).depth :=
        Nat.lt_of_le_of_lt (PlansV1.within (n := 0) w) (by decide)
      rw [hkeeps.readText hdepth htext, Except.map, hw]

theorem PlanDocument.readText_toWire_of_adapter :
    let main : Plan := { name := "$Service$Definition", beanType := "app.Service", kind := .bean }
    let adapter : Plan :=
      { name := "$Service$on$Adapter0", beanType := "app.Service", kind := .adapter 0
        constructor := some (.declared [⟨"sink", "app.\"Sink\""⟩] true) }
    let d : PlanDocument := .new { name := "beanwire", version := some "0.1.0" }
      [{ className := "app.Service", main := main, adapters := [adapter]
         dispositions := [⟨.method, "app.Service#on()", .adapter 0⟩] }]
    ∃ w, d.toWire = .ok w ∧
      (PlansV1.codec.readText (PlansV1.codec.write w).pretty).map (·.document) = .ok d := by
  intro main adapter d
  obtain ⟨_, hread⟩ := d.readText_toWire (by decide)
  exact ⟨_, rfl, hread _ rfl _ (Or.inr rfl)⟩

end Wiring
