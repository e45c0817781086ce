import Wiring.Proofs.Access
import Wiring.Proofs.Lockstep

/-!
# What switches change

The switch for classes of the dynamic dialect exposes methods that would be left, and changes no other decision
and no error (`PlanSet.Widens`). The switch for optional values changes nothing but whether values are
optional. Neither changes how a class is left behind (`build_switches`).
-/

namespace Wiring

def Strategy.withLegacyAccess (s : Strategy) (b : Bool) : Strategy := { s with legacyDialectAccess := b }

def Strategy.withOptionalValues (s : Strategy) (b : Bool) : Strategy := { s with optionalFieldValues := b }

def Setting.withLegacyAccess (s : Setting) (b : Bool) : Setting :=
  { s with strategy := s.strategy.withLegacyAccess b }

def Setting.withOptionalValues (s : Setting) (b : Bool) : Setting :=
  { s with strategy := s.strategy.withOptionalValues b }

/-! ## Access to dynamic classes -/

/-- Only the switch exposes the method: its class is dynamic, it is not private, it can be reached by reflection
only, and it does not carry `executable` itself, marked as validated if it is to be. -/
structure MethodModel.Sheltered (r : Registry) (c : ClassModel) (m : MethodModel) : Prop where
  dynamic : c.dialect = .dynamic
  visible : m.visibility ≠ .priv
  inaccessible : m.member.isAccessibleFrom c = false
  unmarked : ¬(m.validated r).capabilities.Carries r Marker.executable

/-- A method as it is classified that only the switch exposes. -/
structure MethodModel.Overlooked (c : ClassModel) (m : MethodModel) : Prop where
  dynamic : c.dialect = .dynamic
  visible : m.visibility ≠ .priv
  inaccessible : m.member.isAccessibleFrom c = false
  unmarked : m.capabilities.hasStereotype Marker.executable = false

theorem MethodModel.Overlooked.sheltered {r : Registry} {c : ClassModel} {m : MethodModel}
    (h : ((m.resolve r).deriveValidated r).Overlooked (c.resolve r)) : m.Sheltered r c := by
  have hvisible := h.visible
  have hinaccessible := h.inaccessible
  have hunmarked := h.unmarked
  rw [deriveValidated_resolve] at hvisible hinaccessible hunmarked
  have hvisibility : (m.validated r).visibility = m.visibility := by rw [m.validated_eq]
  refine ⟨h.dynamic, hvisibility ▸ hvisible, ?_, fun hx => ?_⟩
  · rw [← m.isAccessibleFrom_validated r]
    exact hinaccessible
  · rw [hasStereotype_resolve.2 hx] at hunmarked
    cases hunmarked

section Judged

variable (s : Strategy) (c : ClassModel) (m : MethodModel)

theorem judgeExposure_withLegacyAccess :
    judgeExposure (s.withLegacyAccess true) c m = judgeExposure (s.withLegacyAccess false) c m ∨
      (judgeExposure (s.withLegacyAccess false) c m = .ok false ∧
        judgeExposure (s.withLegacyAccess true) c m = .ok true ∧ m.Overlooked c) := by
  by_cases hl : (c.dialect == .dynamic && m.visibility != .priv) = true
  · have hdialect : c.dialect = .dynamic ∧ m.visibility ≠ .priv := by simpa using hl
    simp only [judgeExposure, Strategy.withLegacyAccess, Bool.true_and, Bool.false_and, hl]
    split
    · exact Or.inl rfl
    · split
      · exact Or.inl rfl
      · rename_i hown
        split
        · exact Or.inl rfl
        · cases ha : m.member.isAccessibleFrom c with
          | true => exact Or.inl rfl
          | false =>
              exact Or.inr ⟨rfl, rfl, hdialect.1, hdialect.2, ha, Bool.eq_false_iff.2 hown⟩
  · refine Or.inl ?_
    simp only [judgeExposure, Strategy.withLegacyAccess, Bool.true_and, Bool.false_and,
      Bool.eq_false_iff.2 hl]

/-- The switch decides about methods whose exposure it decides about, and about no others. -/
theorem judgeMethod_withLegacyAccess :
    judgeMethod (s.withLegacyAccess true) c m = judgeMethod (s.withLegacyAccess false) c m ∨
      ∃ b, judgeMethod (s.withLegacyAccess false) c m = .ok ⟨.unclaimed, b⟩ ∧
        judgeMethod (s.withLegacyAccess true) c m = .ok ⟨.exposure, b⟩ ∧ m.Overlooked c := by
  have hadvice : judgeAdvice (s.withLegacyAccess true) c m =
      judgeAdvice (s.withLegacyAccess false) c m := rfl
  simp only [judgeMethod, hadvice]
  split
  · exact Or.inl rfl
  · split
    · exact Or.inl rfl
    · split
      · exact Or.inl rfl
      · split
        · exact Or.inl rfl
        · cases judgeAdvice (s.withLegacyAccess false) c m with
          | error v => exact Or.inl rfl
          | ok b =>
              cases b with
              | true => exact Or.inl rfl
              | false =>
                  rcases judgeExposure_withLegacyAccess s c m with he | ⟨hoff, hon, hm⟩
                  · rw [he]
                    exact Or.inl rfl
                  · rw [hoff, hon]
                    exact Or.inr ⟨_, rfl, rfl, hm⟩

end Judged

/-- A plan that lists more executable methods, and so may name more origins. -/
inductive Plan.Widens : Plan → Plan → Prop
  | intro {p : Plan} {ms : List MethodRef} {ts : StringSet} (hms : p.executableMethods.Sublist ms)
      (hts : ∀ t ∈ p.originatingElements, t ∈ ts) :
      Widens p { p with executableMethods := ms, originatingElements := ts }

namespace Plan.Widens

variable {p q : Plan}

theorem refl (p : Plan) : p.Widens p := .intro (List.Sublist.refl _) fun _ h => h

theorem sublist (h : p.Widens q) : p.executableMethods.Sublist q.executableMethods := by
  cases h with
  | intro hms _ => exact hms

theorem subset (h : p.Widens q) : ∀ t ∈ p.originatingElements, t ∈ q.originatingElements := by
  cases h with
  | intro _ hts => exact hts

theorem rest (h : p.Widens q) :
    q = { p with
      executableMethods := q.executableMethods, originatingElements := q.originatingElements } := by
  cases h
  rfl

theorem enter (h : p.Widens q) (b : Bool) (e : Entry) : (p.enter b e).Widens (q.enter b e) := by
  cases h with
  | intro hms hts =>
      cases e with
      | executable m => exact .intro (hms.append (List.Sublist.refl _)) hts
      | originating t =>
          exact .intro hms fun t' ht =>
            StringSet.mem_insert.2 ((StringSet.mem_insert.1 ht).imp_right (hts t'))
      | _ => exact .intro hms hts

theorem addExecutable (h : p.Widens q) (m : MethodModel) : p.Widens (q.addExecutable m) := by
  cases h with
  | intro hms hts => exact .intro (hms.trans (List.sublist_append_left _ _)) hts

theorem addOriginating (h : p.Widens q) (t : String) : p.Widens (q.addOriginating t) := by
  cases h with
  | intro hms hts => exact .intro hms fun t' ht => StringSet.mem_insert.2 (Or.inr (hts t' ht))

end Plan.Widens

/-- The same disposition, or a method that was left and is now exposed. -/
inductive MemberDisposition.Widens : MemberDisposition → MemberDisposition → Prop
  | refl (x : MemberDisposition) : Widens x x
  | exposed (member : String) :
      Widens ⟨.method, member, .unclaimed⟩ ⟨.method, member, .executable⟩

/-- Without and with the switch for dynamic classes. -/
def Pairing.legacyAccess (s : Strategy) :
    Pairing (s.withLegacyAccess false) (s.withLegacyAccess true) where
  plans := Plan.Widens
  dispositions := MemberDisposition.Widens
  mode := rfl
  handler := rfl
  start _ := .refl _
  name h := by
    cases h
    rfl
  enter h e := h.enter _ e
  refl := .refl
  judged c m := by
    refine (judgeMethod_withLegacyAccess s c m).imp_right ?_
    rintro ⟨b, hoff, hon, _⟩
    exact ⟨⟨b, hoff, hon⟩, fun p q h => ⟨h.addExecutable m, (h.addExecutable m).addOriginating _⟩,
      .exposed _⟩

/-! ## Optional values -/

/-- The plan with all values optional, or none. -/
def Plan.withOptional (p : Plan) (b : Bool) : Plan :=
  { p with
    fieldValues := p.fieldValues.map ({ · with optional := b })
    setterValues := p.setterValues.map ({ · with optional := b }) }

def PlanSet.withOptional (set : PlanSet) (b : Bool) : PlanSet :=
  { set with main := set.main.withOptional b }

namespace Plan

theorem withOptional_enter (p : Plan) (b b' : Bool) (e : Entry) :
    (p.enter b e).withOptional b' = (p.withOptional b').enter b' e := by
  cases e with
  | fieldValue f reflection => simp [enter, withOptional, addFieldValue]
  | setterValue x m => simp [enter, withOptional, addSetterValue]
  | _ => rfl

theorem withOptional_of_entries {p : Plan} (h : p.entries = {}) (b : Bool) : p.withOptional b = p := by
  have hfields : p.fieldValues = [] := congrArg Entries.fieldValues h
  have hsetters : p.setterValues = [] := congrArg Entries.setterValues h
  rw [withOptional, hfields, hsetters]
  cases p
  simp_all

end Plan

/-- Without the switch for optional values and with it. -/
def Pairing.optionalValues (s : Strategy) (b : Bool) : Pairing s (s.withOptionalValues b) where
  plans p q := q = p.withOptional b
  dispositions x y := y = x
  mode := rfl
  handler := rfl
  start c := (Plan.withOptional_of_entries (Pass.entries_start c) b).symm
  name h := by
    cases h
    rfl
  enter {p _} h e := by
    subst h
    exact (p.withOptional_enter _ b e).symm
  refl _ := rfl
  judged _ _ := Or.inl rfl

/-! ## Builds -/

/-- What the switch for dynamic classes changes in the plan set of a class. Some methods that were left are now
exposed, each of them sheltered; they are listed among the executable methods, and where they come from among
the origins. All else is the same. -/
structure PlanSet.Widens (s : Setting) (c : ClassModel) (set set' : PlanSet) : Prop where
  dispositions : ∃ rs es es', set.Tells s.strategy c rs es ∧ set'.Tells s.strategy c rs es' ∧
    List.Forall₂ (fun e e' => e' = e ∨
      ∃ m, e = (.method m, .unclaimed) ∧ e' = (.method m, .executable) ∧
        m.Sheltered s.registry c) es es'
  executableMethods : set.main.executableMethods.Sublist set'.main.executableMethods
  originatingElements : ∀ t ∈ set.main.originatingElements, t ∈ set'.main.originatingElements
  rest : set' =
    { set with
      main :=
        { set.main with
          executableMethods := set'.main.executableMethods
          originatingElements := set'.main.originatingElements }
      dispositions := set'.dispositions }

section Builds

variable {s : Setting} {c : ClassModel} {rs rs' : List (PropertyModel × Disposition)}
  {es es' : List (Candidate × Disposition)} {p p' q q' : Pass} {m : MethodModel} {set set' : PlanSet}

/-- What is left without the switch and exposed with it is sheltered. -/
theorem sheltered_of_courses (h : Course (s.withLegacyAccess false) c rs es p q)
    (h' : Course (s.withLegacyAccess true) c rs' es' p' q')
    (he : (.method ((m.resolve s.registry).deriveValidated s.registry), .unclaimed) ∈ es)
    (he' : (.method ((m.resolve s.registry).deriveValidated s.registry), .executable) ∈ es') :
    m.Sheltered s.registry c := by
  obtain ⟨j, hj, hleft⟩ := h.decided he
  obtain ⟨j', hj', hexposed⟩ := h'.decided he'
  have hoff := judgeMethod_of_decideMethod hj
  have hon := judgeMethod_of_decideMethod hj'
  rcases judgeMethod_withLegacyAccess s.strategy (c.resolve s.registry)
    ((m.resolve s.registry).deriveValidated s.registry) with hsame | ⟨b, _, _, hm⟩
  · -- Under one verdict the method cannot have been left and exposed.
    have hverdict : j' = j := Except.ok.inj ((hon.symm.trans hsame).trans hoff)
    rw [hverdict] at hexposed
    rw [hexposed.eq_exposure] at hleft
    cases hleft
  · exact hm.sheltered

theorem MemberDisposition.Widens.cases {x y : MemberDisposition} (h : x.Widens y) :
    y.disposition = x.disposition ∨
      x.kind = .method ∧ x.disposition = .unclaimed ∧ y.disposition = .executable := by
  cases h with
  | refl => exact Or.inl rfl
  | exposed member => exact Or.inr ⟨rfl, rfl, rfl⟩

theorem MemberDisposition.Widens.eq_of_ne_method {x y : MemberDisposition} (h : x.Widens y)
    (hx : x.kind ≠ .method) : y = x := by
  cases h with
  | refl => rfl
  | exposed member => exact absurd rfl hx

theorem forall₂_of_map_fst {α β : Type} {R : α × β → α × β → Prop} {xs ys : List (α × β)}
    (hfst : xs.map (·.1) = ys.map (·.1)) (h : List.Forall₂ R xs ys) :
    List.Forall₂ (fun e e' => e'.1 = e.1 ∧ R e e') xs ys := by
  induction h with
  | nil => exact .nil
  | cons hxy _ ih =>
      rw [List.map_cons, List.map_cons, List.cons.injEq] at hfst
      exact .cons ⟨hfst.1.symm, hxy⟩ (ih hfst.2)

/-- The properties and the candidates that are told about are the same, and so are the dispositions of
properties. -/
theorem PlanSet.Tells.forall₂_widens (h : set.Tells s.strategy c rs es) (h' : set'.Tells s.strategy c rs' es')
    (hds : List.Forall₂ MemberDisposition.Widens set.dispositions set'.dispositions) :
    rs' = rs ∧ List.Forall₂ (fun e e' => e'.1 = e.1 ∧
      MemberDisposition.Widens ⟨e.1.kind, e.1.member.description, e.2⟩
        ⟨e'.1.kind, e'.1.member.description, e'.2⟩) es es' := by
  have hrs : rs.map (·.1) = rs'.map (·.1) := h.properties.trans h'.properties.symm
  have hes : es.map (·.1) = es'.map (·.1) := h.candidates.trans h'.candidates.symm
  have hlength : rs.length = rs'.length := by simpa using congrArg List.length hrs
  rw [h.dispositions, h'.dispositions] at hds
  have hproperties := List.forall₂_take_append _ _ _ hds
  have hcandidates := List.forall₂_drop_append _ _ _ hds
  rw [List.length_map, ← hlength, List.take_left' (by simp), List.forall₂_map_left_iff,
    List.forall₂_map_right_iff] at hproperties
  rw [List.length_map, ← hlength, List.drop_left' (by simp), List.forall₂_map_left_iff,
    List.forall₂_map_right_iff] at hcandidates
  refine ⟨?_, forall₂_of_map_fst hes hcandidates⟩
  have heq : List.Forall₂ (· = ·) rs rs' := by
    refine (forall₂_of_map_fst hrs hproperties).imp fun e e' h => ?_
    have hd : e'.2 = e.2 := congrArg MemberDisposition.disposition (h.2.eq_of_ne_method (by simp))
    exact (Prod.ext h.1 hd).symm
  rw [List.forall₂_eq_eq_eq] at heq
  exact heq.symm

theorem widens_of_matches (h : (build (s.withLegacyAccess false) c).result = .ok set)
    (h' : (build (s.withLegacyAccess true) c).result = .ok set')
    (hm : (Pairing.legacyAccess s.strategy).Matches set set') : PlanSet.Widens s c set set' := by
  obtain ⟨rs, es, p, q, hcourse, hset⟩ := build_ok h
  obtain ⟨rs', es', p', q', hcourse', hset'⟩ := build_ok h'
  obtain ⟨xs, ys, htells, rfl, rfl⟩ := hcourse.tells
  obtain ⟨xs', ys', htells', rfl, rfl⟩ := hcourse'.tells
  -- What is told about does not depend on the switch.
  have htells : set.Tells s.strategy c xs ys := by
    rw [hset]
    exact ⟨htells.properties, htells.candidates, htells.dispositions⟩
  have htells' : set'.Tells s.strategy c xs' ys' := by
    rw [hset']
    exact ⟨htells'.properties, htells'.candidates, htells'.dispositions⟩
  have hds : List.Forall₂ MemberDisposition.Widens set.dispositions set'.dispositions := by
    cases hm with
    | intro _ hds => exact hds
  have hmain : set.main.Widens set'.main := by
    cases hm with
    | intro hmain _ => exact hmain
  have hrest : set' = { set with main := set'.main, dispositions := set'.dispositions } := by
    cases hm with
    | intro _ _ => rfl
  obtain ⟨rfl, hcandidates⟩ := htells.forall₂_widens htells' hds
  refine ⟨⟨xs', ys, ys', htells, htells', ?_⟩, hmain.sublist, hmain.subset, ?_⟩
  · rw [List.forall₂_iff_zip] at hcandidates ⊢
    refine ⟨hcandidates.1, fun {e e'} hz => ?_⟩
    obtain ⟨x, d⟩ := e
    obtain ⟨x', d'⟩ := e'
    obtain ⟨he, he'⟩ := List.of_mem_zip hz
    obtain ⟨hx, hd⟩ := hcandidates.2 hz
    obtain rfl : x' = x := hx
    rcases hd.cases with hsame | ⟨hkind, hleft, hexposed⟩
    · exact Or.inl (congrArg (Prod.mk x') hsame)
    · cases x' with
      | field f => cases hkind
      | method m =>
          subst hleft hexposed
          exact Or.inr ⟨m, rfl, rfl, sheltered_of_courses hcourse hcourse'
            (List.mem_map_of_mem he) (List.mem_map_of_mem he')⟩
  · rw [← hmain.rest]
    exact hrest

/-- Whatever comes of a class under the handlers that come with the strategies and the standard weaver: with the
switch for dynamic classes it is rejected for the same violation as without, or its plan set is widened. With
the switch for optional values set one way or the other, what comes of it is the same but for the values that
are optional. Either way the class is left behind alike. -/
theorem build_switches (s : Setting) (c : ClassModel)
    (hh : s.strategy.handler = .noop ∨ s.strategy.handler = .configuration)
    (hw : s.weaver = .standard) :
    Concur (PlanSet.Widens s c) (build (s.withLegacyAccess false) c).result
        (build (s.withLegacyAccess true) c).result ∧
      (build (s.withLegacyAccess true) c).model = (build (s.withLegacyAccess false) c).model ∧
      ∀ b, (build (s.withOptionalValues b) c).result =
          (build s c).result.map (·.withOptional b) ∧
        (build (s.withOptionalValues b) c).model = (build s c).model := by
  have hmain : s.weaver.IgnoresMain := hw ▸ Weaver.standard_ignoresMain
  obtain ⟨hlegacy, hmodel⟩ :=
    Pairing.build (s.withLegacyAccess false) (Pairing.legacyAccess s.strategy) hmain hh c
  refine ⟨?_, hmodel, fun b => ?_⟩
  · exact hlegacy.imp fun set set' h h' hm => widens_of_matches h h' hm
  · obtain ⟨hoptional, hmodel⟩ := Pairing.build s (Pairing.optionalValues s.strategy b) hmain hh c
    refine ⟨hoptional.eq_map fun set set' hm => ?_, hmodel⟩
    cases hm with
    | intro hmain hds =>
        have hsame : List.Forall₂ (· = ·) _ _ := hds.imp fun _ _ h => h.symm
        rw [List.forall₂_eq_eq_eq] at hsame
        subst hmain hsame
        rfl

theorem build_switches_script :
    let base : SupertypeModel :=
      { name := "lib.Base", capabilities := CapabilitySet.empty.withDeclared "Executable" }
    let hook : MethodModel := { name := "hook", declaringType := "lib.Base", visibility := .prot }
    let host : FieldModel :=
      { name := "host", declaringType := "app.Script"
        capabilities := CapabilitySet.empty.withDeclared "Value" }
    let c : ClassModel :=
      { name := "app.Script", dialect := .dynamic
        capabilities := CapabilitySet.empty.withDeclared "Executable"
        fields := [host], methods := [hook], supertypes := [base] }
    let s : Setting := {}
    let planned (s : Setting) : Option PlanSet := (build s c).result.toOption
    (Concur (PlanSet.Widens s c) (build (s.withLegacyAccess false) c).result
        (build (s.withLegacyAccess true) c).result ∧
      (planned (s.withLegacyAccess false)).map (·.dispositions.map (·.disposition)) =
        some [.unclaimed, .fieldValue] ∧
      (planned (s.withLegacyAccess true)).map (·.dispositions.map (·.disposition)) =
        some [.executable, .fieldValue]) ∧
    (build (s.withOptionalValues true) c).result = (build s c).result.map (·.withOptional true) ∧
      (planned (s.withOptionalValues true)).map (·.main.fieldValues.map (·.optional)) =
        some [true] := by
  intro base hook host c s planned
  obtain ⟨hlegacy, _, hoptional⟩ := build_switches s c (Or.inl rfl) rfl
  exact ⟨⟨hlegacy, by decide +kernel, by decide +kernel⟩, (hoptional true).1, by decide +kernel⟩

end Builds

end Wiring
