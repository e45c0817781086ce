import Wiring.Proofs.Labels

/-!
# What a page tells

The page on a plan set is taken apart into blocks, blocks into lines and lines into labels and code. No label
on a plan is the beginning of another and code holds no backtick, so a page tells what of the plan set it was
written from (`PlanSet.markdown_eq_iff`).
-/

namespace Wiring

/-! ## What is told -/

/-- What the page on a class tells of a plan. A method is told by its signature, with whether reflection
calls it. -/
@[ext] structure PlanSummary where
  name : String
  kind : PlanKind
  /-- How the constructor is labelled. -/
  constructor : Option String
  superBean : Option String
  /-- The signature of the adapted method and the type it is adapted to, of a plan that has both. -/
  adapted : Option (String × String)
  requiresMethodProcessing : Bool
  postConstruct : List (String × Bool)
  preDestroy : List (String × Bool)
  methodInjection : List (String × Bool)
  fieldInjection : List String
  fieldValues : List String
  setterValues : List String
  executable : List (String × Bool)
  /-- Signatures with the bindings, joined by commas. -/
  around : List (String × String)
  originating : List String
  deriving DecidableEq

def MethodRef.summary (m : MethodRef) : String × Bool := (m.signature, m.requiresReflection)

def ConstructorBinding.texts : ConstructorBinding → List String
  | .default => []
  | .declared parameters _ => parameters.flatMap fun a => [a.typeName, a.name]

namespace Plan

variable (p : Plan)

def summary : PlanSummary where
  name := p.name
  kind := p.kind
  constructor := p.constructor.map Markdown.constructorLabel
  superBean := p.superBean
  adapted :=
    match p.adaptedMethod, p.adaptedType with
    | some method, some type => some (method.signature, type)
    | _, _ => none
  requiresMethodProcessing := p.requiresMethodProcessing
  postConstruct := p.postConstructMethods.map (·.summary)
  preDestroy := p.preDestroyMethods.map (·.summary)
  methodInjection := p.methodInjectionPoints.map (·.summary)
  fieldInjection := p.fieldInjectionPoints.map (·.name)
  fieldValues := p.fieldValues.map (·.field.name)
  setterValues := p.setterValues.map (·.property)
  executable := p.executableMethods.map (·.summary)
  around := p.aroundMethods.map fun m => (m.method.signature, ", ".intercalate m.bindings)
  originating := p.originatingElements.elems

/-- The strings of a plan that its page shows. -/
def texts : List String :=
  [p.name] ++ p.constructor.toList.flatMap (·.texts) ++ p.superBean.toList ++
    (p.adaptedMethod.map (·.signature)).toList ++ p.adaptedType.toList ++
    (p.postConstructMethods ++ p.preDestroyMethods ++ p.methodInjectionPoints ++
      p.executableMethods).map (·.signature) ++
    p.fieldInjectionPoints.map (·.name) ++ p.fieldValues.map (·.field.name) ++
    p.setterValues.map (·.property) ++
    p.aroundMethods.flatMap (fun m => m.method.signature :: m.bindings) ++
    p.originatingElements.elems

end Plan

namespace PlanSet

variable (s : PlanSet)

/-- The descriptions of the members that were claimed, with what became of each. -/
def claims : List (String × Disposition) :=
  (s.dispositions.filter (·.disposition.isClaimed)).map fun d => (d.member, d.disposition)

/-- The strings of a plan set that its page shows. -/
def texts : List String :=
  [s.className] ++ s.plans.flatMap Plan.texts ++ s.claims.map (·.1)

end PlanSet

namespace Markdown

/-! ## Plans -/

def adaptedText (a : String × String) : String := code a.1 ++ " as " ++ code a.2

def aroundText (m : String × String) : String := code m.1 ++ " [" ++ m.2 ++ "]"

/-- What stands under each label on a plan. -/
def planParts (x : PlanSummary) : List (String × List String) :=
  [("- ", [code x.name ++ (" (" ++ (kindLabel x.kind ++ ")"))]),
    ("  - Constructor: ", x.constructor.toList),
    ("  - Super bean: ", x.superBean.toList.map code),
    ("  - Adapts: ", x.adapted.toList.map adaptedText),
    ("  - Requires method processing", if x.requiresMethodProcessing then [""] else []),
    ("  - Post-construct: ", noted (x.postConstruct.map mention)),
    ("  - Pre-destroy: ", noted (x.preDestroy.map mention)),
    ("  - Method injection: ", noted (x.methodInjection.map mention)),
    ("  - Field injection: ", noted (x.fieldInjection.map code)),
    ("  - Field values: ", noted (x.fieldValues.map code)),
    ("  - Setter values: ", noted (x.setterValues.map code)),
    ("  - Executable: ", noted (x.executable.map mention)),
    ("  - Intercepted:", if x.around.isEmpty then [] else [""]),
    ("    - ", x.around.map aroundText),
    ("  - Originating: ", noted (x.originating.map code))]

/-- The lines on a plan. -/
def planBlock (x : PlanSummary) : List String := labelled (planParts x)

def planLabels : List String :=
  ["- ", "  - Constructor: ", "  - Super bean: ", "  - Adapts: ", "  - Requires method processing",
    "  - Post-construct: ", "  - Pre-destroy: ", "  - Method injection: ", "  - Field injection: ",
    "  - Field values: ", "  - Setter values: ", "  - Executable: ", "  - Intercepted:", "    - ",
    "  - Originating: "]

theorem planLabels_apart : planLabels.Pairwise Apart := by decide

theorem map_planParts (x : PlanSummary) : (planParts x).map (·.1) = planLabels := rfl

theorem itemsLine_eq (label label' : String) (h : "  - " ++ label ++ ": " = label')
    (items : List String) : itemsLine label items = (noted items).map (label' ++ ·) := by
  subst h
  unfold itemsLine noted
  split <;> rfl

theorem adaptedLine_eq (p : Plan) :
    adaptedLine p = (p.summary.adapted.toList.map adaptedText).map ("  - Adapts: " ++ ·) := by
  cases hm : p.adaptedMethod <;> cases ht : p.adaptedType <;>
    simp [adaptedLine, Plan.summary, hm, ht, adaptedText, String.append_assoc]

theorem aroundLines_eq (p : Plan) :
    aroundLines p.aroundMethods =
      (if p.summary.around.isEmpty then [] else [""]).map ("  - Intercepted:" ++ ·) ++
        (p.summary.around.map aroundText).map ("    - " ++ ·) := by
  cases hms : p.aroundMethods <;>
    simp [aroundLines, Plan.summary, hms, aroundText, listed, String.append_assoc]

theorem methodLabel_eq : methodLabel = mention ∘ MethodRef.summary := rfl

/-- A plan is written as what is told of it. -/
theorem planLines_eq (p : Plan) : planLines p = planBlock p.summary ++ [""] := by
  have hflag : (if p.requiresMethodProcessing then ["  - Requires method processing"] else []) =
      (if p.requiresMethodProcessing then [""] else []).map ("  - Requires method processing" ++ ·) := by
    cases p.requiresMethodProcessing <;> simp
  rw [planLines, adaptedLine_eq, aroundLines_eq, hflag,
    itemsLine_eq "Post-construct" "  - Post-construct: " (by decide),
    itemsLine_eq "Pre-destroy" "  - Pre-destroy: " (by decide),
    itemsLine_eq "Method injection" "  - Method injection: " (by decide),
    itemsLine_eq "Field injection" "  - Field injection: " (by decide),
    itemsLine_eq "Field values" "  - Field values: " (by decide),
    itemsLine_eq "Setter values" "  - Setter values: " (by decide),
    itemsLine_eq "Executable" "  - Executable: " (by decide),
    itemsLine_eq "Originating" "  - Originating: " (by decide)]
  simp only [planBlock, labelled, planParts, List.flatMap_cons, List.flatMap_nil, methodLabel_eq,
    Plan.summary, List.map_map, Function.comp_def, List.append_assoc, List.append_nil, Option.toList_map,
    List.map_singleton, String.append_assoc]
  rfl

/-- What is told of a plan fits where it is written. -/
structure Fits (x : PlanSummary) : Prop where
  name : Inline x.name
  constructor : ∀ label ∈ x.constructor.toList, Unbroken label
  superBean : ∀ name ∈ x.superBean.toList, Inline name
  adapted : ∀ a ∈ x.adapted.toList, Inline a.1 ∧ Inline a.2
  postConstruct : ∀ m ∈ x.postConstruct, Inline m.1
  preDestroy : ∀ m ∈ x.preDestroy, Inline m.1
  methodInjection : ∀ m ∈ x.methodInjection, Inline m.1
  fieldInjection : ∀ name ∈ x.fieldInjection, Inline name
  fieldValues : ∀ name ∈ x.fieldValues, Inline name
  setterValues : ∀ name ∈ x.setterValues, Inline name
  executable : ∀ m ∈ x.executable, Inline m.1
  around : ∀ m ∈ x.around, Inline m.1 ∧ Unbroken m.2
  originating : ∀ name ∈ x.originating, Inline name

theorem adaptedText_inj {a b : String × String} (ha : Inline a.1 ∧ Inline a.2)
    (hb : Inline b.1 ∧ Inline b.2) (h : adaptedText a = adaptedText b) : a = b := by
  rw [adaptedText, adaptedText, String.append_assoc, String.append_assoc] at h
  obtain ⟨hmethod, htype⟩ := code_append_inj ha.1 hb.1 h
  exact Prod.ext hmethod (code_inj ((String.append_right_inj _).1 htype))

theorem aroundText_inj {m n : String × String} (hm : Inline m.1 ∧ Unbroken m.2)
    (hn : Inline n.1 ∧ Unbroken n.2) (h : aroundText m = aroundText n) : m = n := by
  simp only [aroundText, String.append_assoc] at h
  obtain ⟨hmethod, hbindings⟩ := code_append_inj hm.1 hn.1 h
  rw [String.append_right_inj, String.append_left_inj] at hbindings
  exact Prod.ext hmethod hbindings

theorem planParts_inj {x y : PlanSummary} (hx : Fits x) (hy : Fits y)
    (h : planParts x = planParts y) : x = y := by
  simp only [planParts, List.cons.injEq, Prod.mk.injEq, true_and, and_true] at h
  obtain ⟨hhead, hconstructor, hsuper, hadapted, hprocessing, hpost, hpre, hinjected, hfields, hvalues,
    hsetters, hexecutable, -, haround, horiginating⟩ := h
  obtain ⟨hname, hkind⟩ := code_append_inj hx.name hy.name hhead
  rw [String.append_right_inj, String.append_left_inj] at hkind
  have hsuper := map_inj_on (fun _ _ _ _ => code_inj) hx.superBean hy.superBean hsuper
  have hadapted := map_inj_on (fun _ _ => adaptedText_inj) hx.adapted hy.adapted hadapted
  have haround := map_inj_on (fun _ _ => aroundText_inj) hx.around hy.around haround
  have hprocessing : x.requiresMethodProcessing = y.requiresMethodProcessing := by
    cases hx : x.requiresMethodProcessing <;> cases hy : y.requiresMethodProcessing <;> simp_all
  exact PlanSummary.ext hname (kindLabel_inj hkind) (toList_option_inj hconstructor)
    (toList_option_inj hsuper) (toList_option_inj hadapted) hprocessing
    (noted_inj hx.postConstruct hy.postConstruct hpost) (noted_inj hx.preDestroy hy.preDestroy hpre)
    (noted_inj hx.methodInjection hy.methodInjection hinjected)
    (noted_code_inj hx.fieldInjection hy.fieldInjection hfields)
    (noted_code_inj hx.fieldValues hy.fieldValues hvalues)
    (noted_code_inj hx.setterValues hy.setterValues hsetters)
    (noted_inj hx.executable hy.executable hexecutable) haround
    (noted_code_inj hx.originating hy.originating horiginating)

theorem unbroken_planParts {x : PlanSummary} (h : Fits x) :
    ∀ part ∈ planParts x, ∀ item ∈ part.2, Unbroken item := by
  have hcode {names : List String} (hnames : ∀ name ∈ names, Inline name) :
      ∀ item ∈ names.map code, Unbroken item :=
    List.forall_mem_map.2 fun name hname => unbroken_code.2 (hnames name hname).1
  have hmention {ms : List (String × Bool)} (hms : ∀ m ∈ ms, Inline m.1) :
      ∀ item ∈ ms.map mention, Unbroken item :=
    List.forall_mem_map.2 fun m hm => unbroken_mention (hms m hm)
  have hadapted : ∀ item ∈ x.adapted.toList.map adaptedText, Unbroken item :=
    List.forall_mem_map.2 fun a ha => by
      rw [adaptedText, unbroken_append, unbroken_append, unbroken_code, unbroken_code]
      exact ⟨⟨(h.adapted a ha).1.1, by decide⟩, (h.adapted a ha).2.1⟩
  have haround : ∀ item ∈ x.around.map aroundText, Unbroken item :=
    List.forall_mem_map.2 fun m hm => by
      rw [aroundText, unbroken_append, unbroken_append, unbroken_append, unbroken_code]
      exact ⟨⟨⟨(h.around m hm).1.1, by decide⟩, (h.around m hm).2⟩, by decide⟩
  have hhead : Unbroken (code x.name ++ (" (" ++ (kindLabel x.kind ++ ")"))) := by
    rw [unbroken_append, unbroken_append, unbroken_append, unbroken_code]
    exact ⟨h.name.1, by decide, unbroken_kindLabel x.kind, by decide⟩
  have hflag (b : Bool) : ∀ item ∈ (if b then [""] else []), Unbroken item := by
    cases b <;> decide
  have hempty (b : Bool) : ∀ item ∈ (if b then [] else [""]), Unbroken item := by
    cases b <;> decide
  simp only [planParts, List.forall_mem_cons]
  exact ⟨⟨hhead, List.forall_mem_nil _⟩, h.constructor, hcode h.superBean, hadapted, hflag _,
    unbroken_noted (hmention h.postConstruct), unbroken_noted (hmention h.preDestroy),
    unbroken_noted (hmention h.methodInjection), unbroken_noted (hcode h.fieldInjection),
    unbroken_noted (hcode h.fieldValues), unbroken_noted (hcode h.setterValues),
    unbroken_noted (hmention h.executable), hempty _, haround, unbroken_noted (hcode h.originating),
    List.forall_mem_nil _⟩

theorem unbroken_planBlock {x : PlanSummary} (h : Fits x) :
    ∀ line ∈ planBlock x, Unbroken line ∧ line ≠ "" := by
  have hlabels : ∀ label ∈ planLabels, Unbroken label ∧ label ≠ "" := by decide
  intro line hline
  obtain ⟨part, hpart, item, hitem, rfl⟩ := exists_of_mem_labelled hline
  obtain ⟨hlabel, hne⟩ := hlabels part.1 (map_planParts x ▸ List.mem_map_of_mem hpart)
  refine ⟨unbroken_append.2 ⟨hlabel, unbroken_planParts h part hpart item hitem⟩, fun hempty => hne ?_⟩
  exact (String.append_eq_empty_iff.1 hempty).1

theorem unbroken_constructorLabel {k : ConstructorBinding} (h : ∀ x ∈ k.texts, Inline x) :
    Unbroken (constructorLabel k) := by
  cases k with
  | default => decide
  | declared parameters requiresReflection =>
      simp only [ConstructorBinding.texts, List.forall_mem_flatMap, List.forall_mem_cons] at h
      have hlisted : Unbroken (listed (parameters.map fun a => a.typeName ++ " " ++ a.name)) :=
        unbroken_listed <| List.forall_mem_map.2 fun a ha => by
          rw [unbroken_append, unbroken_append]
          exact ⟨⟨(h a ha).1.1, by decide⟩, (h a ha).2.1.1⟩
      rw [constructorLabel, unbroken_append, unbroken_append, unbroken_append]
      exact ⟨⟨⟨by decide, hlisted⟩, by decide⟩, by cases requiresReflection <;> decide⟩

theorem fits_summary {p : Plan} (h : ∀ x ∈ p.texts, Inline x) : Fits p.summary := by
  simp only [Plan.texts, List.forall_mem_append, List.forall_mem_singleton, List.forall_mem_map,
    List.forall_mem_flatMap, Option.toList_map] at h
  obtain ⟨⟨⟨⟨⟨⟨⟨⟨⟨⟨hname, hconstructor⟩, hsuper⟩, hmethod⟩, htype⟩, ⟨⟨⟨hpost, hpre⟩, hinjected⟩,
    hexecutable⟩⟩, hfields⟩, hvalues⟩, hsetters⟩, haround⟩, horiginating⟩ := h
  have hadapted : ∀ a ∈ p.summary.adapted.toList, Inline a.1 ∧ Inline a.2 := by
    intro a ha
    simp only [Plan.summary, Option.mem_toList] at ha
    split at ha
    · rename_i method type hm ht
      cases ha
      exact ⟨hmethod method (by simp [hm]), htype type (by simp [ht])⟩
    · cases ha
  have hlabel : ∀ label ∈ p.summary.constructor.toList, Unbroken label := by
    rw [Plan.summary, Option.toList_map]
    exact List.forall_mem_map.2 fun k hk => unbroken_constructorLabel (hconstructor k hk)
  have hbindings : ∀ m ∈ p.summary.around, Inline m.1 ∧ Unbroken m.2 :=
    List.forall_mem_map.2 fun m hm =>
      ⟨haround m hm _ List.mem_cons_self,
        unbroken_listed fun b hb => (haround m hm b (List.mem_cons_of_mem _ hb)).1⟩
  exact
    { name := hname
      constructor := hlabel
      superBean := hsuper
      adapted := hadapted
      postConstruct := List.forall_mem_map.2 hpost
      preDestroy := List.forall_mem_map.2 hpre
      methodInjection := List.forall_mem_map.2 hinjected
      fieldInjection := List.forall_mem_map.2 hfields
      fieldValues := List.forall_mem_map.2 hvalues
      setterValues := List.forall_mem_map.2 hsetters
      executable := List.forall_mem_map.2 hexecutable
      around := hbindings
      originating := horiginating }

/-! ## Pages -/

def claimText (m : String × Disposition) : String := "- " ++ code m.1 ++ " " ++ dispositionLabel m.2

theorem claimText_inj {m n : String × Disposition} (hm : Inline m.1) (hn : Inline n.1)
    (h : claimText m = claimText n) : m = n := by
  simp only [claimText, String.append_assoc, String.append_right_inj] at h
  obtain ⟨hmember, hlabel⟩ := code_append_inj hm hn h
  exact Prod.ext hmember (dispositionLabel_inj ((String.append_right_inj _).1 hlabel))

/-- A page in blocks of lines, each of which ends in an empty line. -/
def blocks (className : String) (plans : List PlanSummary) (claims : List (String × Disposition)) :
    List (List String) :=
  ["### " ++ className] :: (plans.map planBlock ++
    if claims.isEmpty then [] else [["**Members**"], claims.map claimText])

theorem planSetLines_eq (s : PlanSet) :
    planSetLines s =
      (blocks s.className (s.plans.map Plan.summary) s.claims).flatMap (· ++ [""]) := by
  have hplans : s.plans.flatMap planLines =
      ((s.plans.map Plan.summary).map planBlock).flatMap (· ++ [""]) := by
    simp only [funext planLines_eq, List.map_map, List.flatMap_map, Function.comp_def]
  have hmembers : memberLines s.dispositions =
      (if s.claims.isEmpty then [] else [["**Members**"], s.claims.map claimText]).flatMap (· ++ [""]) := by
    cases hc : s.dispositions.filter (·.disposition.isClaimed) <;>
      simp [memberLines, PlanSet.claims, hc, claimText, Function.comp_def]
  rw [planSetLines, hplans, hmembers, blocks]
  simp

theorem text_inj {xs ys : List String} (hxs : ∀ x ∈ xs, Unbroken x) (hys : ∀ y ∈ ys, Unbroken y)
    (h : text xs = text ys) : xs = ys := by
  have hchars (lines : List String) :
      (text lines).toList = (lines.map String.toList).flatMap (· ++ ['\n']) := by
    simp [text, List.flatMap_map]
  have hlines := congrArg String.toList h
  rw [hchars, hchars] at hlines
  have hlines := flatMap_ended_inj (List.forall_mem_map.2 hxs) (List.forall_mem_map.2 hys) hlines
  exact (List.map_inj_right fun _ _ => String.toList_inj.1).1 hlines

/-- What a page tells fits where it is written. -/
structure PageFits (className : String) (plans : List PlanSummary) (claims : List (String × Disposition)) :
    Prop where
  className : Unbroken className
  plans : ∀ x ∈ plans, Fits x
  claims : ∀ m ∈ claims, Inline m.1

section Blocks

variable {n n' : String} {xs ys : List PlanSummary} {ms ms' : List (String × Disposition)}

theorem unbroken_blocks (h : PageFits n xs ms) :
    ∀ block ∈ blocks n xs ms, ∀ line ∈ block, Unbroken line ∧ line ≠ "" := by
  rw [blocks, List.forall_mem_cons, List.forall_mem_append, List.forall_mem_map,
    List.forall_mem_singleton]
  refine ⟨⟨unbroken_append.2 ⟨by decide, h.className⟩, by simp⟩,
    fun x hx => unbroken_planBlock (h.plans x hx), ?_⟩
  split
  · exact List.forall_mem_nil _
  · have hclaims : ∀ line ∈ ms.map claimText, Unbroken line ∧ line ≠ "" :=
      List.forall_mem_map.2 fun m hm => by
        rw [claimText, unbroken_append, unbroken_append, unbroken_append, unbroken_code]
        exact ⟨⟨⟨⟨by decide, (h.claims m hm).1⟩, by decide⟩, unbroken_dispositionLabel m.2⟩, by simp⟩
    simp only [List.forall_mem_cons]
    exact ⟨⟨by decide, List.forall_mem_nil _⟩, hclaims, List.forall_mem_nil _⟩

theorem unbroken_planSetLines {s : PlanSet}
    (h : PageFits s.className (s.plans.map (·.summary)) s.claims) :
    ∀ line ∈ planSetLines s, Unbroken line := by
  rw [planSetLines_eq]
  simp only [List.forall_mem_flatMap, List.forall_mem_append, List.forall_mem_singleton]
  exact fun block hblock => ⟨fun line hline => (unbroken_blocks h block hblock line hline).1, by decide⟩

/-- The heading of the members is the block of no plan, so it tells where the plans end. -/
theorem blocks_inj (h : PageFits n xs ms) (h' : PageFits n' ys ms')
    (heq : blocks n xs ms = blocks n' ys ms') : n = n' ∧ xs = ys ∧ ms = ms' := by
  have hheading (xs : List PlanSummary) : ["**Members**"] ∉ xs.map planBlock := by
    intro hmem
    obtain ⟨x, _, hx⟩ := List.mem_map.1 hmem
    have hfirst := congrArg (·.head?.map (·.toList.head?)) hx
    simp [planBlock, labelled, planParts] at hfirst
  have hends {xs ys : List PlanSummary} {rest : List (List String)} :
      xs.map planBlock ++ [] ≠ ys.map planBlock ++ ["**Members**"] :: rest := by
    intro hxy
    rw [List.append_nil] at hxy
    exact hheading xs (hxy ▸ List.mem_append_right _ List.mem_cons_self)
  have hplans (hmap : xs.map planBlock = ys.map planBlock) : xs = ys :=
    map_inj_on (fun _ _ hx hy hxy => planParts_inj hx hy (labelled_inj rfl planLabels_apart hxy))
      h.plans h'.plans hmap
  obtain ⟨hfirst, hrest⟩ := List.cons.inj heq
  have hname : n = n' := (String.append_right_inj _).1 (List.cons.inj hfirst).1
  cases ms with
  | nil =>
      cases ms' with
      | nil => exact ⟨hname, hplans (List.append_cancel_right hrest), rfl⟩
      | cons m' ms' => exact absurd hrest hends
  | cons m ms =>
      cases ms' with
      | nil => exact absurd hrest.symm hends
      | cons m' ms' =>
          obtain ⟨hmap, hclaims⟩ := append_cons_inj (hheading xs) (hheading ys) hrest
          have hclaims := map_inj_on (fun _ _ => claimText_inj) h.claims h'.claims (List.cons.inj hclaims).1
          exact ⟨hname, hplans hmap, hclaims⟩

end Blocks

theorem pageFits_of_texts {s : PlanSet} (h : ∀ x ∈ s.texts, Inline x) :
    PageFits s.className (s.plans.map (·.summary)) s.claims := by
  simp only [PlanSet.texts, List.forall_mem_append, List.forall_mem_singleton, List.forall_mem_map,
    List.forall_mem_flatMap] at h
  exact ⟨h.1.1.1, List.forall_mem_map.2 fun p hp => fits_summary (h.1.2 p hp), h.2⟩

end Markdown

open Markdown in
/-- Of plan sets whose strings have no line breaks and no backticks, the page tells the class, what is told of
each plan and in what order, and what became of each member that was claimed; and it tells no more. What is
left unclaimed is not on the page, whatever the strings. -/
theorem PlanSet.markdown_eq_iff (s t : PlanSet) :
    ((∀ x ∈ s.texts, Inline x) → (∀ x ∈ t.texts, Inline x) →
      (s.markdown = t.markdown ↔
        s.className = t.className ∧ s.plans.map (·.summary) = t.plans.map (·.summary) ∧
          s.claims = t.claims)) ∧
      ∀ ds, ds.filter (·.disposition.isClaimed) = s.dispositions.filter (·.disposition.isClaimed) →
        { s with dispositions := ds }.markdown = s.markdown := by
  have hsame {s t : PlanSet} (hname : s.className = t.className)
      (hplans : s.plans.map (·.summary) = t.plans.map (·.summary)) (hclaims : s.claims = t.claims) :
      s.markdown = t.markdown := by
    rw [markdown, markdown, planSetLines_eq, planSetLines_eq, hname, hplans, hclaims]
  refine ⟨fun hs ht => ⟨fun h => ?_, fun ⟨hname, hplans, hclaims⟩ => hsame hname hplans hclaims⟩,
    fun ds hds => hsame rfl rfl (congrArg (List.map _) hds)⟩
  have hs := pageFits_of_texts hs
  have ht := pageFits_of_texts ht
  have hlines := text_inj (unbroken_planSetLines hs) (unbroken_planSetLines ht) h
  rw [planSetLines_eq, planSetLines_eq] at hlines
  have hblocks := flatMap_ended_inj (fun _ hblock hmem => (unbroken_blocks hs _ hblock _ hmem).2 rfl)
    (fun _ hblock hmem => (unbroken_blocks ht _ hblock _ hmem).2 rfl) hlines
  exact blocks_inj hs ht hblocks

/-- A comma within a signature is told from one between two methods, and an unclaimed field makes no
difference. -/
theorem PlanSet.markdown_eq_iff_of_commas :
    let set (methods : List MethodRef) (ds : List MemberDisposition) : PlanSet :=
      { className := "app.Service"
        main :=
          { name := "$Service$Definition", beanType := "app.Service", kind := .bean
            postConstructMethods := methods }
        dispositions := ds ++ [⟨.method, "app.Service#f(A, B)", .lifecycle true false⟩] }
    let one : PlanSet := set [⟨"app.Service", "f", "f(A, B)", false⟩] []
    let two : PlanSet := set [⟨"app.Service", "f", "f(A", false⟩, ⟨"app.Service", "f", "B)", false⟩] []
    (∀ x ∈ one.texts, Markdown.Inline x) ∧ (∀ x ∈ two.texts, Markdown.Inline x) ∧
      one.markdown ≠ two.markdown ∧
      (set [⟨"app.Service", "f", "f(A, B)", false⟩] [⟨.field, "app.Service#a", .unclaimed⟩]).markdown =
        one.markdown := by
  intro set one two
  have hone : ∀ x ∈ one.texts, Markdown.Inline x := by decide
  have htwo : ∀ x ∈ two.texts, Markdown.Inline x := by decide
  obtain ⟨hiff, hunclaimed⟩ := PlanSet.markdown_eq_iff one two
  refine ⟨hone, htwo, fun h => ?_, hunclaimed _ (by decide)⟩
  exact absurd ((hiff hone htwo).1 h).2.1 (by decide)

end Wiring
