import Mathlib.Data.List.Forall2
import Wiring.Proofs.Course

/-!
# What a build leaves behind

Whatever comes of a build, the class that it leaves behind is the class as it was, caches apart, but for
marks of validation on methods. All its caches are right, and those that it came with made no difference
(`build_frame`).
-/

namespace Wiring

/-! ## The capability sets of a class -/

def ParameterModel.mapSets (f : CapabilitySet → CapabilitySet) (p : ParameterModel) :
    ParameterModel :=
  { p with capabilities := f p.capabilities }

def ConstructorModel.mapSets (f : CapabilitySet → CapabilitySet) (k : ConstructorModel) :
    ConstructorModel :=
  { k with capabilities := f k.capabilities, parameters := k.parameters.map (·.mapSets f) }

def FieldModel.mapSets (f : CapabilitySet → CapabilitySet) (x : FieldModel) : FieldModel :=
  { x with capabilities := f x.capabilities }

def MethodModel.mapSets (f : CapabilitySet → CapabilitySet) (m : MethodModel) : MethodModel :=
  { m with capabilities := f m.capabilities, parameters := m.parameters.map (·.mapSets f) }

def PropertyModel.mapSets (f : CapabilitySet → CapabilitySet) (x : PropertyModel) : PropertyModel :=
  { x with capabilities := f x.capabilities }

def SupertypeModel.mapSets (f : CapabilitySet → CapabilitySet) (x : SupertypeModel) :
    SupertypeModel :=
  { x with capabilities := f x.capabilities }

/-- The capability sets of a method and of its parameters. -/
def MethodModel.capabilitySets (m : MethodModel) : List CapabilitySet :=
  m.capabilities :: m.parameters.map (·.capabilities)

def ConstructorModel.capabilitySets (k : ConstructorModel) : List CapabilitySet :=
  k.capabilities :: k.parameters.map (·.capabilities)

namespace ClassModel

/-- The class with each of its capability sets changed. -/
def mapSets (f : CapabilitySet → CapabilitySet) (c : ClassModel) : ClassModel :=
  { c with
    capabilities := f c.capabilities
    primaryConstructor := c.primaryConstructor.map (·.mapSets f)
    fields := c.fields.map (·.mapSets f)
    methods := c.methods.map (·.mapSets f)
    properties := c.properties.map (·.mapSets f)
    supertypes := c.supertypes.map (·.mapSets f) }

/-- All capability sets of a class: its own and those of its constructor, its members, their parameters,
its properties and its supertypes. -/
def capabilitySets (c : ClassModel) : List CapabilitySet :=
  c.capabilities :: (c.primaryConstructor.toList.flatMap (·.capabilitySets) ++
    c.fields.map (·.capabilities) ++ c.methods.flatMap (·.capabilitySets) ++
    c.properties.map (·.capabilities) ++ c.supertypes.map (·.capabilities))

end ClassModel

section MapSets

variable (f g : CapabilitySet → CapabilitySet)

theorem MethodModel.mapSets_mapSets (m : MethodModel) :
    (m.mapSets g).mapSets f = m.mapSets (f ∘ g) := by
  simp [mapSets, ParameterModel.mapSets, Function.comp_def]

theorem ConstructorModel.mapSets_mapSets (k : ConstructorModel) :
    (k.mapSets g).mapSets f = k.mapSets (f ∘ g) := by
  simp [mapSets, ParameterModel.mapSets, Function.comp_def]

theorem ClassModel.mapSets_mapSets (c : ClassModel) :
    (c.mapSets g).mapSets f = c.mapSets (f ∘ g) := by
  simp [mapSets, Function.comp_def, MethodModel.mapSets_mapSets, ConstructorModel.mapSets_mapSets,
    FieldModel.mapSets, PropertyModel.mapSets, SupertypeModel.mapSets]

theorem MethodModel.capabilitySets_mapSets (m : MethodModel) :
    (m.mapSets f).capabilitySets = m.capabilitySets.map f := by
  simp [mapSets, capabilitySets, ParameterModel.mapSets, Function.comp_def]

theorem ConstructorModel.capabilitySets_mapSets (k : ConstructorModel) :
    (k.mapSets f).capabilitySets = k.capabilitySets.map f := by
  simp [mapSets, capabilitySets, ParameterModel.mapSets, Function.comp_def]

theorem ClassModel.capabilitySets_mapSets (c : ClassModel) :
    (c.mapSets f).capabilitySets = c.capabilitySets.map f := by
  cases hk : c.primaryConstructor <;>
    simp [mapSets, capabilitySets, hk, List.flatMap_map, List.map_flatMap, Function.comp_def,
      MethodModel.capabilitySets_mapSets, ConstructorModel.capabilitySets_mapSets,
      FieldModel.mapSets, PropertyModel.mapSets, SupertypeModel.mapSets]

end MapSets

/-! ## Caches -/

def CapabilitySet.uncached (c : CapabilitySet) : CapabilitySet := { c with resolved := none }

def MethodModel.uncached (m : MethodModel) : MethodModel := m.mapSets .uncached

/-- The class without what its capability sets have cached. -/
def ClassModel.uncached (c : ClassModel) : ClassModel := c.mapSets .uncached

theorem MethodModel.resolve_eq_mapSets (r : Registry) (m : MethodModel) :
    m.resolve r = m.mapSets (·.resolve r) := rfl

theorem MethodModel.resolve_resolve (r : Registry) (m : MethodModel) :
    (m.resolve r).resolve r = m.resolve r := by
  simp only [resolve_eq_mapSets, mapSets_mapSets]
  rfl

theorem MethodModel.uncached_resolve (r : Registry) (m : MethodModel) :
    (m.resolve r).uncached = m.uncached := by
  rw [resolve_eq_mapSets, uncached, mapSets_mapSets]
  rfl

namespace ClassModel

variable (r : Registry) (c : ClassModel)

theorem resolve_eq_mapSets : c.resolve r = c.mapSets (·.resolve r) := rfl

theorem resolve_resolve : (c.resolve r).resolve r = c.resolve r := by
  simp only [resolve_eq_mapSets, mapSets_mapSets]
  rfl

theorem uncached_resolve : (c.resolve r).uncached = c.uncached := by
  rw [resolve_eq_mapSets, uncached, mapSets_mapSets]
  rfl

theorem resolve_uncached : c.uncached.resolve r = c.resolve r := by
  rw [resolve_eq_mapSets, uncached, mapSets_mapSets]
  rfl

end ClassModel

/-! ## What a pass leaves -/

namespace Pass

/-- The class as it stands at the end, whatever the end is. -/
def left : Except Refusal Pass → ClassModel
  | .ok p => p.model
  | .error e => e.model

section Left

variable {s : Setting} {P : ClassModel → Prop} {p : Pass}

theorem left_bind {x : Except Refusal Pass} {f : Pass → Except Refusal Pass} (hx : P (left x))
    (hf : ∀ q, x = .ok q → P q.model → P (left (f q))) : P (left (x >>= f)) := by
  cases x with
  | error e => exact hx
  | ok q => exact hf q rfl hx

theorem left_foldlM {α : Type} {f : Pass → α → Except Refusal Pass} {xs : List α}
    (hf : ∀ q, ∀ x ∈ xs, P q.model → P (left (f q x))) (hp : P p.model) :
    P (left (xs.foldlM f p)) := by
  induction xs generalizing p with
  | nil => exact hp
  | cons x xs ih =>
      rw [List.foldlM_cons]
      exact left_bind (hf p x List.mem_cons_self hp) fun q _ hq =>
        ih (fun q y hy => hf q y (List.mem_cons_of_mem x hy)) hq

theorem left_openProxy (s : Setting) (p : Pass) : left (p.openProxy s) = p.model := by
  unfold openProxy
  split
  · split <;> rfl
  · rfl

theorem left_visitProperty (s : Setting) (p : Pass) (x : PropertyModel) :
    left (p.visitProperty s x) = p.model.validateAccessors s.registry x := by
  unfold visitProperty
  dsimp only
  split <;> rfl

theorem left_visit (s : Setting) (p : Pass) (slot : MemberSlot) :
    left (visit s p slot) = p.model.derive s.registry [slot] := by
  cases h : visit s p slot with
  | error e => exact (visit_error h).1
  | ok q =>
      rcases visit_ok h with ⟨hnone, rfl⟩ | ⟨x, d, _, hx⟩
      · exact (ClassModel.derive_of_derived?_eq_none hnone).symm
      · exact hx.model_eq

/-- What holds of a class at first, and still after the accessors of a property or a method of it are
marked, holds of the class that a pass leaves. -/
theorem left_run
    (hread : s.strategy.readsProperties = true → ∀ c, ∀ x ∈ p.model.properties, P c →
      P (c.validateAccessors s.registry x))
    (hvisit : ∀ c slot, P c → P (c.derive s.registry [slot])) (hp : P p.model) :
    P (left (p.run s)) := by
  rw [run_eq]
  refine left_bind (by rwa [left_openProxy]) fun p₀ ho hp₀ => ?_
  have hmodel : p₀.model = p.model := by
    rw [← left_openProxy s p, ho]
    rfl
  refine left_bind (left_foldlM (fun q x hx hq => ?_) hp₀) fun q _ hq =>
    left_foldlM (fun q slot _ hq => ?_) hq
  · rw [left_visitProperty]
    by_cases hs : s.strategy.readsProperties = true
    · rw [if_pos hs, hmodel] at hx
      exact hread hs _ x hx hq
    · rw [if_neg hs] at hx
      cases hx
  · rw [left_visit]
    exact hvisit _ slot hq

end Left

end Pass

theorem model_build (s : Setting) (c : ClassModel) :
    (build s c).model = Pass.left ((Pass.start (c.resolve s.registry)).run s) := by
  unfold build
  split
  · rename_i h
    rw [h]
    rfl
  · rename_i h
    rw [h]
    rfl

/-! ## Marks -/

/-- The method is as it was resolved, or is marked as validated. -/
def MethodModel.Marked (r : Registry) (m m' : MethodModel) : Prop :=
  m' = m.resolve r ∨ m' = (m.resolve r).markValidated r

namespace MethodModel.Marked

variable {r : Registry} {m m' : MethodModel}

theorem markValidated (h : m.Marked r m') : m.Marked r (m'.markValidated r) := by
  rcases h with rfl | rfl
  · exact Or.inr rfl
  · exact Or.inr (MethodModel.markValidated_markValidated r _)

theorem deriveValidated (h : m.Marked r m') : m.Marked r (m'.deriveValidated r) := by
  unfold MethodModel.deriveValidated
  split
  · exact h.markValidated
  · exact h

theorem resolve_eq (h : m.Marked r m') : m'.resolve r = m' := by
  rcases h with rfl | rfl
  · exact m.resolve_resolve r
  · have hm : ((m.resolve r).markValidated r).resolve r =
        ((m.resolve r).resolve r).markValidated r := rfl
    rw [hm, m.resolve_resolve]

theorem bare_eq (h : m.Marked r m') : m'.bare = m.bare := by
  rcases h with rfl | rfl
  · exact m.bare_resolve r
  · exact m.bare_resolve r

end MethodModel.Marked

/-- The class is as it was resolved, but for marks on methods. -/
structure ClassModel.Marked (r : Registry) (c c' : ClassModel) : Prop where
  rest : c' = { c.resolve r with methods := c'.methods }
  methods : List.Forall₂ (MethodModel.Marked r) c.methods c'.methods

theorem forall₂_modify {α β : Type} {R : α → β → Prop} {f : β → β} {l : List α} {k : List β}
    (hf : ∀ a b, R a b → R a (f b)) (h : List.Forall₂ R l k) (i : Nat) :
    List.Forall₂ R l (k.modify i f) := by
  induction h generalizing i with
  | nil => simp
  | cons hab hl ih =>
      cases i with
      | zero => exact .cons (hf _ _ hab) hl
      | succ i => exact .cons hab (ih i)

theorem forall₂_foldl_modify {α β : Type} {R : α → β → Prop} {f : β → β} {l : List α} {k : List β}
    (hf : ∀ a b, R a b → R a (f b)) (h : List.Forall₂ R l k) (is : List Nat) :
    List.Forall₂ R l (is.foldl (fun k i => k.modify i f) k) := by
  induction is generalizing k with
  | nil => exact h
  | cons i is ih => exact ih (forall₂_modify hf h i)

theorem map_resolve_of_marked {r : Registry} {l ms : List MethodModel}
    (h : List.Forall₂ (MethodModel.Marked r) l ms) : ms.map (·.resolve r) = ms := by
  induction h with
  | nil => rfl
  | cons hm _ ih => rw [List.map_cons, hm.resolve_eq, ih]

theorem map_bare_of_marked {r : Registry} {l ms : List MethodModel}
    (h : List.Forall₂ (MethodModel.Marked r) l ms) : ms.map MethodModel.bare = l.map MethodModel.bare := by
  induction h with
  | nil => rfl
  | cons hm _ ih => rw [List.map_cons, List.map_cons, hm.bare_eq, ih]

namespace ClassModel.Marked

variable {r : Registry} {c c' : ClassModel}

theorem resolve (r : Registry) (c : ClassModel) : c.Marked r (c.resolve r) :=
  ⟨rfl, List.forall₂_map_right_iff.2 (List.forall₂_same.2 fun _ _ => Or.inl rfl)⟩

theorem modifyMethods {f : MethodModel → MethodModel}
    (hf : ∀ m m', MethodModel.Marked r m m' → MethodModel.Marked r m (f m')) (h : c.Marked r c')
    (is : List Nat) : c.Marked r (c'.modifyMethods f is) := by
  have hrest := congrArg
    (fun d : ClassModel => { d with methods := (c'.modifyMethods f is).methods }) h.rest
  exact ⟨hrest, forall₂_foldl_modify hf h.methods is⟩

theorem derive (h : c.Marked r c') (l : List MemberSlot) : c.Marked r (c'.derive r l) :=
  h.modifyMethods (fun _ _ hm => hm.deriveValidated) _

theorem validateAccessors (h : c.Marked r c') (x : PropertyModel) :
    c.Marked r (c'.validateAccessors r x) := by
  obtain ⟨js, _, hjs⟩ := Pass.validateAccessors_eq c' r x
  rw [hjs]
  exact h.modifyMethods (fun _ _ hm => hm.markValidated) js

theorem resolve_eq (h : c.Marked r c') : c'.resolve r = c' := by
  calc c'.resolve r
      = { c.resolve r with methods := c'.methods }.resolve r := congrArg (·.resolve r) h.rest
    _ = { (c.resolve r).resolve r with methods := c'.methods.map (·.resolve r) } := rfl
    _ = { c.resolve r with methods := c'.methods } := by
        rw [c.resolve_resolve, map_resolve_of_marked h.methods]
    _ = c' := h.rest.symm

theorem bare_eq (h : c.Marked r c') : c'.bare = c.bare := by
  have hmethods : c'.methods.map MethodModel.bare = c.methods.map MethodModel.bare :=
    map_bare_of_marked h.methods
  calc c'.bare
      = { c.resolve r with methods := c'.methods }.bare := congrArg ClassModel.bare h.rest
    _ = { (c.resolve r).bare with methods := c'.methods.map .bare } := rfl
    _ = { c.bare with methods := c.methods.map .bare } := by rw [c.bare_resolve, hmethods]
    _ = c.bare := rfl

theorem name_eq (h : c.Marked r c') : c'.name = c.name := (congrArg ClassModel.name h.rest :)

theorem left (s : Setting) (c : ClassModel) : c.Marked s.registry (build s c).model := by
  rw [model_build]
  exact Pass.left_run (fun _ _ x _ h => h.validateAccessors x) (fun _ slot h => h.derive [slot])
    (resolve s.registry c)

end ClassModel.Marked

/-! ## What is left -/

/-- Caches apart, the method is as it was, or it was not marked as validated and now is, without
attributes. -/
def MethodModel.Gains (m m' : MethodModel) : Prop :=
  m'.uncached = m.uncached ∨
    (m.capabilities.hasDeclaredMarker Marker.validated = false ∧
      m'.uncached =
        { m.uncached with
          capabilities :=
            { m.capabilities.uncached with
              declared := m.capabilities.declared.insert Marker.validated .empty } })

/-- Caches apart, the class is as it was, but for what its methods gain. -/
structure ClassModel.Gains (c c' : ClassModel) : Prop where
  rest : c'.uncached = { c.uncached with methods := c'.uncached.methods }
  methods : List.Forall₂ MethodModel.Gains c.methods c'.methods

theorem MethodModel.Marked.gains {r : Registry} {m m' : MethodModel} (h : m.Marked r m') :
    m.Gains m' := by
  rcases h with rfl | rfl
  · exact Or.inl (m.uncached_resolve r)
  · have hmark : ((m.resolve r).markValidated r).uncached =
        { (m.resolve r).uncached with
          capabilities :=
            { m.capabilities.uncached with
              declared := CapabilitySet.mark m.capabilities.declared Marker.validated } } := rfl
    rw [m.uncached_resolve] at hmark
    cases hv : m.capabilities.hasDeclaredMarker Marker.validated with
    | true =>
        rw [CapabilitySet.mark_eq_self hv] at hmark
        exact Or.inl hmark
    | false =>
        rw [CapabilitySet.mark_eq_insert hv] at hmark
        exact Or.inr ⟨hv, hmark⟩

theorem ClassModel.Marked.gains {r : Registry} {c c' : ClassModel} (h : c.Marked r c') :
    c.Gains c' := by
  refine ⟨?_, h.methods.imp fun _ _ hm => hm.gains⟩
  have hrest : c'.uncached = { (c.resolve r).uncached with methods := c'.uncached.methods } :=
    congrArg ClassModel.uncached h.rest
  rwa [c.uncached_resolve] at hrest

/-- In a class that is as it would be resolved anew, all caches are right. -/
theorem ClassModel.coherent_of_resolve_eq {r : Registry} {c : ClassModel} (h : c.resolve r = c) :
    ∀ k ∈ c.capabilitySets, k.isResolved = true ∧ k.Coherent r := by
  intro k hk
  have hsets : c.capabilitySets.map (·.resolve r) = c.capabilitySets.map id := by
    rw [← c.capabilitySets_mapSets, ← c.resolve_eq_mapSets, h, List.map_id]
  have hcoherent : k.Coherent r := List.map_inj_left.1 hsets k hk
  refine ⟨?_, hcoherent⟩
  rw [← hcoherent]
  rfl

theorem build_eq_of_uncached_eq (s : Setting) {c d : ClassModel} (h : d.uncached = c.uncached) :
    build s d = build s c := by
  have hresolve : d.resolve s.registry = c.resolve s.registry := by
    rw [← d.resolve_uncached, h, c.resolve_uncached]
  unfold build
  rw [hresolve]

/-- Whatever comes of a build, it leaves the class as it was, caches apart, but for methods that have gained
a mark of validation without attributes. All capability sets are then resolved, and resolving them anew
would change nothing. What they had cached before made no difference. -/
theorem build_frame (s : Setting) (c : ClassModel) :
    c.Gains (build s c).model ∧
      (∀ k ∈ (build s c).model.capabilitySets, k.isResolved = true ∧ k.Coherent s.registry) ∧
      ∀ d : ClassModel, d.uncached = c.uncached → build s d = build s c := by
  have hmarked := ClassModel.Marked.left s c
  exact ⟨hmarked.gains, ClassModel.coherent_of_resolve_eq hmarked.resolve_eq,
    fun d hd => build_eq_of_uncached_eq s hd⟩

theorem build_frame_of_stale_cache :
    let needy : CapabilitySet := CapabilitySet.empty.withDeclared Marker.requiresValidation
    let stop : MethodModel :=
      { name := "stop", declaringType := "app.Service", isStatic := true
        capabilities := CapabilitySet.empty.withDeclared Marker.preDestroy }
    let c : ClassModel :=
      { name := "app.Service"
        methods := [{ name := "check", declaringType := "app.Base", capabilities := needy }, stop] }
    let d : ClassModel :=
      { c with
        methods := [{ name := "check", declaringType := "app.Base"
                      capabilities := { needy with resolved := some ⟨.empty, .empty⟩ } }, stop] }
    (build {} c).result = .error ⟨.staticNotExecutable, "app.Service#stop()"⟩ ∧
      (build {} c).model.methods.map (·.capabilities.hasDeclaredMarker Marker.validated) =
        [true, false] ∧
      d.uncached = c.uncached ∧ build {} d = build {} c := by
  intro needy stop c d
  exact ⟨rfl, rfl, rfl, (build_frame {} c).2.2 d rfl⟩

end Wiring
