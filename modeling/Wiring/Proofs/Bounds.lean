import Wiring.Proofs.Positions
import Wiring.Proofs.Validation

/-!
# Positions within bounds

A pass looks up members by positions that it has found before, while methods are marked in between. Here the
pass is written again with a check at each of these places: the properties of a class, their accessors and
fields, and the members gone over. Marks take no member away, so no check fails and the build is the same
(`buildChecked_eq`).
-/

namespace Wiring

/-! ## Classification with checks -/

/-- Why a pass that checks positions stops. -/
inductive Stop where
  | refused (e : Refusal)
  | outOfRange

/-- What has to be there. -/
def required {α : Type} : Option α → Except Stop α
  | some x => .ok x
  | none => .error .outOfRange

namespace ClassModel

variable (c : ClassModel)

def changeMethodChecked (f : MethodModel → MethodModel) (i : Nat) : Except Stop ClassModel := do
  let m ← required c.methods[i]?
  return { c with methods := c.methods.set i (f m) }

def validateAccessorsChecked (r : Registry) (j : Nat) : Except Stop ClassModel := do
  let x ← required c.properties[j]?
  let accessors ← (c.accessors x).mapM (required c.methods[·]?)
  if x.capabilities.hasStereotype Marker.requiresValidation ||
      accessors.any (·.capabilities.hasStereotype Marker.requiresValidation) then
    (c.accessors x).foldlM (fun c i => c.changeMethodChecked (·.markValidated r) i) c
  else return c

end ClassModel

/-- The handler of configurations, with checks. -/
def PropertyHandler.configurationChecked (c : ClassModel) (plan : Plan) (optional : Bool)
    (x : PropertyModel) : Except Stop (Bool × Plan) :=
  match c.writerIndex? x with
  | none => return (false, plan)
  | some i => do
    let setter ← required c.methods[i]?
    if setter.visibility == .priv || setter.isStatic then return (false, plan)
    else return (true, plan.addSetterValue x.name setter optional)

namespace Pass

def visitPropertyChecked (s : Setting) (p : Pass) (j : Nat) : Except Stop Pass := do
  let c ← p.model.validateAccessorsChecked s.registry j
  let x ← required c.properties[j]?
  let name := c.name ++ "#" ++ x.name
  match s.strategy.handler.visit c p.main s.strategy.optionalFieldValues x with
  | .error v => .error (.refused ⟨v, c⟩)
  | .ok (false, main) => return { p with model := c, main }.note .property name .unclaimed
  | .ok (true, main) =>
    let methods ← (c.accessors x).mapM (required c.methods[·]?)
    let fields ← (c.backingIndex? x).toList.mapM (required c.fields[·]?)
    let members := methods.map (·.member) ++ fields.map (·.member)
    let origins := (members.filter (!·.isDeclaredOn c)).map (·.declaringType)
    let main := origins.foldl Plan.addOriginating main
    return { p with model := c, main }.note .property name .property

def visitChecked (s : Setting) (p : Pass) : MemberSlot → Except Stop Pass
  | .field i => do
    let f ← required p.model.fields[i]?
    return p.visitField s f
  | .method i => do
    let c ← p.model.changeMethodChecked (·.deriveValidated s.registry) i
    let m ← required c.methods[i]?
    (visitMethod { p with model := c } s m).mapError fun v => .refused ⟨v, c⟩

def readPropertiesChecked (s : Setting) (p : Pass) : Except Stop Pass :=
  if s.strategy.readsProperties then
    (List.range p.model.properties.length).foldlM (visitPropertyChecked s) p
  else .ok p

def runChecked (s : Setting) (p : Pass) : Except Stop Pass := do
  let p ← (p.openProxy s).mapError .refused
  let p ← p.readPropertiesChecked s
  let c := p.model
  let slots ← required <|
    c.order? (c.fieldIndices { query s.strategy with includeHidden := true })
      (c.methodIndices (query s.strategy))
  slots.foldlM (visitChecked s) p

end Pass

/-- Classifies a class, unless a position is looked up that the class does not have by then. -/
def buildChecked (s : Setting) (c : ClassModel) : Option Build :=
  match (Pass.start (c.resolve s.registry)).runChecked s with
  | .ok p => some ⟨.ok p.planSet, p.model⟩
  | .error (.refused e) => some ⟨.error e.violation, e.model⟩
  | .error .outOfRange => none

/-! ## No check fails -/

section Lists

variable {α : Type} {l : List α} {i : Nat} {is : List Nat}

theorem required_some (x : α) : required (some x) = .ok x := rfl

theorem mapM_required (h : ∀ i ∈ is, i < l.length) :
    is.mapM (required l[·]?) = .ok (is.filterMap (l[·]?)) := by
  induction is with
  | nil => rfl
  | cons i is ih =>
      rw [List.forall_mem_cons] at h
      have hi := List.getElem?_eq_getElem h.1
      rw [List.mapM_cons, ih h.2, hi, List.filterMap_cons_some hi]
      rfl

theorem any_filterMap_getElem? (l : List α) (is : List Nat) (q : α → Bool) :
    (is.filterMap (l[·]?)).any q = is.any fun i => l[i]?.any q := by
  rw [List.any_filterMap]
  congr 1

end Lists

section Exceptions

variable {ε ε' α β : Type}

theorem ok_bind (a : α) (f : α → Except ε β) : (Except.ok a >>= f) = f a := rfl

theorem mapError_bind (f : ε → ε') (x : Except ε α) (g : α → Except ε β) :
    (x >>= g).mapError f = x.mapError f >>= fun a => (g a).mapError f := by
  cases x <;> rfl

/-- A run of steps each of which agrees with another one as long as an invariant holds. -/
theorem foldlM_mapError {γ δ : Type} {h : ε → ε'} {f : β → γ → Except ε' β} {g : β → δ → Except ε β}
    {P : β → Prop} {xs : List γ} {ys : List δ}
    (hstep : List.Forall₂ (fun x y => ∀ b, P b → f b x = (g b y).mapError h) xs ys)
    (hP : ∀ b y b', P b → g b y = .ok b' → P b') {b : β} (hb : P b) :
    xs.foldlM f b = (ys.foldlM g b).mapError h := by
  induction hstep generalizing b with
  | nil => rfl
  | @cons x y xs ys hxy _ ih =>
      rw [List.foldlM_cons, List.foldlM_cons, hxy b hb, mapError_bind]
      cases hg : g b y with
      | error e => rfl
      | ok b' => exact ih (hP b y b' hb hg)

end Exceptions

namespace ClassModel

variable {c : ClassModel} {f : MethodModel → MethodModel} {i j : Nat} {is : List Nat} {r : Registry}
  {x : PropertyModel}

theorem lt_of_mem_accessors (hi : i ∈ c.accessors x) : i < c.methods.length := by
  obtain ⟨m, hm⟩ := exists_of_mem_accessors hi
  exact (List.getElem?_eq_some_iff.1 hm).1

theorem lt_of_backingIndex? (hi : c.backingIndex? x = some i) : i < c.fields.length := by
  obtain ⟨name, _, hname⟩ := Option.bind_eq_some_iff.1 hi
  obtain ⟨f, hf, _⟩ := (fieldIndex?_eq_some_iff.1 hname).here
  exact (List.getElem?_eq_some_iff.1 hf).1

theorem changeMethodChecked_eq (h : i < c.methods.length) :
    c.changeMethodChecked f i = .ok (c.modifyMethods f [i]) := by
  have hset : c.methods.modify i f = c.methods.set i (f c.methods[i]) := List.modify_eq_set_get f h
  rw [changeMethodChecked, List.getElem?_eq_getElem h, modifyMethods, List.foldl_cons, List.foldl_nil, hset]
  rfl

theorem foldlM_changeMethodChecked (h : ∀ i ∈ is, i < c.methods.length) :
    is.foldlM (fun c i => c.changeMethodChecked f i) c = .ok (c.modifyMethods f is) := by
  induction is generalizing c with
  | nil => rfl
  | cons i is ih =>
      rw [List.forall_mem_cons] at h
      rw [List.foldlM_cons, changeMethodChecked_eq h.1]
      exact ih (by simpa [modifyMethods] using h.2)

theorem validateAccessorsChecked_eq (h : c.properties[j]? = some x) :
    c.validateAccessorsChecked r j = .ok (c.validateAccessors r x) := by
  have haccessors : ∀ i ∈ c.accessors x, i < c.methods.length := fun i => lt_of_mem_accessors
  rw [validateAccessorsChecked, h, required_some, ok_bind, mapM_required haccessors, ok_bind,
    any_filterMap_getElem?, foldlM_changeMethodChecked haccessors, validateAccessors]
  exact (apply_ite Except.ok _ _ _).symm

theorem properties_validateAccessors (c : ClassModel) (r : Registry) (x : PropertyModel) :
    (c.validateAccessors r x).properties = c.properties := by
  unfold validateAccessors
  split <;> rfl

theorem length_modifyMethods (c : ClassModel) (f : MethodModel → MethodModel) (is : List Nat) :
    (c.modifyMethods f is).methods.length = c.methods.length := by
  induction is generalizing c with
  | nil => rfl
  | cons i is ih =>
      exact (ih { c with methods := c.methods.modify i f }).trans (List.length_modify f _ i)

theorem has_derive {l : List MemberSlot} {slot : MemberSlot} : (c.derive r l).Has slot ↔ c.Has slot := by
  cases slot with
  | field i => exact Iff.rfl
  | method i => rw [Has, Has, derive, length_modifyMethods]

end ClassModel

/-- The handler of configurations looks up no position that is not there. -/
theorem PropertyHandler.configurationChecked_eq (c : ClassModel) (plan : Plan) (optional : Bool)
    (x : PropertyModel) :
    ∃ a, configurationChecked c plan optional x = .ok a ∧
      configuration.visit c plan optional x = .ok a := by
  cases hi : c.writerIndex? x with
  | none => exact ⟨(false, plan), by rw [configurationChecked, hi]; rfl, by simp [configuration, hi]⟩
  | some i =>
      have hmem : i ∈ c.accessors x := by simp [ClassModel.accessors, hi]
      obtain ⟨m, hm⟩ := ClassModel.exists_of_mem_accessors hmem
      simp only [configurationChecked, configuration, hi, hm, Option.bind_some, required_some, ok_bind]
      split
      · exact ⟨_, rfl, rfl⟩
      · exact ⟨_, rfl, rfl⟩

namespace Pass

variable {s : Setting} {p : Pass} {x : PropertyModel} {j : Nat}

theorem visitPropertyChecked_eq (h : p.model.properties[j]? = some x) :
    p.visitPropertyChecked s j = (p.visitProperty s x).mapError .refused := by
  set c := p.model.validateAccessors s.registry x with hc
  have hx : c.properties[j]? = some x := by rw [hc, ClassModel.properties_validateAccessors, h]
  rw [visitPropertyChecked, ClassModel.validateAccessorsChecked_eq h, ← hc, ok_bind, hx, required_some,
    ok_bind, visitProperty, ← hc]
  dsimp only
  rcases s.strategy.handler.visit c p.main s.strategy.optionalFieldValues x with v | ⟨claimed, main⟩
  · rfl
  · cases claimed with
    | false => rfl
    | true =>
        have hmethods : (c.accessors x).mapM (required c.methods[·]?) =
            .ok ((c.accessors x).filterMap (c.methods[·]?)) :=
          mapM_required fun i => ClassModel.lt_of_mem_accessors
        have hfields : (c.backingIndex? x).toList.mapM (required c.fields[·]?) =
            .ok ((c.backingIndex? x).toList.filterMap (c.fields[·]?)) :=
          mapM_required fun i hi => ClassModel.lt_of_backingIndex? (Option.mem_toList.1 hi)
        dsimp only
        rw [hmethods, ok_bind, hfields, ok_bind, List.map_filterMap, List.map_filterMap]
        rfl

theorem foldlM_visitPropertyChecked (s : Setting) (p : Pass) :
    (List.range p.model.properties.length).foldlM (visitPropertyChecked s) p =
      (p.model.properties.foldlM (fun (p : Pass) x => p.visitProperty s x) p).mapError .refused := by
  -- Reading a property marks methods only, so each position still tells the same property.
  refine foldlM_mapError (P := fun q : Pass => q.model.properties = p.model.properties) ?_ ?_ rfl
  · rw [List.forall₂_iff_get]
    refine ⟨List.length_range, fun j hj hx q hq => visitPropertyChecked_eq ?_⟩
    rw [hq, List.get_eq_getElem, List.getElem_range]
    exact List.getElem?_eq_getElem hx
  · intro q x q' hq hx
    have hleft := left_visitProperty s q x
    rw [hx] at hleft
    rw [← hq, ← ClassModel.properties_validateAccessors q.model s.registry x, ← hleft, left]

theorem visitChecked_eq {slot : MemberSlot} (h : p.model.Has slot) :
    visitChecked s p slot = (visit s p slot).mapError .refused := by
  cases slot with
  | field i =>
      have hi := List.getElem?_eq_getElem (h : i < p.model.fields.length)
      simp only [visitChecked, visit, hi, required_some, ok_bind]
      rfl
  | method i =>
      have hi : i < p.model.methods.length := h
      set c := p.model.deriveValidated s.registry i with hc
      have hmodify : p.model.modifyMethods (·.deriveValidated s.registry) [i] = c := rfl
      have hlength : c.methods.length = p.model.methods.length := List.length_modify _ _ i
      have hm := List.getElem?_eq_getElem (hlength ▸ hi)
      rw [visitChecked, ClassModel.changeMethodChecked_eq hi, hmodify, ok_bind, hm, required_some, ok_bind]
      simp only [visit, ← hc, hm]
      cases visitMethod { p with model := c } s c.methods[i] <;> rfl

theorem foldlM_visitChecked {slots : List MemberSlot} (h : ∀ slot ∈ slots, p.model.Has slot) :
    slots.foldlM (visitChecked s) p = (slots.foldlM (visit s) p).mapError .refused := by
  refine foldlM_mapError (P := fun q : Pass => ∀ slot ∈ slots, q.model.Has slot) ?_ ?_ h
  · exact List.forall₂_same.2 fun slot hslot q hq => visitChecked_eq (hq slot hslot)
  · intro q slot q' hq hq' slot' hslot'
    have hleft := left_visit s q slot
    rw [hq', left] at hleft
    rw [hleft, ClassModel.has_derive]
    exact hq slot' hslot'

theorem readPropertiesChecked_eq (s : Setting) (p : Pass) :
    p.readPropertiesChecked s = (p.readProperties s).mapError .refused := by
  rw [readPropertiesChecked, readProperties]
  split
  · exact foldlM_visitPropertyChecked s p
  · rfl

theorem runChecked_eq (s : Setting) (p : Pass) : p.runChecked s = (p.run s).mapError .refused := by
  have hmembers (q : Pass) :
      (required (q.model.order? (q.model.fieldIndices { query s.strategy with includeHidden := true })
        (q.model.methodIndices (query s.strategy))) >>= fun slots => slots.foldlM (visitChecked s) q) =
        ((slots s.strategy q.model).foldlM (visit s) q).mapError .refused := by
    have hf (i : Nat) := ClassModel.lt_of_mem_fieldIndices (c := q.model) (i := i)
      (q := { query s.strategy with includeHidden := true })
    have hm (i : Nat) := ClassModel.lt_of_mem_methodIndices (c := q.model) (i := i)
      (q := query s.strategy)
    rw [ClassModel.order?_eq_some hf hm, required_some, ok_bind]
    exact foldlM_visitChecked fun slot => ClassModel.has_of_mem_order hf hm
  rw [run_eq, runChecked]
  simp only [mapError_bind, readPropertiesChecked_eq, hmembers]

end Pass

theorem buildChecked_eq (s : Setting) (c : ClassModel) : buildChecked s c = some (build s c) := by
  rw [buildChecked, build, Pass.runChecked_eq]
  cases (Pass.start (c.resolve s.registry)).run s <;> rfl

/-- Members are found by name at the first position that fits. Under every query, exactly the members that it
asks for are enumerated, in ascending order. Positions that the class has, in any order and with any
repetitions, are arranged in groups that keep the order. The handler of configurations and the build of a
class look up no position that the class does not have by then, although methods are marked in between. -/
theorem build_within_bounds (s : Setting) (c : ClassModel) :
    (∀ name i, c.fieldIndex? name = some i ↔ c.IsVisibleField name i) ∧
    (∀ name arity i, c.methodIndex? name arity = some i ↔ c.IsOverload name arity i) ∧
    (∀ q, c.Enumerates q) ∧
    (∀ fields methods, (∀ i ∈ fields, i < c.fields.length) → (∀ i ∈ methods, i < c.methods.length) →
      ∃ slots, c.order? fields methods = some slots ∧ c.Arranges fields methods slots) ∧
    (∀ plan optional x, ∃ a, PropertyHandler.configurationChecked c plan optional x = .ok a ∧
      PropertyHandler.configuration.visit c plan optional x = .ok a) ∧
    buildChecked s c = some (build s c) := by
  refine ⟨fun _ _ => ClassModel.fieldIndex?_eq_some_iff, fun _ _ _ => ClassModel.methodIndex?_eq_some_iff,
    c.enumerates, fun fields methods hf hm => ?_,
    PropertyHandler.configurationChecked_eq c, buildChecked_eq s c⟩
  exact ⟨c.order fields methods, ClassModel.order?_eq_some hf hm, c.arranges_order fields methods⟩

theorem build_within_bounds_of_shared_accessors :
    let needy : CapabilitySet := CapabilitySet.empty.withDeclared Marker.requiresValidation
    let setHost (declaringType : String) (capabilities : CapabilitySet) : MethodModel :=
      { name := "setHost", declaringType, capabilities, parameters := [{ name := "host" }] }
    let c : ClassModel :=
      { name := "app.Settings"
        fields := [{ name := "host", declaringType := "app.Settings", hidden := true },
          { name := "host", declaringType := "app.Base" },
          { name := "port", declaringType := "app.Settings" }]
        methods := [{ name := "host", declaringType := "app.Settings" },
          { setHost "app.Settings" .empty with parameters := [{ name := "host" }, { name := "port" }] },
          setHost "app.Base" needy, setHost "app.Settings" .empty,
          { name := "stop", declaringType := "app.Base" }]
        properties := [
          { name := "host", field := some "host", readMethod := some "host", writeMethod := some "setHost" },
          { name := "alias", field := some "host", readMethod := some "host", writeMethod := some "setPort" },
          { name := "gone", field := some "gone" }] }
    let q : ElementQuery := { includeHidden := true, excludeProperties := true }
    let s : Setting := { strategy := .ofMode .properties }
    (c.fieldIndices q = [0, 2] ∧ c.methodIndices q = [1, 3, 4] ∧ c.Enumerates q) ∧
      c.order? [3] [] = none ∧
      (∀ i ∈ [2, 0, 1, 0], i < c.fields.length) ∧ (∀ i ∈ [4, 0, 2, 4], i < c.methods.length) ∧
      c.order? [2, 0, 1, 0] [4, 0, 2, 4] = some [.field 1, .method 4, .method 2, .method 4,
        .field 2, .field 0, .field 0, .method 0] ∧
      (∃ slots, c.order? [2, 0, 1, 0] [4, 0, 2, 4] = some slots ∧
        c.Arranges [2, 0, 1, 0] [4, 0, 2, 4] slots) ∧
      (build s c).model.methods.map (·.capabilities.hasDeclaredMarker Marker.validated) =
        [true, false, true, false, false] ∧
      buildChecked s c = some (build s c) := by
  intro needy setHost c q s
  obtain ⟨_, _, hq, horder, _, hbuild⟩ := build_within_bounds s c
  have hf : ∀ i ∈ [2, 0, 1, 0], i < c.fields.length := by decide
  have hm : ∀ i ∈ [4, 0, 2, 4], i < c.methods.length := by decide
  exact ⟨⟨rfl, rfl, hq q⟩, rfl, hf, hm, rfl, horder _ _ hf hm, by decide +kernel, hbuild⟩

end Wiring
