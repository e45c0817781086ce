import Wiring.Proofs.Reachability

/-!
# Layers

A member's markers seen together with those of its class are the markers of one set: what the class gives is
laid under what the member has from elsewhere, attribute by attribute (`effective_eq_merged`).
-/

namespace Wiring

/-! ## Maps put together -/

namespace StringMap

variable {α : Type}

/-- The entries of both maps. What both have at a key is put together. -/
def mergeWith (f : α → α → α) (m n : StringMap α) : StringMap α :=
  n.entries.foldl (fun m e => m.alter e.1 fun a => a.elim e.2 (f · e.2)) m

theorem get?_foldl_alter (f : α → α → α) (k : String) {es : List (String × α)}
    (h : es.Pairwise fun a b => a.1 < b.1) (m : StringMap α) :
    (es.foldl (fun m e => m.alter e.1 fun a => a.elim e.2 (f · e.2)) m).get? k =
      Option.merge f (m.get? k) (es.lookup k) := by
  induction es generalizing m with
  | nil => simp
  | cons e es ih =>
      obtain ⟨a, v⟩ := e
      obtain ⟨hlt, hes⟩ := List.pairwise_cons.1 h
      rw [List.foldl_cons, ih hes, get?_alter]
      by_cases hk : k = a
      · -- The key is not among those that follow.
        subst hk
        have hnone : es.lookup k = none :=
          lookup_eq_none_of_lt hes fun e he => hlt e (List.mem_of_mem_head? he)
        rw [if_pos rfl, hnone, List.lookup_cons_self]
        cases m.get? k <;> rfl
      · rw [if_neg hk, lookup_cons_of_ne hk]

theorem get?_mergeWith (f : α → α → α) (m n : StringMap α) (k : String) :
    (m.mergeWith f n).get? k = Option.merge f (m.get? k) (n.get? k) :=
  get?_foldl_alter f k n.ascending m

theorem contains_mergeWith (f : α → α → α) (m n : StringMap α) (k : String) :
    (m.mergeWith f n).contains k = (m.contains k || n.contains k) := by
  simp only [contains_eq_isSome, get?_mergeWith]
  cases m.get? k <;> cases n.get? k <;> rfl

end StringMap

/-! ## Layers -/

theorem findSome?_cons_eq_or {α β : Type} (f : α → Option β) (a : α) (l : List α) :
    (a :: l).findSome? f = (f a).or (l.findSome? f) := by
  rw [List.findSome?_cons]
  cases f a <;> rfl

namespace CapabilitySet

/-- The value that a layer gives to an attribute. -/
def valueIn (layer : StringMap Attributes) (marker key : String) : Option CanonicalJson :=
  (layer.get? marker).bind (·.get? key)

/-- The markers of both layers. An attribute that has values in both has the one in the first. -/
def overlay (upper lower : StringMap Attributes) : StringMap Attributes :=
  upper.mergeWith (fun a b => a.mergeWith (fun v _ => v) b) lower

theorem attribute?_eq_or (c : CapabilitySet) (marker key : String) :
    c.attribute? marker key = (valueIn c.declared marker key).or (valueIn c.inherited marker key) := rfl

theorem valueIn_overlay (upper lower : StringMap Attributes) (marker key : String) :
    valueIn (overlay upper lower) marker key =
      (valueIn upper marker key).or (valueIn lower marker key) := by
  unfold valueIn overlay
  rw [StringMap.get?_mergeWith]
  cases upper.get? marker with
  | none => cases lower.get? marker <;> rfl
  | some a =>
      cases lower.get? marker with
      | none => simp
      | some b =>
          simp only [Option.merge_some_some, Option.bind_some, StringMap.get?_mergeWith]
          cases a.get? key <;> cases b.get? key <;> rfl

theorem contains_overlay (upper lower : StringMap Attributes) (marker : String) :
    (overlay upper lower).contains marker = (upper.contains marker || lower.contains marker) :=
  StringMap.contains_mergeWith _ upper lower marker

variable {c : CapabilitySet} {r : Registry} {t : String}

theorem mem_keys_iff {a : String} :
    a ∈ c.declared.keys ++ c.inherited.keys ↔ c.hasMarker a = true := by
  simp [StringMap.mem_keys, hasMarker]

theorem carries_iff_hasMarker : c.Carries r t ↔ ∃ a, c.hasMarker a = true ∧ r.Carries a t := by
  simp only [Carries, mem_keys_iff]

/-! ## Resolution -/

/-- The set is resolved with a registry, or it is not resolved. -/
inductive ResolvedBy (c : CapabilitySet) : Option Registry → Prop
  | unresolved (h : c.isResolved = false) : ResolvedBy c none
  | resolved {r : Registry} (h : c.Coherent r) : ResolvedBy c (some r)

theorem resolved_eq_none (h : c.isResolved = false) : c.resolved = none :=
  Option.isNone_iff_eq_none.1 (Option.isSome_eq_false_iff.1 h)

theorem hasStereotype_of_unresolved (h : c.isResolved = false) : c.hasStereotype t = c.hasMarker t := by
  rw [hasStereotype, resolved_eq_none h]

theorem hasDeclaredStereotype_of_unresolved (h : c.isResolved = false) :
    c.hasDeclaredStereotype t = c.hasDeclaredMarker t := by
  rw [hasDeclaredStereotype, resolved_eq_none h]

end CapabilitySet

/-! ## Merged sets -/

namespace Effective

open CapabilitySet

/-- A set has the markers of both sets: what is written on the member, and all else below, where the
member's own values come before those of the class and what is written on the class before the rest. -/
structure Merges (e : Effective) (c : CapabilitySet) : Prop where
  declared : c.declared = e.own.declared
  contains : ∀ marker,
    c.inherited.contains marker = (e.own.inherited.contains marker || e.context.hasMarker marker)
  values : ∀ marker key, valueIn c.inherited marker key =
    [e.own.inherited, e.context.declared, e.context.inherited].findSome? (valueIn · marker key)

/-- The value of an attribute: that of the first layer to give one, the member's before those of the
class. -/
def value? (e : Effective) (marker key : String) : Option CanonicalJson :=
  [e.own.declared, e.own.inherited, e.context.declared, e.context.inherited].findSome?
    (valueIn · marker key)

structure Agrees (e : Effective) (c : CapabilitySet) : Prop where
  hasMarker : ∀ marker, e.hasMarker marker = c.hasMarker marker
  hasDeclaredMarker : ∀ marker, e.hasDeclaredMarker marker = c.hasDeclaredMarker marker
  hasStereotype : ∀ marker, e.hasStereotype marker = c.hasStereotype marker
  hasDeclaredStereotype : ∀ marker, e.hasDeclaredStereotype marker = c.hasDeclaredStereotype marker
  isTrue : ∀ marker key, e.isTrue marker key = c.isTrue marker key

/-- The member's set with the markers of the class laid under it, resolved or not. -/
def merged (e : Effective) (o : Option Registry) : CapabilitySet :=
  let c : CapabilitySet :=
    { declared := e.own.declared
      inherited := overlay e.own.inherited (overlay e.context.declared e.context.inherited) }
  o.elim c c.resolve

variable {e : Effective} {c : CapabilitySet} {o : Option Registry}

theorem value?_eq (e : Effective) (marker key : String) :
    e.value? marker key = (e.own.attribute? marker key).or (e.context.attribute? marker key) := by
  simp only [value?, attribute?_eq_or, findSome?_cons_eq_or, List.findSome?_nil, Option.or_none,
    Option.or_assoc]

theorem isTrue_eq (e : Effective) (marker key : String) :
    e.isTrue marker key = (e.value? marker key).any CanonicalJson.isTrue := by
  rw [value?_eq, Effective.isTrue]
  cases e.own.attribute? marker key <;> rfl

theorem merges_merged (e : Effective) (o : Option Registry) : e.Merges (e.merged o) := by
  have hinherited : (e.merged o).inherited =
      overlay e.own.inherited (overlay e.context.declared e.context.inherited) := by
    cases o <;> rfl
  refine ⟨by cases o <;> rfl, fun marker => ?_, fun marker key => ?_⟩
  · rw [hinherited, contains_overlay, contains_overlay]
    rfl
  · simp only [hinherited, valueIn_overlay, findSome?_cons_eq_or, List.findSome?_nil, Option.or_none]

theorem resolvedBy_merged (e : Effective) (o : Option Registry) : (e.merged o).ResolvedBy o := by
  cases o with
  | none => exact .unresolved rfl
  | some r => exact .resolved (coherent_resolve r _)

namespace Merges

theorem hasMarker_eq (h : e.Merges c) (marker : String) : e.hasMarker marker = c.hasMarker marker := by
  have hc : c.hasMarker marker = (c.declared.contains marker || c.inherited.contains marker) := rfl
  have hown : e.own.hasMarker marker =
      (e.own.declared.contains marker || e.own.inherited.contains marker) := rfl
  rw [Effective.hasMarker, hc, hown, h.declared, h.contains, Bool.or_assoc]

theorem hasDeclaredMarker_eq (h : e.Merges c) (marker : String) :
    e.own.hasDeclaredMarker marker = c.hasDeclaredMarker marker :=
  congrArg (StringMap.contains · marker) h.declared.symm

theorem carries_iff (h : e.Merges c) {r : Registry} {t : String} :
    c.Carries r t ↔ e.own.Carries r t ∨ e.context.Carries r t := by
  simp only [carries_iff_hasMarker, ← h.hasMarker_eq, Effective.hasMarker, Bool.or_eq_true, or_and_right,
    exists_or]

theorem declaredCarries_iff (h : e.Merges c) {r : Registry} {t : String} :
    c.DeclaredCarries r t ↔ e.own.DeclaredCarries r t := by
  rw [DeclaredCarries, h.declared, DeclaredCarries]

theorem hasStereotype_eq (h : e.Merges c) (hown : e.own.ResolvedBy o)
    (hcontext : e.context.ResolvedBy o) (hc : c.ResolvedBy o) (marker : String) :
    e.hasStereotype marker = c.hasStereotype marker := by
  cases hc with
  | unresolved hc =>
      obtain ⟨hown⟩ := hown
      obtain ⟨hcontext⟩ := hcontext
      rw [Effective.hasStereotype, hasStereotype_of_unresolved hown,
        hasStereotype_of_unresolved hcontext, hasStereotype_of_unresolved hc, ← h.hasMarker_eq]
      rfl
  | resolved hc =>
      obtain _ | hown := hown
      obtain _ | hcontext := hcontext
      rw [Bool.eq_iff_iff, hc.hasStereotype_iff, h.carries_iff, Effective.hasStereotype,
        Bool.or_eq_true, hown.hasStereotype_iff, hcontext.hasStereotype_iff]

theorem hasDeclaredStereotype_eq (h : e.Merges c) (hown : e.own.ResolvedBy o) (hc : c.ResolvedBy o)
    (marker : String) : e.hasDeclaredStereotype marker = c.hasDeclaredStereotype marker := by
  cases hc with
  | unresolved hc =>
      obtain ⟨hown⟩ := hown
      rw [Effective.hasDeclaredStereotype, hasDeclaredStereotype_of_unresolved hown,
        hasDeclaredStereotype_of_unresolved hc, h.hasDeclaredMarker_eq]
  | resolved hc =>
      obtain _ | hown := hown
      rw [Bool.eq_iff_iff, hc.hasDeclaredStereotype_iff, h.declaredCarries_iff,
        Effective.hasDeclaredStereotype, hown.hasDeclaredStereotype_iff]

theorem attribute?_eq (h : e.Merges c) (marker key : String) :
    c.attribute? marker key = e.value? marker key := by
  rw [attribute?_eq_or, h.declared, h.values, value?, findSome?_cons_eq_or _ e.own.declared]

theorem isTrue_eq (h : e.Merges c) (marker key : String) : e.isTrue marker key = c.isTrue marker key := by
  rw [e.isTrue_eq, CapabilitySet.isTrue, h.attribute?_eq]

end Merges

/-- A member's set together with that of its class answers as one set does that has all their markers, when
none of the three is resolved or all are with one registry. -/
theorem effective_eq_merged (hown : e.own.ResolvedBy o) (hcontext : e.context.ResolvedBy o) :
    e.Merges (e.merged o) ∧ (e.merged o).ResolvedBy o ∧
      ∀ c, e.Merges c → c.ResolvedBy o → e.Agrees c := by
  refine ⟨e.merges_merged o, e.resolvedBy_merged o, fun c h hc => ?_⟩
  exact ⟨h.hasMarker_eq, h.hasDeclaredMarker_eq, h.hasStereotype_eq hown hcontext hc,
    h.hasDeclaredStereotype_eq hown hc, h.isTrue_eq⟩

/-- A value that a method has from the method it overrides hides one of its class, and no other value of the
same marker. -/
theorem effective_eq_merged_of_hidden_value :
    let r := Registry.new (.ofList [("Timed", [Marker.around])])
    let no : CanonicalJson := .of (.bool false)
    let yes : CanonicalJson := .of (.bool true)
    let own : CapabilitySet :=
      { inherited := .ofList [(Marker.executable, .ofList [(Marker.processOnStartup, no)])] }
    let context : CapabilitySet :=
      { declared := .ofList
          [(Marker.executable, .ofList [(Marker.processOnStartup, yes), ("eager", yes)])] }
    let e : Effective := ⟨own.resolve r, context.resolve r⟩
    e.isTrue Marker.executable Marker.processOnStartup = false ∧
      e.isTrue Marker.executable "eager" = true ∧ e.Agrees (e.merged (some r)) := by
  intro r no yes own context e
  obtain ⟨hmerges, hresolved, hagrees⟩ := effective_eq_merged (e := e)
    (.resolved (coherent_resolve r own)) (.resolved (coherent_resolve r context))
  exact ⟨by decide, by decide, hagrees _ hmerges hresolved⟩

end Effective

end Wiring
