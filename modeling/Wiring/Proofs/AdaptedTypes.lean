import Wiring.Proofs.Adapters

/-!
# Types of adapters

The standard weaver looks for the type of an adapter on the adapter marker, and where it is not told there,
on all markers of the method, whatever they carry (`CapabilitySet.Decides`). So an adapter is made on the
strength of a marker that has to do with adapters as long as no other marker names a type (`adapts_to_named`).
-/

namespace Wiring

/-! ## Markers that name types -/

/-- The type that the attributes of a marker name. -/
def namedType? (a : Attributes) : Option String :=
  (a.get? Marker.adaptedType).bind CanonicalJson.string?

/-- A marker of a layer names a type. -/
def LayerNames (layer : StringMap Attributes) (marker type : String) : Prop :=
  ∃ a, layer.get? marker = some a ∧ namedType? a = some type

namespace CapabilitySet

/-- What the adapter marker itself says. -/
def adapterType? (c : CapabilitySet) : Option String :=
  (c.attribute? Marker.adapter Marker.adaptedType).bind CanonicalJson.string?

/-- A marker of the set, written or not, names a type. -/
def Names (c : CapabilitySet) (marker type : String) : Prop :=
  LayerNames c.declared marker type ∨ LayerNames c.inherited marker type

/-- The marker that tells the type of an adapter: the adapter marker, or else the first one by name to name a
type, of those that are written before the others. -/
inductive Decides (c : CapabilitySet) : String → String → Prop
  | adapter {type : String} (h : c.adapterType? = some type) : Decides c Marker.adapter type
  | declared {marker type : String} (hnone : c.adapterType? = none)
      (h : LayerNames c.declared marker type)
      (hfirst : ∀ b u, b < marker → ¬LayerNames c.declared b u) : Decides c marker type
  | inherited {marker type : String} (hnone : c.adapterType? = none)
      (hdeclared : ∀ b u, ¬LayerNames c.declared b u) (h : LayerNames c.inherited marker type)
      (hfirst : ∀ b u, b < marker → ¬LayerNames c.inherited b u) : Decides c marker type

variable {c c' : CapabilitySet} {marker type : String}

theorem names_of_adapterType? (h : c.adapterType? = some type) : c.Names Marker.adapter type := by
  obtain ⟨v, hv, htype⟩ := Option.bind_eq_some_iff.1 h
  rcases Option.or_eq_some_iff.1 hv with hv | ⟨_, hv⟩
  · obtain ⟨a, ha, hv⟩ := Option.bind_eq_some_iff.1 hv
    exact Or.inl ⟨a, ha, by rw [namedType?, hv]; exact htype⟩
  · obtain ⟨a, ha, hv⟩ := Option.bind_eq_some_iff.1 hv
    exact Or.inr ⟨a, ha, by rw [namedType?, hv]; exact htype⟩

theorem Decides.names (h : c.Decides marker type) : c.Names marker type := by
  cases h with
  | adapter h => exact names_of_adapterType? h
  | declared _ h _ => exact Or.inl h
  | inherited _ _ h _ => exact Or.inr h

theorem findSome?_layer_eq_none {layer : StringMap Attributes} :
    layer.values.findSome? namedType? = none ↔ ∀ b u, ¬LayerNames layer b u := by
  rw [StringMap.findSome?_values_eq_none]
  constructor
  · rintro h b u ⟨a, ha, hu⟩
    rw [h b a ha] at hu
    cases hu
  · intro h b a ha
    exact Option.eq_none_iff_forall_ne_some.2 fun u hu => h b u ⟨a, ha, hu⟩

theorem findSome?_layer_eq_some {layer : StringMap Attributes} :
    layer.values.findSome? namedType? = some type ↔
      ∃ marker, LayerNames layer marker type ∧ ∀ b u, b < marker → ¬LayerNames layer b u := by
  rw [StringMap.findSome?_values_eq_some]
  constructor
  · rintro ⟨k, a, hk, ha, hfirst⟩
    refine ⟨k, ⟨a, hk, ha⟩, ?_⟩
    rintro b u hb ⟨a', ha', hu⟩
    rw [hfirst b a' hb ha'] at hu
    cases hu
  · rintro ⟨k, ⟨a, hk, ha⟩, hfirst⟩
    refine ⟨k, a, hk, ha, fun b a' hb ha' => ?_⟩
    exact Option.eq_none_iff_forall_ne_some.2 fun u hu => hfirst b u hb ⟨a', ha', hu⟩

/-- Whether a type is named depends on the strings that markers have under the key alone. -/
theorem Decides.of_names (h : c.Decides marker type) (hadapter : c'.adapterType? = c.adapterType?)
    (hdeclared : ∀ b u, LayerNames c'.declared b u ↔ LayerNames c.declared b u)
    (hinherited : c'.inherited = c.inherited) : c'.Decides marker type := by
  cases h with
  | adapter h => exact .adapter (hadapter.trans h)
  | declared hnone h hfirst =>
      exact .declared (hadapter.trans hnone) ((hdeclared _ _).2 h) fun b u hb hu =>
        hfirst b u hb ((hdeclared b u).1 hu)
  | inherited hnone hd h hfirst =>
      rw [← hinherited] at h hfirst
      exact .inherited (hadapter.trans hnone) (fun b u hu => hd b u ((hdeclared b u).1 hu)) h hfirst

/-- A mark without attributes names no type. -/
theorem layerNames_mark {layer : StringMap Attributes} {mark b u : String} :
    LayerNames (CapabilitySet.mark layer mark) b u ↔ LayerNames layer b u := by
  have hempty : namedType? StringMap.empty = none := rfl
  unfold LayerNames CapabilitySet.mark
  rw [StringMap.get?_alter]
  by_cases hb : b = mark
  · subst hb
    cases hget : layer.get? b <;> simp [hempty]
  · rw [if_neg hb]

theorem adapterType?_mark (hne : Marker.adapter ≠ marker) :
    ({ c with declared := CapabilitySet.mark c.declared marker } : CapabilitySet).adapterType? =
      c.adapterType? := by
  have hget : (CapabilitySet.mark c.declared marker).get? Marker.adapter =
      c.declared.get? Marker.adapter := by
    rw [CapabilitySet.mark, StringMap.get?_alter, if_neg hne]
  simp only [adapterType?, attribute?, hget]

end CapabilitySet

theorem MethodModel.decides_seen (r : Registry) (m : MethodModel) {marker type : String} :
    ((m.resolve r).deriveValidated r).capabilities.Decides marker type ↔
      m.capabilities.Decides marker type := by
  have hne : Marker.adapter ≠ Marker.validated := by decide
  have hmark := CapabilitySet.adapterType?_mark (c := m.capabilities) hne
  unfold deriveValidated
  split
  · exact ⟨fun h => h.of_names hmark.symm (fun _ _ => CapabilitySet.layerNames_mark.symm) rfl,
      fun h => h.of_names hmark (fun _ _ => CapabilitySet.layerNames_mark) rfl⟩
  · exact ⟨fun h => h.of_names rfl (fun _ _ => .rfl) rfl,
      fun h => h.of_names rfl (fun _ _ => .rfl) rfl⟩

/-! ## Adapters of the standard weaver -/

/-- The adapter of a method to a type, under a number. -/
def Plan.adapterTo (c : ClassModel) (m : MethodModel) (k : Nat) (type : String) : Plan :=
  { (Plan.new (Plan.adapterName c.name m.name k) c.name (.adapter k)).withDefaultConstructor with
    adaptedType := some type, adaptedMethod := some (.of m false) }

namespace Weaver

variable {c : ClassModel} {m : MethodModel} {k : Nat} {plan : Plan} {type : String}

theorem adaptedType?_eq_some :
    adaptedType? m = some type ↔ ∃ marker, m.capabilities.Decides marker type := by
  have hsearch : m.capabilities.findString Marker.adaptedType =
      (m.capabilities.declared.values.findSome? namedType?).or
        (m.capabilities.inherited.values.findSome? namedType?) := List.findSome?_append
  have hself : (m.capabilities.attribute? Marker.adapter Marker.adaptedType).bind
      CanonicalJson.string? = m.capabilities.adapterType? := rfl
  rw [adaptedType?, hself, hsearch]
  cases htype : m.capabilities.adapterType? with
  | some u =>
      rw [Option.some_or, Option.some.injEq]
      constructor
      · rintro rfl
        exact ⟨_, .adapter htype⟩
      · rintro ⟨marker, h⟩
        cases h with
        | adapter h => exact Option.some.inj (htype.symm.trans h)
        | declared hnone => simp [htype] at hnone
        | inherited hnone => simp [htype] at hnone
  | none =>
      rw [Option.none_or, Option.or_eq_some_iff, CapabilitySet.findSome?_layer_eq_some,
        CapabilitySet.findSome?_layer_eq_none, CapabilitySet.findSome?_layer_eq_some]
      constructor
      · rintro (⟨marker, h, hfirst⟩ | ⟨hd, marker, h, hfirst⟩)
        · exact ⟨marker, .declared htype h hfirst⟩
        · exact ⟨marker, .inherited htype hd h hfirst⟩
      · rintro ⟨marker, h⟩
        cases h with
        | adapter h => simp [htype] at h
        | declared _ h hfirst => exact Or.inl ⟨marker, h, hfirst⟩
        | inherited _ hd h hfirst => exact Or.inr ⟨hd, marker, h, hfirst⟩

theorem standard_adapterPlan :
    standard.adapterPlan c m k = (adaptedType? m).bind fun type =>
      if Text.isBlank type then none else some (.adapterTo c m k type) := by
  simp only [standard]
  cases adaptedType? m <;> rfl

theorem standard_adapterPlan_eq_some :
    standard.adapterPlan c m k = some plan ↔ ∃ marker type,
      m.capabilities.Decides marker type ∧ Text.isBlank type = false ∧
        plan = .adapterTo c m k type := by
  rw [standard_adapterPlan, Option.bind_eq_some_iff]
  constructor
  · rintro ⟨type, htype, hplan⟩
    obtain ⟨marker, hmarker⟩ := adaptedType?_eq_some.1 htype
    split_ifs at hplan with hblank
    exact ⟨marker, type, hmarker, Bool.eq_false_iff.2 hblank, (Option.some.inj hplan).symm⟩
  · rintro ⟨marker, type, hmarker, hblank, rfl⟩
    exact ⟨type, adaptedType?_eq_some.2 ⟨marker, hmarker⟩, by simp [hblank]⟩

end Weaver

section Builds

variable {s : Setting} {c : ClassModel} {rs : List (PropertyModel × Disposition)}
  {es : List (Candidate × Disposition)} {p q : Pass} {qs : List Inquiry} {set : PlanSet}

/-- A method that a standard weaver is asked about is adapted just if it is told a type that is not blank. -/
theorem PlanSet.Adapts.adapted_iff (hw : s.weaver = .standard) (h : set.Adapts s c es qs)
    {m : MethodModel} {d : Disposition} (he : (.method m, d) ∈ es) (hd : d.isAsked = true) :
    (∃ k, d = .adapter k) ↔
      ∃ marker type, m.capabilities.Decides marker type ∧ Text.isBlank type = false := by
  have hmem : (Candidate.seen s.registry (.method m), d) ∈
      qs.map fun i => (.method i.method, i.disposition s.weaver) := by
    rw [← h.dispositions]
    exact List.mem_map.2 ⟨_, List.mem_filter.2 ⟨he, hd⟩, rfl⟩
  obtain ⟨i, _, hi⟩ := List.mem_map.1 hmem
  obtain ⟨hmethod, rfl⟩ := Prod.mk.inj hi
  have hmethod : i.method = (m.resolve s.registry).deriveValidated s.registry :=
    Candidate.method.inj hmethod
  have hanswer (plan : Plan) : i.answer s.weaver = some plan ↔ ∃ marker type,
      m.capabilities.Decides marker type ∧ Text.isBlank type = false ∧
        plan = .adapterTo i.model i.method i.index type := by
    rw [Inquiry.answer, hw, Weaver.standard_adapterPlan_eq_some]
    simp only [hmethod, m.decides_seen s.registry]
  rw [Inquiry.disposition]
  cases hplan : i.answer s.weaver with
  | none =>
      refine iff_of_false (by simp) ?_
      rintro ⟨marker, type, ht, hblank⟩
      simp [(hanswer _).2 ⟨marker, type, ht, hblank, rfl⟩] at hplan
  | some plan =>
      obtain ⟨marker, type, ht, hblank, _⟩ := (hanswer plan).1 hplan
      exact iff_of_true ⟨i.index, by simp⟩ ⟨marker, type, ht, hblank⟩

end Builds

/-- The standard weaver makes an adapter of a method just if the marker that decides names a type that is
not blank, and the adapter is of that type. If no marker names a type that is not blank but those that are or
carry the adapter marker, then such a marker is what an adapter is made on the strength of. In a build, the
methods that the weaver is asked about are adapted or declined accordingly. -/
theorem adapts_to_named (r : Registry) (c : ClassModel) :
    (∀ m k plan, Weaver.standard.adapterPlan c m k = some plan ↔ ∃ marker type,
      m.capabilities.Decides marker type ∧ Text.isBlank type = false ∧
        plan = .adapterTo c m k type) ∧
    (∀ m, (∀ marker type, m.capabilities.Names marker type → Text.isBlank type = false →
        r.Carries marker Marker.adapter) →
      ∀ k plan, Weaver.standard.adapterPlan c m k = some plan → ∃ marker type,
        m.capabilities.Names marker type ∧ r.Carries marker Marker.adapter ∧
          Text.isBlank type = false ∧ plan.adaptedType = some type) ∧
    ∀ s : Setting, s.weaver = .standard → ∀ set, (build s c).result = .ok set →
      ∃ rs es, set.Tells s.strategy c rs es ∧
        (∀ m d, (.method m, d) ∈ es → d.isAsked = true → ((∃ k, d = .adapter k) ↔
          ∃ marker type, m.capabilities.Decides marker type ∧ Text.isBlank type = false)) ∧
        ∀ k plan, set.adapters[k]? = some plan → ∃ m marker type,
          methodsWith (· = .adapter k) es = [m] ∧ m.capabilities.Decides marker type ∧
            Text.isBlank type = false ∧ plan.adaptedType = some type := by
  refine ⟨fun m k plan => Weaver.standard_adapterPlan_eq_some, fun m hm k plan hplan => ?_,
    fun s hw set h => ?_⟩
  · obtain ⟨marker, type, ht, hblank, rfl⟩ := Weaver.standard_adapterPlan_eq_some.1 hplan
    exact ⟨marker, type, ht.names, hm _ _ ht.names hblank, hblank, rfl⟩
  · obtain ⟨rs, es, qs, _, _, _, _, htells, hadapts, _⟩ := asks_of_build h
    refine ⟨rs, es, htells, fun m d he hd => hadapts.adapted_iff hw he hd, fun k plan hplan => ?_⟩
    obtain ⟨m, d, hm, hmade⟩ := hadapts.made hplan
    rw [hw] at hmade
    obtain ⟨marker, type, ht, hblank, rfl⟩ := Weaver.standard_adapterPlan_eq_some.1 hmade
    exact ⟨m, marker, type, hm, (m.decides_seen s.registry).1 ht, hblank, rfl⟩

theorem adapts_to_named_of_stereotype :
    let r := Registry.new (.ofList [("Listener", ["Adapter"])])
    let m : MethodModel :=
      { name := "on", declaringType := "app.Bus"
        capabilities := (CapabilitySet.empty.withDeclaredAttribute "Listener" Marker.adaptedType
          (.of (.str "app.Sink"))).withDeclared Marker.adapter }
    let c : ClassModel := { name := "app.Bus", methods := [m] }
    Weaver.standard.adapterPlan c m 0 = some (.adapterTo c m 0 "app.Sink") ∧
      (∃ marker type, m.capabilities.Names marker type ∧ r.Carries marker Marker.adapter ∧
        Text.isBlank type = false ∧ (Plan.adapterTo c m 0 "app.Sink").adaptedType = some type) ∧
      ∃ set, (build {} c).result = .ok set ∧ set.adapters.length = 1 ∧
        ∃ rs es, set.Tells {} c rs es ∧ ∀ k plan, set.adapters[k]? = some plan →
          ∃ m marker type, methodsWith (· = .adapter k) es = [m] ∧
            m.capabilities.Decides marker type ∧ Text.isBlank type = false ∧
              plan.adaptedType = some type := by
  intro r m c
  obtain ⟨hiff, hcarries, hbuild⟩ := adapts_to_named r c
  have hplan : Weaver.standard.adapterPlan c m 0 = some (.adapterTo c m 0 "app.Sink") := rfl
  have hnames : ∀ marker type, m.capabilities.Names marker type → Text.isBlank type = false →
      r.Carries marker Marker.adapter := by
    rintro marker type (⟨a, ha, htype⟩ | ⟨a, ha, _⟩) _
    · have hmem : (marker, a) ∈ [("Adapter", StringMap.empty), ("Listener", _)] :=
        StringMap.get?_eq_some.1 ha
      rcases List.mem_pair.1 hmem with heq | heq
      · cases heq
        cases htype
      · cases heq
        exact .step (b := "Adapter") (by decide) (.refl _)
    · cases ha
  have hset : ∃ set, (build {} c).result = .ok set ∧ set.adapters.length = 1 :=
    ⟨_, rfl, rfl⟩
  obtain ⟨set, h, hlength⟩ := hset
  obtain ⟨rs, es, htells, _, hadapters⟩ := hbuild {} rfl set h
  exact ⟨hplan, hcarries m hnames 0 _ hplan, set, h, hlength, rs, es, htells, hadapters⟩

/-- A marker that has nothing to do with adapters tells the type of one. -/
theorem unrelated_marker_is_adapted_to :
    let m : MethodModel :=
      { name := "onEvent", declaringType := "app.Service"
        capabilities := (CapabilitySet.empty.withDeclared Marker.adapter).withDeclaredAttribute
          "Note" Marker.adaptedType (.of (.str "app.Sink")) }
    let c : ClassModel := { name := "app.Service", methods := [m] }
    (∀ marker type, m.capabilities.Names marker type →
        ¬Registry.empty.Carries marker Marker.adapter) ∧
      Weaver.standard.adapterPlan c m 0 = some (.adapterTo c m 0 "app.Sink") ∧
      ∃ set, (build {} c).result = .ok set ∧
        set.dispositions = [⟨.method, "app.Service#onEvent()", .adapter 0⟩] ∧
        set.adapters.map (·.adaptedType) = [some "app.Sink"] := by
  intro m c
  refine ⟨?_, rfl, _, rfl, by decide, rfl⟩
  rintro marker type (⟨a, ha, htype⟩ | ⟨a, ha, _⟩) hcarries
  · have hmem : (marker, a) ∈ [("Adapter", StringMap.empty), ("Note", _)] :=
      StringMap.get?_eq_some.1 ha
    rcases List.mem_pair.1 hmem with heq | heq
    · cases heq
      cases htype
    · cases heq
      rw [Registry.carries_iff_eq rfl] at hcarries
      exact absurd hcarries (by decide)
  · cases ha

end Wiring
