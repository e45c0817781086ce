import Wiring.Proofs.ClassFiles
import Wiring.Proofs.Reports

/-!
# Fingerprints

As long as no texts collide, the fingerprints of two classes are the same exactly if the classes are, caches
apart (`ClassModel.fingerprint_eq_iff`). A report gives the fingerprint of its class as it was loaded, and
not that of the class as its build leaves it behind (`fingerprints_identify`).
-/

namespace Wiring

/-! ## Digests -/

namespace Sha256

/-- The digests of two texts differ if the texts do. -/
def Separates (a b : String) : Prop := digest a.toUTF8.toList = digest b.toUTF8.toList → a = b

theorem digitChar_inj : ∀ n < 16, ∀ m < 16, Nat.digitChar n = Nat.digitChar m → n = m := by decide

theorem hexByte_inj {a b : UInt8} (h : hexByte a = hexByte b) : a = b := by
  simp only [hexByte, List.cons.injEq, and_true] at h
  have ha := a.toNat_lt
  have hb := b.toNat_lt
  have hhigh : a.toNat / 16 = b.toNat / 16 := digitChar_inj _ (by omega) _ (by omega) h.1
  have hlow : a.toNat % 16 = b.toNat % 16 := digitChar_inj _ (by omega) _ (by omega) h.2
  exact UInt8.toNat_inj.1 (by omega)

theorem flatMap_hexByte_inj {as bs : List UInt8} (h : as.flatMap hexByte = bs.flatMap hexByte) :
    as = bs := by
  induction as generalizing bs with
  | nil =>
      cases bs with
      | nil => rfl
      | cons b bs => cases h
  | cons a as ih =>
      cases bs with
      | nil => cases h
      | cons b bs =>
          obtain ⟨hbyte, hrest⟩ := List.append_inj h rfl
          rw [hexByte_inj hbyte, ih hrest]

theorem hexOf_eq_iff {a b : String} (h : Separates a b) : hexOf a = hexOf b ↔ a = b := by
  constructor
  · intro hhex
    exact h (flatMap_hexByte_inj (String.ofList_injective hhex))
  · rintro rfl
    rfl

end Sha256

/-- Classes whose texts do not collide have one fingerprint exactly if they are the same, caches apart. -/
theorem ClassModel.fingerprint_eq_iff {c d : ClassModel} (hc : c.DoubleFree) (hd : d.DoubleFree)
    (h : Sha256.Separates c.text d.text) : c.fingerprint = d.fingerprint ↔ c.uncached = d.uncached :=
  (Sha256.hexOf_eq_iff h).trans (ClassModel.text_eq_iff hc hd)

/-! ## The class that is left behind -/

/-- Marks have no attributes. -/
theorem CapabilitySet.DoubleFree.addDerived {c : CapabilitySet} (h : c.DoubleFree) (marker : String)
    (r : Registry) : (c.addDerived marker r).DoubleFree := by
  have hlayer : ∀ a ∈ (mark c.declared marker).values, a = .empty ∨ a ∈ c.declared.values := by
    cases hm : c.declared.contains marker with
    | true => rw [mark_eq_self hm]; exact fun a ha => Or.inr ha
    | false => rw [mark_eq_insert hm]; exact fun a ha => StringMap.mem_values_insert ha
  intro v hv
  obtain ⟨a, ha, hva⟩ := List.mem_flatMap.1 hv
  rcases List.mem_append.1 ha with ha | ha
  · rcases hlayer a ha with rfl | ha
    · cases hva
    · exact h v (List.mem_flatMap.2 ⟨a, List.mem_append_left _ ha, hva⟩)
  · exact h v (List.mem_flatMap.2 ⟨a, List.mem_append_right _ ha, hva⟩)

theorem MethodModel.Marked.doubleFree {r : Registry} {m m' : MethodModel} (h : m.Marked r m')
    (hm : ∀ x ∈ m.capabilitySets, x.DoubleFree) : ∀ x ∈ m'.capabilitySets, x.DoubleFree := by
  have hresolved : ∀ x ∈ (m.resolve r).capabilitySets, x.DoubleFree := by
    rw [m.resolve_eq_mapSets, m.capabilitySets_mapSets]
    exact List.forall_mem_map.2 hm
  rcases h with rfl | rfl
  · exact hresolved
  · obtain ⟨hown, hparameters⟩ := List.forall_mem_cons.1 hresolved
    exact List.forall_mem_cons.2 ⟨hown.addDerived _ _, hparameters⟩

theorem doubleFree_of_marked {r : Registry} {l ms : List MethodModel}
    (h : List.Forall₂ (MethodModel.Marked r) l ms)
    (hl : ∀ m ∈ l, ∀ x ∈ m.capabilitySets, x.DoubleFree) :
    ∀ m ∈ ms, ∀ x ∈ m.capabilitySets, x.DoubleFree := by
  induction h with
  | nil => exact List.forall_mem_nil _
  | cons hm _ ih =>
      obtain ⟨hfirst, hrest⟩ := List.forall_mem_cons.1 hl
      exact List.forall_mem_cons.2 ⟨hm.doubleFree hfirst, ih hrest⟩

theorem ClassModel.Marked.doubleFree {r : Registry} {c c' : ClassModel} (h : c.Marked r c')
    (hc : c.DoubleFree) : c'.DoubleFree := by
  have hresolved : ∀ x ∈ (c.resolve r).capabilitySets, x.DoubleFree := by
    rw [c.resolve_eq_mapSets, c.capabilitySets_mapSets]
    exact List.forall_mem_map.2 hc
  have hmethods : ∀ m ∈ c'.methods, ∀ x ∈ m.capabilitySets, x.DoubleFree := by
    refine doubleFree_of_marked h.methods fun m hm x hx => hc x ?_
    simp only [capabilitySets, List.mem_cons, List.mem_append, List.mem_flatMap]
    exact Or.inr (Or.inl (Or.inl (Or.inr ⟨m, hm, hx⟩)))
  rw [h.rest]
  simp only [ClassModel.DoubleFree, capabilitySets, List.forall_mem_cons, List.forall_mem_append,
    List.mem_flatMap, forall_exists_index, and_imp] at hresolved ⊢
  obtain ⟨hown, ⟨⟨hfront, _⟩, hproperties⟩, hsupertypes⟩ := hresolved
  exact ⟨hown, ⟨⟨hfront, fun x m hm => hmethods m hm x⟩, hproperties⟩, hsupertypes⟩

/-! ## Reports -/

/-- A report gives the fingerprint of a class as it was loaded. That is the fingerprint of what is left of
the class just if only caches have changed. -/
structure ClassReport.Identifies (s : Settings) (x : Subject) (r : ClassReport) : Prop where
  loaded : r.inputSha256 = x.model.fingerprint
  left : x.model.DoubleFree → Sha256.Separates x.model.text (s.classify x).model.text →
    (r.inputSha256 = (s.classify x).model.fingerprint ↔
      x.model.uncached = (s.classify x).model.uncached)

/-- The classes that a run goes over, each with its report. -/
def Settings.reported (s : Settings) (tool : ToolInfo) (time : RunInfo) (batches : List LoadedBatch) :
    List (Subject × ClassReport) :=
  (batches.flatMap (·.subjects s)).zip (s.run tool time batches).report.classes

theorem Settings.identifies_of_loaded {s : Settings} {x : Subject} {r : ClassReport}
    (h : r.inputSha256 = x.model.fingerprint) : r.Identifies s x := by
  refine ⟨h, fun hx hseparates => ?_⟩
  have hmarked : x.model.Marked x.registry (s.classify x).model :=
    ClassModel.Marked.left { strategy := s.strategyFor x, registry := x.registry } x.model
  rw [h]
  exact ClassModel.fingerprint_eq_iff hx (hmarked.doubleFree hx) hseparates

theorem Settings.forall₂_identifies (s : Settings) (tool : ToolInfo) (time : RunInfo)
    (batches : List LoadedBatch) :
    List.Forall₂ (fun x r => r.Identifies s x) (batches.flatMap (·.subjects s))
      (s.run tool time batches).report.classes := by
  have hsubjects : (batches.flatMap (·.subjects s)).map (·.model) =
      batches.flatMap (·.batch.classes) := by
    simp [List.map_flatMap, LoadedBatch.subjects, Function.comp_def]
  have hfingerprints := (s.ledger_agrees batches).fingerprints
  rw [← hsubjects, List.map_map, ← List.forall₂_eq_eq_eq, List.forall₂_map_left_iff,
    List.forall₂_map_right_iff] at hfingerprints
  exact hfingerprints.flip.imp fun _ _ h => identifies_of_loaded h

/-- Class files without doubles and not too deep are read back as they were written, nothing being cached.
Hence, as long as no texts collide, the reports of two classes, of one run or of two, have one fingerprint
exactly if the classes are the same, caches apart. Whatever becomes of a class, its report gives the
fingerprint of the class as it was loaded. -/
theorem fingerprints_identify :
    (∀ b : ClassBatch, b.DoubleFree → (ClassBatch.codec.write b).depth < 128 →
      ∀ text, text = (ClassBatch.codec.write b).compact ∨ text = (ClassBatch.codec.write b).pretty →
        ClassBatch.codec.readText text = .ok b.uncached) ∧
    (∀ (s : Settings) (tool : ToolInfo) (time : RunInfo) (batches : List LoadedBatch),
      List.Forall₂ (fun x r => r.Identifies s x) (batches.flatMap (·.subjects s))
        (s.run tool time batches).report.classes) ∧
    ∀ (s s' : Settings) (tool tool' : ToolInfo) (time time' : RunInfo)
      (batches batches' : List LoadedBatch),
      ∀ x ∈ s.reported tool time batches, ∀ y ∈ s'.reported tool' time' batches',
        x.1.model.DoubleFree → y.1.model.DoubleFree →
        Sha256.Separates x.1.model.text y.1.model.text →
          (x.2.inputSha256 = y.2.inputSha256 ↔ x.1.model.uncached = y.1.model.uncached) := by
  refine ⟨fun b hb hd text ht => ClassBatch.readText_write hb hd ht,
    fun s tool time batches => s.forall₂_identifies tool time batches, ?_⟩
  intro s s' tool tool' time time' batches batches' x hx y hy hxfree hyfree hseparates
  have hloaded {s : Settings} {tool : ToolInfo} {time : RunInfo} {batches : List LoadedBatch}
      {x : Subject × ClassReport} (hx : x ∈ s.reported tool time batches) :
      x.2.inputSha256 = x.1.model.fingerprint :=
    ((List.forall₂_iff_zip.1 (s.forall₂_identifies tool time batches)).2 hx).loaded
  rw [hloaded hx, hloaded hy]
  exact ClassModel.fingerprint_eq_iff hxfree hyfree hseparates

theorem fingerprints_identify_of_stale_cache :
    let attributed : CapabilitySet :=
      CapabilitySet.empty.withDeclaredAttribute Marker.executable "depth" (.of (.int 3))
    let needy : CapabilitySet := CapabilitySet.empty.withDeclared Marker.requiresValidation
    let c : ClassModel := { name := "app.Service", capabilities := attributed }
    let stale : ClassModel :=
      { c with capabilities := { attributed with resolved := some ⟨.empty, .empty⟩ } }
    let checked : ClassModel :=
      { name := "app.Checked"
        methods := [{ name := "check", declaringType := "app.Base", capabilities := needy }] }
    let other : ClassModel := { name := "app.Other" }
    let b : ClassBatch := { classes := [c, stale, checked, other] }
    let left (c : ClassModel) : ClassModel := (({} : Settings).classify ⟨Registry.new .empty, c⟩).model
    ClassBatch.codec.readText (ClassBatch.codec.write b).pretty = .ok b.uncached ∧
      checked.uncached ≠ (left checked).uncached ∧
      ∃ r r' r'' d, (({} : Settings).run {} {} [⟨"", b⟩]).report.classes = [r, r', r'', d] ∧
        r.inputSha256 = r'.inputSha256 ∧ r'.inputSha256 = (left stale).fingerprint ∧
        r''.inputSha256 = checked.fingerprint ∧ r.inputSha256 ≠ d.inputSha256 := by
  intro attributed needy c stale checked other b left
  have hc : c.DoubleFree :=
    List.forall_mem_cons.2 ⟨List.forall_mem_cons.2 ⟨trivial, nofun⟩, nofun⟩
  have hstale : stale.DoubleFree :=
    List.forall_mem_cons.2 ⟨List.forall_mem_cons.2 ⟨trivial, nofun⟩, nofun⟩
  have hchecked : checked.DoubleFree :=
    List.forall_mem_cons.2 ⟨nofun, List.forall_mem_cons.2 ⟨nofun, nofun⟩⟩
  have hother : other.DoubleFree := List.forall_mem_cons.2 ⟨nofun, nofun⟩
  have hb : b.DoubleFree :=
    List.forall_mem_cons.2 ⟨hc, List.forall_mem_cons.2 ⟨hstale,
      List.forall_mem_cons.2 ⟨hchecked, List.forall_mem_cons.2 ⟨hother, nofun⟩⟩⟩⟩
  have hchanged : checked.uncached ≠ (left checked).uncached := fun h =>
    absurd (congrArg (fun c : ClassModel => c.methods.map (·.capabilities.declared.keys)) h) (by decide)
  obtain ⟨hread, hidentifies, hsame⟩ := fingerprints_identify
  have hreports := hidentifies {} {} {} [⟨"", b⟩]
  have hsubjects : [LoadedBatch.mk "" b].flatMap (·.subjects {}) =
      [⟨Registry.new .empty, c⟩, ⟨Registry.new .empty, stale⟩, ⟨Registry.new .empty, checked⟩,
        ⟨Registry.new .empty, other⟩] := rfl
  rw [hsubjects] at hreports
  obtain ⟨r, _, hr, hrest, hclasses⟩ := List.forall₂_cons_left_iff.1 hreports
  obtain ⟨r', _, hr', hrest', rfl⟩ := List.forall₂_cons_left_iff.1 hrest
  obtain ⟨r'', _, hr'', hrest'', rfl⟩ := List.forall₂_cons_left_iff.1 hrest'
  obtain ⟨d, _, _, hnil, rfl⟩ := List.forall₂_cons_left_iff.1 hrest''
  obtain rfl := List.forall₂_nil_left_iff.1 hnil
  have hreported : ({} : Settings).reported {} {} [⟨"", b⟩] =
      [(⟨Registry.new .empty, c⟩, r), (⟨Registry.new .empty, stale⟩, r'),
        (⟨Registry.new .empty, checked⟩, r''), (⟨Registry.new .empty, other⟩, d)] := by
    rw [Settings.reported, hsubjects, hclasses]
    rfl
  obtain ⟨hfirst, hsecond, hlast⟩ :
      (⟨Registry.new .empty, c⟩, r) ∈ ({} : Settings).reported {} {} [⟨"", b⟩] ∧
        (⟨Registry.new .empty, stale⟩, r') ∈ ({} : Settings).reported {} {} [⟨"", b⟩] ∧
        (⟨Registry.new .empty, other⟩, d) ∈ ({} : Settings).reported {} {} [⟨"", b⟩] := by
    rw [hreported]
    exact ⟨.head _, .tail _ (.head _), .tail _ (.tail _ (.tail _ (.head _)))⟩
  have hstill : stale.uncached = (left stale).uncached := rfl
  have hleft : stale.text = (left stale).text := by
    rw [← stale.text_uncached, hstill, (left stale).text_uncached]
  have hsimilar : c.text = stale.text := (ClassModel.text_eq_iff hc hstale).2 rfl
  have hdigests : (Sha256.digest c.text.toUTF8.toList).head? ≠
      (Sha256.digest other.text.toUTF8.toList).head? := by
    decide +kernel
  have hapart : Sha256.Separates c.text other.text := fun h => (hdigests (congrArg List.head? h)).elim
  have hnames : c.uncached ≠ other.uncached := fun h => absurd (congrArg ClassModel.name h) (by decide)
  refine ⟨hread b hb (by decide) _ (Or.inr rfl), hchanged, r, r', r'', d, hclasses, ?_, ?_, hr''.loaded, ?_⟩
  · exact (hsame _ _ _ _ _ _ _ _ _ hfirst _ hsecond hc hstale fun _ => hsimilar).2 rfl
  · exact (hr'.left hstale fun _ => hleft).2 hstill
  · exact fun h => hnames ((hsame _ _ _ _ _ _ _ _ _ hfirst _ hlast hc hother hapart).1 h)

end Wiring
