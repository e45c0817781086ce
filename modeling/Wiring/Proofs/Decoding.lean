import Mathlib.Data.List.Forall2
import Wiring.Json.Codec
import Wiring.Proofs.Trees

/-!
# What codecs keep

`Codec.Keeps` says that a value, once written, is read back as another, at any depth that its written form
fits in. Each way to make a codec has its lemma; a record is gone through field by field
(`RecordField.Fills`). What is kept is kept by the text (`Codec.Keeps.readText`), and the text tells values
apart that are read back differently (`Codec.Keeps.eq_of_compact_eq`).
-/

namespace Wiring.Json

variable {α β σ : Type}

theorem exactMembers_iff {ms : List (String × Json)} : ExactMembers ms ↔ ∀ m ∈ ms, m.2.Exact := by
  induction ms with
  | nil => simp [ExactMembers]
  | cons m ms ih => simp [ExactMembers, ih]

namespace Codec

/-- What `a` is written as is read back as `b`. -/
structure Keeps (c : Codec α) (a b : α) : Prop where
  exact : (c.write a).Exact
  read : ∀ l : Limits, (c.write a).depth < l.depth → c.read l (c.write a).tree = .ok b

section Keeps

variable {c : Codec α} {a a' b b' : α}

theorem Keeps.map_read (h : c.Keeps a b) (f : α → β) {l : Limits} (hl : (c.write a).depth < l.depth) :
    (c.read l (c.write a).tree).map f = .ok (f b) := by
  rw [h.read l hl, Except.map]

theorem Keeps.readText (h : c.Keeps a b) (hd : (c.write a).depth < ({} : Limits).depth) {text : String}
    (ht : text = (c.write a).compact ∨ text = (c.write a).pretty) : c.readText text = .ok b := by
  rw [Codec.readText, Json.readText, ofText_written h.exact ht]
  simp only [bind, Except.bind, h.read _ hd]
  rfl

/-- Values with one text are read back as one. -/
theorem Keeps.eq_of_compact_eq (h : c.Keeps a b) (h' : c.Keeps a' b')
    (ht : (c.write a).compact = (c.write a').compact) : b = b' := by
  have hdocument := ofText_written h.exact (Or.inl rfl)
  rw [ht, ofText_written h'.exact (Or.inl rfl)] at hdocument
  have htree : (c.write a').tree = (c.write a).tree := congrArg Document.root hdocument
  have hread := h.read { depth := (c.write a).depth + (c.write a').depth + 1 } (by simp only; omega)
  have hread' := h'.read { depth := (c.write a).depth + (c.write a').depth + 1 } (by simp only; omega)
  rw [htree, hread] at hread'
  exact Except.ok.inj hread'

end Keeps

/-! ## Values without fields -/

theorem keeps_string (s : String) : string.Keeps s s where
  exact := trivial
  read l _ := by
    have hread : string.read l (string.write s).tree =
        (joinParts none (s.toList.map .ofChar)).map .ofList := rfl
    rw [hread, joinParts_ofChar, Except.map, String.ofList_toList]

theorem keeps_boolean (b : Bool) : boolean.Keeps b b := ⟨trivial, fun _ _ => rfl⟩

/-- A number that is read back below a bound is kept below it. -/
theorem keeps_natural {count : Nat} {wanted : Wanted} (hcount : count ≤ word64Count) {n : Nat}
    (h : n < count) : (Codec.mk (fun n : Nat => .int n) (.natural count wanted)).Keeps n n := by
  have hfits : FitsWord n := by
    unfold FitsWord signedWordBound
    omega
  refine ⟨hfits, fun l _ => ?_⟩
  change Reader.natural count wanted l (.scalar (.numeral (.ofInt n))) = .ok n
  rw [Reader.natural, value_ofInt hfits]
  have hrange : (0 : Int) ≤ n ∧ (n : Int) < count := by omega
  simp only [hrange, and_self, if_true, Int.toNat_natCast]

theorem keeps_word32 {n : Nat} (h : n < word32Count) : word32.Keeps n n := keeps_natural (by decide) h

theorem keeps_word64 {n : Nat} (h : n < word64Count) : word64.Keeps n n :=
  keeps_natural (Nat.le_refl _) h

theorem keeps_value {v : CanonicalJson} (h : v.json.Exact) : value.Keeps v v := by
  refine ⟨h, fun l hl => ?_⟩
  have hread : value.read l (value.write v).tree = (v.json.tree.read l).map .of := rfl
  rw [hread, read_tree v.json h l hl, Except.map, of_json]

theorem keeps_cases {name : α → String} {known : List α} {a : α}
    (h : (known.map fun a => (name a, a)).lookup (name a) = some a) :
    (Codec.cases name known).Keeps a a := by
  refine ⟨trivial, fun l _ => ?_⟩
  have hread : (Codec.cases name known).read l ((Codec.cases name known).write a).tree =
      (do readName (known.map fun a => (name a, a))
            (.ofList (← joinParts none ((name a).toList.map .ofChar)))) := rfl
  rw [hread, joinParts_ofChar]
  simp only [bind, Except.bind, readName, String.ofList_toList, h]

/-! ## Lists, sets and maps -/

theorem exactItems_map {c : Codec α} {as bs : List α} (h : List.Forall₂ c.Keeps as bs) :
    ExactItems (as.map c.write) := by
  induction h with
  | nil => trivial
  | cons ha _ ih => exact ⟨ha.exact, ih⟩

theorem readItems_map {c : Codec α} {as bs : List α} (h : List.Forall₂ c.Keeps as bs) {l : Limits}
    (hl : depthItems (as.map c.write) < l.depth) :
    Reader.items c.read l (treeItems (as.map c.write)) = .ok bs := by
  induction h with
  | nil => rfl
  | @cons a b as bs ha _ ih =>
      rw [List.map_cons, depthItems] at hl
      rw [List.map_cons, treeItems, Reader.items, ha.read l (by omega), ih (by omega)]
      rfl

theorem keeps_list {c : Codec α} {as bs : List α} (h : List.Forall₂ c.Keeps as bs) :
    (list c).Keeps as bs := by
  refine ⟨exactItems_map h, fun l hl => ?_⟩
  have hdepth : depthItems (as.map c.write) + 1 < l.depth := hl
  have hread : (list c).read l ((list c).write as).tree =
      (do let bs ← Reader.items c.read (← l.enter) (treeItems (as.map c.write))
          closed none
          return bs) := rfl
  rw [hread, enter_ok hdepth]
  simp only [bind, Except.bind]
  rw [readItems_map h (by simp only; omega)]
  rfl

theorem keeps_stringSet (s : StringSet) : stringSet.Keeps s s := by
  have hlist : (list string).Keeps s.elems s.elems :=
    keeps_list (List.forall₂_same.2 fun s _ => keeps_string s)
  refine ⟨hlist.exact, fun l hl => ?_⟩
  have hread : stringSet.read l (stringSet.write s).tree =
      ((list string).read l ((list string).write s.elems).tree).map .ofList := rfl
  have helems : StringSet.ofList s.elems = s := StringSet.ext_mem fun _ => StringSet.mem_ofList
  rw [hread, hlist.read l hl, Except.map, helems]

/-- The members of a map as they are written. -/
def written (c : Codec α) (es : List (String × α)) : List (String × Json) :=
  es.map fun e => (e.1, c.write e.2)

theorem readEntries {c : Codec α} {es : List (String × α)} (h : ∀ e ∈ es, c.Keeps e.2 e.2)
    {l : Limits} (hl : depthMembers (written c es) < l.depth) (m : StringMap α) :
    Reader.entries c.read l m (treeMembers (written c es)) =
      .ok (es.foldl (fun m e => m.insert e.1 e.2) m) := by
  induction es generalizing m with
  | nil => rfl
  | cons e es ih =>
      have he := h e List.mem_cons_self
      rw [written, List.map_cons, ← written, depthMembers] at hl
      rw [written, List.map_cons, ← written, treeMembers, Reader.entries, readKey_ofString,
        he.read l (by omega)]
      exact ih (fun a ha => h a (List.mem_cons_of_mem _ ha)) (by omega) _

theorem keeps_map {c : Codec α} {m : StringMap α} (h : ∀ e ∈ m.entries, c.Keeps e.2 e.2) :
    (map c).Keeps m m := by
  refine ⟨exactMembers_iff.2 fun x hx => ?_, fun l hl => ?_⟩
  · obtain ⟨e, he, rfl⟩ := List.mem_map.1 hx
    exact (h e he).exact
  · have hdepth : depthMembers (written c m.entries) + 1 < l.depth := hl
    have hread : (map c).read l ((map c).write m).tree =
        (do let m ← Reader.entries c.read (← l.enter) .empty (treeMembers (written c m.entries))
            closed none
            return m) := rfl
    rw [hread, enter_ok hdepth]
    simp only [bind, Except.bind]
    rw [readEntries h (by simp only; omega)]
    have hentries := StringMap.ofList_entries m
    rw [StringMap.ofList] at hentries
    rw [hentries]
    rfl

/-- No value is written as null. -/
def NeverNull (c : Codec α) : Prop := ∀ a, (c.write a).tree ≠ .scalar .null

theorem neverNull_string : string.NeverNull := nofun

theorem neverNull_word64 : word64.NeverNull := nofun

theorem neverNull_record {name : String} {blank : σ} {fields : List (RecordField σ)} :
    (record name blank fields).NeverNull := nofun

theorem neverNull_tagged {name : String} {variants : List (Variant α)} :
    (tagged name variants).NeverNull := nofun

/-- A value is told from null if it is not written as null. -/
theorem keeps_optional {c : Codec α} {f : α → α} {o : Option α} (hn : c.NeverNull)
    (h : ∀ a ∈ o, c.Keeps a (f a)) : (optional c).Keeps o (o.map f) := by
  cases o with
  | none => exact ⟨trivial, fun _ _ => rfl⟩
  | some a =>
      have ha := h a rfl
      refine ⟨ha.exact, fun l hl => ?_⟩
      have hread : (optional c).read l ((optional c).write (some a)).tree =
          (c.read l (c.write a).tree).map some := Reader.optional.eq_2 _ _ _ (hn a)
      rw [hread, ha.map_read some hl, Option.map_some]

end Codec

/-! ## Records -/

namespace RecordField

/-- How the fields that are written of `s` are read onto a record, one after another. -/
inductive Fills (s : σ) : σ → List (RecordField σ) → σ → Prop
  | nil (t : σ) : Fills s t [] t
  | absent {f : RecordField σ} {fs : List (RecordField σ)} {t t' : σ} (hw : f.write s = none)
      (hm : f.mandatory = false) (rest : Fills s t fs t') : Fills s t (f :: fs) t'
  | present {f : RecordField σ} {fs : List (RecordField σ)} {t t' : σ} {j : Json} {set : σ → σ}
      (hw : f.write s = some j) (hj : j.Exact)
      (hr : ∀ l : Limits, j.depth < l.depth → f.read l j.tree = .ok set)
      (rest : Fills s (set t) fs t') : Fills s t (f :: fs) t'

theorem members_cons_of_none {f : RecordField σ} {s : σ} (h : f.write s = none)
    (fs : List (RecordField σ)) : members (f :: fs) s = members fs s := by
  simp [members, h]

theorem members_cons_of_some {f : RecordField σ} {s : σ} {j : Json} (h : f.write s = some j)
    (fs : List (RecordField σ)) : members (f :: fs) s = (f.key, j) :: members fs s := by
  simp [members, h]

theorem find?_key {f : RecordField σ} {done fs : List (RecordField σ)}
    (h : ((done ++ f :: fs).map (·.key)).Nodup) :
    (done ++ f :: fs).find? (·.key == f.key) = some f :=
  find?_key_of_nodup h (List.mem_append_right _ List.mem_cons_self)

namespace Fills

variable {s t t' : σ} {fs : List (RecordField σ)}

theorem exact (h : Fills s t fs t') : ExactMembers (members fs s) := by
  induction h with
  | nil t => trivial
  | absent hw _ _ ih => rwa [members_cons_of_none hw]
  | present hw hj _ _ ih =>
      rw [members_cons_of_some hw]
      exact ⟨hj, ih⟩

/-- The members of the fields that are left are read after those of other fields. -/
theorem readMembers (h : Fills s t fs t') (done : List (RecordField σ))
    (hk : ((done ++ fs).map (·.key)).Nodup) (seen : List String)
    (hseen : ∀ k ∈ seen, k ∈ done.map (·.key)) {l : Limits}
    (hl : depthMembers (members fs s) < l.depth) :
    ∃ seen', RecordField.readMembers (done ++ fs) l seen t (treeMembers (members fs s)) =
        .ok (seen', t') ∧
      (∀ k ∈ seen, k ∈ seen') ∧ ∀ f ∈ fs, f.mandatory = true → f.key ∈ seen' := by
  induction h generalizing done seen with
  | nil t => exact ⟨seen, rfl, fun _ hk => hk, nofun⟩
  | @absent f fs t t' hw hm _ ih =>
      rw [members_cons_of_none hw] at hl ⊢
      rw [List.append_cons] at hk ⊢
      have hdone : ∀ k ∈ seen, k ∈ (done ++ [f]).map (·.key) := fun k hks => by
        rw [List.map_append]
        exact List.mem_append_left _ (hseen k hks)
      obtain ⟨seen', hread, hsub, hmandatory⟩ := ih (done ++ [f]) hk seen hdone hl
      refine ⟨seen', hread, hsub, fun g hg hgm => ?_⟩
      rcases List.mem_cons.1 hg with rfl | hg
      · rw [hm] at hgm
        cases hgm
      · exact hmandatory g hg hgm
  | @present f fs t t' j set hw _ hr _ ih =>
      rw [members_cons_of_some hw, depthMembers] at hl
      have hunseen : seen.contains f.key = false := by
        refine eq_false_of_ne_true fun hc => ?_
        have hmem := hseen f.key (by simpa using hc)
        rw [List.map_append, List.nodup_append] at hk
        exact hk.2.2 f.key hmem f.key (by simp) rfl
      have hstep : RecordField.readMembers (done ++ f :: fs) l seen t
          (treeMembers (members (f :: fs) s)) =
            RecordField.readMembers (done ++ f :: fs) l (f.key :: seen) (set t)
              (treeMembers (members fs s)) := by
        rw [members_cons_of_some hw, treeMembers, RecordField.readMembers, readKey_ofString]
        simp only [bind, Except.bind, find?_key hk, hunseen, Bool.false_eq_true, if_false,
          hr l (by omega)]
      rw [List.append_cons] at hk
      have hdone : ∀ k ∈ f.key :: seen, k ∈ (done ++ [f]).map (·.key) := fun k hks => by
        rw [List.map_append]
        rcases List.mem_cons.1 hks with rfl | hks
        · simp
        · exact List.mem_append_left _ (hseen k hks)
      obtain ⟨seen', hread, hsub, hmandatory⟩ := ih (done ++ [f]) hk (f.key :: seen) hdone (by omega)
      rw [hstep, List.append_cons, hread]
      refine ⟨seen', rfl, fun k hks => hsub k (List.mem_cons_of_mem _ hks), fun g hg hgm => ?_⟩
      rcases List.mem_cons.1 hg with rfl | hg
      · exact hsub _ List.mem_cons_self
      · exact hmandatory g hg hgm

theorem readObject (h : Fills s t fs t') (hk : (fs.map (·.key)).Nodup) {l : Limits}
    (hl : depthMembers (members fs s) < l.depth) :
    RecordField.readObject fs t l (treeMembers (members fs s)) none = .ok t' := by
  obtain ⟨seen, hread, _, hmandatory⟩ := h.readMembers [] hk [] nofun hl
  rw [List.nil_append] at hread
  have hmissing : firstMissing fs seen = none := by
    rw [firstMissing, List.find?_eq_none]
    intro f hf hm
    rw [Bool.and_eq_true] at hm
    simp [hmandatory f hf hm.1] at hm
  rw [RecordField.readObject, hread]
  simp only [bind, Except.bind, closed, hmissing]

/-! ### Kinds of fields -/

variable {key : String} {c : Codec α} {get : σ → α} {set : α → σ → σ} {b : α}

theorem required (h : c.Keeps (get s) b) (rest : Fills s (set b t) fs t') :
    Fills s t (.required key c get set :: fs) t' :=
  .present rfl h.exact (fun _ hl => h.map_read set hl) rest

theorem defaulted (h : c.Keeps (get s) b) (rest : Fills s (set b t) fs t') :
    Fills s t (.defaulted key c get set :: fs) t' :=
  .present rfl h.exact (fun _ hl => h.map_read set hl) rest

/-- A field that is left out is blank on the record that is filled. -/
theorem unlessBlank {blank : α → Bool} {x : α} (ht : set x t = t)
    (hb : blank (get s) = true → b = x) (h : c.Keeps (get s) b)
    (rest : Fills s (set b t) fs t') : Fills s t (.unlessBlank key c blank get set :: fs) t' := by
  cases hblank : blank (get s) with
  | true =>
      rw [hb hblank, ht] at rest
      exact .absent (by simp [RecordField.unlessBlank, hblank]) rfl rest
  | false =>
      exact .present (by simp [RecordField.unlessBlank, hblank]) h.exact
        (fun _ hl => h.map_read set hl) rest

theorem listed {get : σ → List α} {set : List α → σ → σ} (ht : set [] t = t)
    (h : ∀ a ∈ get s, c.Keeps a a) (rest : Fills s (set (get s) t) fs t') :
    Fills s t (.unlessBlank key (.list c) (·.isEmpty) get set :: fs) t' := by
  exact .unlessBlank ht List.isEmpty_iff.1 (Codec.keeps_list (List.forall₂_same.2 h)) rest

theorem optional {get : σ → Option α} {set : Option α → σ → σ} (ht : set none t = t)
    (hn : c.NeverNull) (h : ∀ a ∈ get s, c.Keeps a a)
    (rest : Fills s (set (get s) t) fs t') : Fills s t (.optional key c get set :: fs) t' := by
  have hkeeps := Codec.keeps_optional (f := id) hn h
  rw [Option.map_id, id] at hkeeps
  exact .unlessBlank ht Option.isNone_iff_eq_none.1 hkeeps rest

end Fills

end RecordField

theorem Codec.keeps_record {name : String} {blank s t : σ} {fields : List (RecordField σ)}
    (hk : (fields.map (·.key)).Nodup) (h : RecordField.Fills s blank fields t) :
    (record name blank fields).Keeps s t := by
  refine ⟨h.exact, fun l hl => ?_⟩
  have hdepth : depthMembers (RecordField.members fields s) + 1 < l.depth := hl
  have hread : (record name blank fields).read l ((record name blank fields).write s).tree =
      (do RecordField.readObject fields blank (← l.enter)
            (treeMembers (RecordField.members fields s)) none) := rfl
  rw [hread, enter_ok hdepth]
  simp only [bind, Except.bind]
  exact h.readObject hk (by simp only; omega)

/-! ## Cases -/

namespace Codec

theorem readTagged_members {known : List (String × Variant α)} {l : Limits} {v : Variant α}
    {ms : List (String × Json)} (hk : ∀ m ∈ ms, m.1 ≠ tagKey) (hj : ExactMembers ms)
    (hl : depthMembers ms < l.depth) :
    readTagged known l (some v) (treeMembers ms) = .ok (some v, treeMembers ms) := by
  induction ms with
  | nil => rfl
  | cons m ms ih =>
      obtain ⟨k, j⟩ := m
      rw [depthMembers] at hl
      have hkey : ¬k = tagKey := hk (k, j) List.mem_cons_self
      rw [treeMembers, readTagged, readKey_ofString]
      simp only [bind, Except.bind, hkey, if_false, read_tree j hj.1 l (by omega),
        ih (fun m hm => hk m (List.mem_cons_of_mem _ hm)) hj.2 (by omega)]
      rfl

variable {name : String} {variants : List (Variant α)} {v : Variant α} {a b : α}

/-- A case is kept if its members are, once its tag is known. -/
theorem keeps_tagged {ms : List (String × Json)}
    (hw : (tagged name variants).write a = .obj ((tagKey, .str v.tag) :: ms))
    (hv : (variants.map fun v => (v.tag, v)).lookup v.tag = some v)
    (hk : ∀ m ∈ ms, m.1 ≠ tagKey) (hj : ExactMembers ms)
    (hr : ∀ l : Limits, depthMembers ms < l.depth → v.readMembers l (treeMembers ms) = .ok b) :
    (tagged name variants).Keeps a b := by
  refine ⟨hw ▸ ⟨trivial, hj⟩, fun l hl => ?_⟩
  rw [hw] at hl ⊢
  have hdepth : max 0 (depthMembers ms) + 1 < l.depth := hl
  have htree : (Json.obj ((tagKey, .str v.tag) :: ms)).tree =
      .object ((.scalar (.ofString tagKey), .scalar (.ofString v.tag)) :: treeMembers ms) none := rfl
  have hvariant : readVariant (variants.map fun v => (v.tag, v)) (.scalar (.ofString v.tag)) =
      .ok v := by
    rw [Scalar.ofString, readVariant, joinParts_ofChar]
    simp only [bind, Except.bind, readName, String.ofList_toList, hv]
  rw [htree, tagged]
  simp only [enter_ok hdepth, bind, Except.bind, readTagged, readKey_ofString, if_true,
    Option.isSome_none, Bool.false_eq_true, if_false, hvariant]
  rw [readTagged_members hk hj (by simp only; omega)]
  exact hr _ (by simp only; omega)

theorem keeps_constant (tag : String) {is : α → Bool}
    (hv : (variants.map fun v => (v.tag, v)).lookup tag = some (.constant tag a is))
    (hw : (tagged name variants).write a = .obj [(tagKey, .str tag)]) :
    (tagged name variants).Keeps a a :=
  keeps_tagged (v := .constant tag a is) hw hv nofun trivial fun _ _ => rfl

theorem keeps_fields (tag : String) {label : String} {blank s t : σ} {fields : List (RecordField σ)}
    {wrap : σ → α} {unwrap : α → Option σ}
    (hv : (variants.map fun v => (v.tag, v)).lookup tag =
      some (.fields tag label blank fields wrap unwrap))
    (hw : (tagged name variants).write a =
      .obj ((tagKey, .str tag) :: RecordField.members fields s))
    (hk : (tagKey :: fields.map (·.key)).Nodup) (h : RecordField.Fills s blank fields t)
    (hb : wrap t = b) : (tagged name variants).Keeps a b := by
  obtain ⟨htag, hkeys⟩ := List.nodup_cons.1 hk
  refine keeps_tagged (v := .fields tag label blank fields wrap unwrap) hw hv (fun m hm => ?_)
    h.exact fun l hl => ?_
  · obtain ⟨f, hf, hfm⟩ := List.mem_filterMap.1 hm
    obtain ⟨j, _, rfl⟩ := Option.map_eq_some_iff.1 hfm
    exact fun hkey => htag (hkey ▸ List.mem_map_of_mem hf)
  · have hread := h.readObject hkeys hl
    exact hb ▸ congrArg (Except.map wrap) hread

end Codec

/-! ## Depths -/

theorem depthItems_le {js : List Json} {n : Nat} (h : ∀ j ∈ js, j.depth ≤ n) : depthItems js ≤ n := by
  induction js with
  | nil => exact Nat.zero_le n
  | cons j js ih =>
      exact Nat.max_le.2 ⟨h j List.mem_cons_self, ih fun x hx => h x (List.mem_cons_of_mem _ hx)⟩

theorem depthMembers_le {ms : List (String × Json)} {n : Nat} (h : ∀ m ∈ ms, m.2.depth ≤ n) :
    depthMembers ms ≤ n := by
  induction ms with
  | nil => exact Nat.zero_le n
  | cons m ms ih =>
      exact Nat.max_le.2 ⟨h m List.mem_cons_self, ih fun x hx => h x (List.mem_cons_of_mem _ hx)⟩

/-- Whatever is written has at most `n` containers within each other. -/
def Codec.Within (c : Codec α) (n : Nat) : Prop := ∀ a, (c.write a).depth ≤ n

/-- The values of the fields have at most `n` containers within each other. -/
def RecordField.Within (fields : List (RecordField σ)) (n : Nat) : Prop :=
  ∀ s, depthMembers (members fields s) ≤ n

namespace RecordField.Within

variable {key : String} {c : Codec α} {get : σ → α} {set : α → σ → σ} {n : Nat}
  {fields : List (RecordField σ)}

theorem nil : Within ([] : List (RecordField σ)) n := fun _ => Nat.zero_le n

theorem required (h : c.Within n) (rest : Within fields n) :
    Within (.required key c get set :: fields) n :=
  fun s => Nat.max_le.2 ⟨h (get s), rest s⟩

theorem defaulted (h : c.Within n) (rest : Within fields n) :
    Within (.defaulted key c get set :: fields) n :=
  fun s => Nat.max_le.2 ⟨h (get s), rest s⟩

theorem unlessBlank {blank : α → Bool} (h : c.Within n) (rest : Within fields n) :
    Within (.unlessBlank key c blank get set :: fields) n := by
  intro s
  cases hblank : blank (get s) with
  | true =>
      rw [members_cons_of_none (by simp [RecordField.unlessBlank, hblank])]
      exact rest s
  | false =>
      rw [members_cons_of_some (j := c.write (get s)) (by simp [RecordField.unlessBlank, hblank])]
      exact Nat.max_le.2 ⟨h (get s), rest s⟩

end RecordField.Within

namespace Codec

/-- The values of the members of every case have at most `n` containers within each other. -/
def Variant.Within (variants : List (Variant α)) (n : Nat) : Prop :=
  ∀ v ∈ variants, ∀ a, ∀ ms ∈ v.write a, depthMembers ms ≤ n

namespace Variant.Within

variable {tag : String} {variants : List (Variant α)} {n : Nat}

theorem nil : Within ([] : List (Variant α)) n := List.forall_mem_nil _

theorem constant {b : α} {is : α → Bool} (rest : Within variants n) :
    Within (.constant tag b is :: variants) n := by
  refine List.forall_mem_cons.2 ⟨fun a ms hms => ?_, rest⟩
  obtain ⟨_, rfl⟩ : is a = true ∧ [] = ms := by simpa [Variant.constant] using hms
  exact Nat.zero_le n

theorem fields {label : String} {blank : σ} {fields : List (RecordField σ)} {wrap : σ → α}
    {unwrap : α → Option σ} (h : RecordField.Within fields n) (rest : Within variants n) :
    Within (.fields tag label blank fields wrap unwrap :: variants) n := by
  refine List.forall_mem_cons.2 ⟨fun a ms hms => ?_, rest⟩
  obtain ⟨s, _, rfl⟩ := Option.map_eq_some_iff.1 hms
  exact h s

end Variant.Within

variable {c : Codec α} {n : Nat}

theorem within_string : string.Within n := fun _ => Nat.zero_le n

theorem within_boolean : boolean.Within n := fun _ => Nat.zero_le n

theorem within_word32 : word32.Within n := fun _ => Nat.zero_le n

theorem within_word64 : word64.Within n := fun _ => Nat.zero_le n

theorem within_cases (name : α → String) (known : List α) : (Codec.cases name known).Within n :=
  fun _ => Nat.zero_le n

theorem within_list (h : c.Within n) : (list c).Within (n + 1) := by
  intro as
  refine Nat.succ_le_succ (depthItems_le fun j hj => ?_)
  obtain ⟨a, _, rfl⟩ := List.mem_map.1 hj
  exact h a

theorem within_stringSet : stringSet.Within (n + 1) := fun s => within_list within_string s.elems

theorem within_map (h : c.Within n) : (map c).Within (n + 1) := by
  intro m
  refine Nat.succ_le_succ (depthMembers_le fun x hx => ?_)
  obtain ⟨e, _, rfl⟩ := List.mem_map.1 hx
  exact h e.2

theorem within_optional (h : c.Within n) : (optional c).Within n := by
  intro o
  cases o with
  | none => exact Nat.zero_le n
  | some a => exact h a

theorem within_record {name : String} {blank : σ} {fields : List (RecordField σ)}
    (h : RecordField.Within fields n) : (record name blank fields).Within (n + 1) :=
  fun s => Nat.succ_le_succ (h s)

theorem within_tagged {name : String} {variants : List (Variant α)}
    (h : Variant.Within variants n) : (tagged name variants).Within (n + 1) := by
  intro a
  refine Nat.succ_le_succ ?_
  cases hv : variants.findSome? fun v =>
      (v.write a).map fun ms => (tagKey, Json.str v.tag) :: ms with
  | none => exact Nat.zero_le n
  | some ms =>
      obtain ⟨v, hmem, hw⟩ := List.exists_of_findSome?_eq_some hv
      obtain ⟨ms, hms, rfl⟩ := Option.map_eq_some_iff.1 hw
      exact Nat.max_le.2 ⟨Nat.zero_le n, h v hmem a ms hms⟩

end Codec

end Wiring.Json
