import Wiring.StringMap

/-!
# Membership and lookup

What the operations on string sets and string maps do to membership and to lookup. Two sets with the
same members are equal.
-/

namespace Wiring

/-! ## Sets -/

namespace StringSet

theorem not_mem_empty {x : String} : x ∉ StringSet.empty := by simp [mem_def, empty]

theorem eq_empty_of_isEmpty {s : StringSet} (h : s.isEmpty = true) : s = .empty := by
  obtain ⟨l, hl⟩ := s
  obtain rfl : l = [] := List.isEmpty_iff.1 h
  rfl

@[simp] theorem contains_iff {x : String} {s : StringSet} : s.contains x = true ↔ x ∈ s := by
  simp [contains, mem_def]

@[simp] theorem mem_insertAll {x : String} {s : StringSet} {l : List String} :
    x ∈ s.insertAll l ↔ x ∈ s ∨ x ∈ l := by
  unfold insertAll
  induction l generalizing s with
  | nil => simp
  | cons a l ih =>
      rw [List.foldl_cons, ih, mem_insert, List.mem_cons]
      grind

@[simp] theorem mem_union {x : String} {s t : StringSet} : x ∈ s.union t ↔ x ∈ s ∨ x ∈ t := by
  rw [union, mem_insertAll, mem_def (s := t)]

theorem ext_mem {s t : StringSet} (h : ∀ x, x ∈ s ↔ x ∈ t) : s = t := by
  obtain ⟨l, hl⟩ := s
  obtain ⟨k, hk⟩ := t
  have hp : l.Perm k :=
    (List.perm_ext_iff_of_nodup (hl.imp String.ne_of_lt) (hk.imp String.ne_of_lt)).2 h
  have hlk : l = k :=
    hp.eq_of_pairwise (fun _ _ _ _ hab hba => absurd hab (String.lt_asymm hba)) hl hk
  subst hlk
  rfl

@[simp] theorem union_empty (s : StringSet) : s.union .empty = s := rfl

@[simp] theorem empty_union (s : StringSet) : StringSet.empty.union s = s :=
  ext_mem fun x => by simp [not_mem_empty]

@[simp] theorem mem_ofList {x : String} {l : List String} : x ∈ ofList l ↔ x ∈ l := by
  simp [ofList, not_mem_empty]

theorem ofList_append (l k : List String) : ofList (l ++ k) = (ofList l).union (ofList k) :=
  ext_mem fun x => by simp

theorem union_singleton (s : StringSet) (x : String) : s.union (.ofList [x]) = s.insert x := rfl

theorem union_assoc (s t u : StringSet) : (s.union t).union u = s.union (t.union u) :=
  ext_mem fun x => by simp [or_assoc]

end StringSet

/-! ## Maps -/

namespace StringMap

variable {α β : Type}

theorem eq_empty_of_isEmpty {m : StringMap α} (h : m.isEmpty = true) : m = .empty :=
  StringMap.ext (List.isEmpty_iff.1 h)

theorem lookup_cons_of_ne {k a : String} (h : k ≠ a) (v : α) (es : List (String × α)) :
    ((a, v) :: es).lookup k = es.lookup k := by
  rw [List.lookup_cons, beq_eq_false_iff_ne.2 h]

theorem lookup_eq_none_of_lt {k : String} {es : List (String × α)}
    (h : es.Pairwise fun a b => a.1 < b.1) (hk : ∀ e ∈ es.head?, k < e.1) : es.lookup k = none := by
  rw [List.lookup_eq_none_iff]
  intro p hp
  cases es with
  | nil => cases hp
  | cons e es =>
      have hlt := (List.pairwise_cons.1 h).1
      have hke : k < e.1 := hk e rfl
      rcases List.mem_cons.1 hp with rfl | hp
      · simpa using String.ne_of_lt hke
      · simpa using String.ne_of_lt (String.lt_trans hke (hlt p hp))

theorem lookup_alterEntries (k k' : String) (f : Option α → α) {es : List (String × α)}
    (h : es.Pairwise fun a b => a.1 < b.1) :
    (alterEntries k f es).lookup k' = if k' = k then some (f (es.lookup k)) else es.lookup k' := by
  induction es with
  | nil =>
      by_cases hk : k' = k
      · simp [alterEntries, hk]
      · simp [alterEntries, hk, lookup_cons_of_ne]
  | cons e es ih =>
      obtain ⟨a, v⟩ := e
      have ih := ih (List.pairwise_cons.1 h).2
      unfold alterEntries
      split
      · rename_i hka
        have hnone : ((a, v) :: es).lookup k = none :=
          lookup_eq_none_of_lt h (by simpa using hka)
        by_cases hk : k' = k
        · subst hk; simp [hnone]
        · rw [lookup_cons_of_ne hk, if_neg hk]
      · split
        · rename_i hka
          have hka : k = a := hka
          subst hka
          by_cases hk : k' = k
          · subst hk; simp
          · rw [lookup_cons_of_ne hk, lookup_cons_of_ne hk, if_neg hk]
        · rename_i hka
          by_cases ha : k' = a
          · subst ha
            have hk : k' ≠ k := fun hk => hka hk.symm
            simp [hk]
          · rw [lookup_cons_of_ne ha, ih, lookup_cons_of_ne hka, lookup_cons_of_ne ha]

theorem get?_alter (m : StringMap α) (k k' : String) (f : Option α → α) :
    (m.alter k f).get? k' = if k' = k then some (f (m.get? k)) else m.get? k' :=
  lookup_alterEntries k k' f m.ascending

theorem contains_eq_isSome (m : StringMap α) (k : String) : m.contains k = (m.get? k).isSome := by
  unfold contains get?
  induction m.entries with
  | nil => rfl
  | cons e es ih =>
      obtain ⟨a, v⟩ := e
      by_cases hk : k = a
      · simp [hk]
      · simp [lookup_cons_of_ne hk, Ne.symm hk, ih]

theorem mem_keys {m : StringMap α} {k : String} : k ∈ m.keys ↔ m.contains k = true := by
  simp [keys, contains]

@[simp] theorem contains_alter (m : StringMap α) (k k' : String) (f : Option α → α) :
    (m.alter k f).contains k' = (k' == k || m.contains k') := by
  rw [contains_eq_isSome, contains_eq_isSome, get?_alter]
  by_cases hk : k' = k <;> simp [hk]

theorem alterEntries_eq_self {k : String} {f : Option α → α} {v : α} {es : List (String × α)}
    (h : es.Pairwise fun a b => a.1 < b.1) (hv : es.lookup k = some v) (hf : f (some v) = v) :
    alterEntries k f es = es := by
  induction es with
  | nil => simp at hv
  | cons e es ih =>
      obtain ⟨a, w⟩ := e
      have hlt := (List.pairwise_cons.1 h).1
      unfold alterEntries
      by_cases hk : k = a
      · subst hk
        obtain rfl : w = v := by simpa using hv
        simp [hf]
      · rw [lookup_cons_of_ne hk] at hv
        obtain ⟨l₁, l₂, hes, _⟩ := List.lookup_eq_some_iff.1 hv
        have hak : a < k := hlt (k, v) (by simp [hes])
        rw [if_neg (String.lt_asymm hak), if_neg hk, ih (List.pairwise_cons.1 h).2 hv]

/-- To give a key the value that it has changes nothing. -/
theorem alter_eq_self {m : StringMap α} {k : String} {f : Option α → α} {v : α}
    (hv : m.get? k = some v) (hf : f (some v) = v) : m.alter k f = m :=
  StringMap.ext (alterEntries_eq_self m.ascending hv hf)

theorem alterEntries_congr {k : String} {f g : Option α → α} {es : List (String × α)}
    (h : es.Pairwise fun a b => a.1 < b.1) (hfg : f (es.lookup k) = g (es.lookup k)) :
    alterEntries k f es = alterEntries k g es := by
  induction es with
  | nil => simpa [alterEntries] using hfg
  | cons e es ih =>
      obtain ⟨a, v⟩ := e
      unfold alterEntries
      split
      · rename_i hka
        rw [lookup_eq_none_of_lt h (by simpa using hka)] at hfg
        rw [hfg]
      · split
        · rename_i hka
          have hka : k = a := hka
          subst hka
          rw [List.lookup_cons_self] at hfg
          rw [hfg]
        · rename_i hka
          rw [lookup_cons_of_ne hka] at hfg
          rw [ih (List.pairwise_cons.1 h).2 hfg]

theorem alter_congr {m : StringMap α} {k : String} {f g : Option α → α}
    (h : f (m.get? k) = g (m.get? k)) : m.alter k f = m.alter k g :=
  StringMap.ext (alterEntries_congr m.ascending h)

theorem mem_values_insert {m : StringMap α} {k : String} {v a : α} (h : a ∈ (m.insert k v).values) :
    a = v ∨ a ∈ m.values := by
  obtain ⟨e, he, rfl⟩ := List.mem_map.1 h
  have hentries (es : List (String × α)) (he : e ∈ alterEntries k (fun _ => v) es) :
      e.2 = v ∨ e ∈ es := by
    induction es with
    | nil => simp_all [alterEntries]
    | cons a es ih => grind [alterEntries]
  exact (hentries m.entries he).imp_right List.mem_map_of_mem

theorem alterEntries_of_lt {k : String} (f : Option α → α) {es : List (String × α)}
    (h : ∀ e ∈ es, e.1 < k) : alterEntries k f es = es ++ [(k, f none)] := by
  induction es with
  | nil => rfl
  | cons e es ih =>
      have he := h e List.mem_cons_self
      rw [alterEntries, if_neg (String.lt_asymm he), if_neg (String.ne_of_lt he).symm,
        ih fun a ha => h a (List.mem_cons_of_mem _ ha), List.cons_append]

theorem entries_foldl_insert (es : List (String × α)) {m : StringMap α}
    (h : (m.entries ++ es).Pairwise fun a b => a.1 < b.1) :
    (es.foldl (fun m e => m.insert e.1 e.2) m).entries = m.entries ++ es := by
  induction es generalizing m with
  | nil => simp
  | cons e es ih =>
      have hinsert : (m.insert e.1 e.2).entries = m.entries ++ [e] :=
        alterEntries_of_lt _ fun a ha => (List.pairwise_append.1 h).2.2 a ha e List.mem_cons_self
      have happend : (m.insert e.1 e.2).entries ++ es = m.entries ++ e :: es := by
        rw [hinsert, List.append_assoc, List.singleton_append]
      rw [List.foldl_cons, ih (happend ▸ h), happend]

/-- A map is made anew from its entries. -/
theorem ofList_entries (m : StringMap α) : ofList m.entries = m :=
  StringMap.ext (entries_foldl_insert m.entries m.ascending)

theorem get?_mapEntries (m : StringMap α) (f : String → α → β) (k : String) :
    (m.mapEntries f).get? k = (m.get? k).map (f k) := by
  unfold mapEntries get?
  simp only
  induction m.entries with
  | nil => rfl
  | cons e es ih =>
      obtain ⟨a, v⟩ := e
      by_cases hk : k = a
      · simp [hk]
      · simp [lookup_cons_of_ne hk, ih]

theorem get?_eq_some {m : StringMap α} {k : String} {a : α} :
    m.get? k = some a ↔ (k, a) ∈ m.entries := by
  obtain ⟨es, h⟩ := m
  constructor
  · intro hk
    obtain ⟨l₁, l₂, rfl, _⟩ := List.lookup_eq_some_iff.1 hk
    exact List.mem_append_right _ List.mem_cons_self
  · intro hmem
    induction es with
    | nil => cases hmem
    | cons e es ih =>
        obtain ⟨hlt, hes⟩ := List.pairwise_cons.1 h
        rcases List.mem_cons.1 hmem with rfl | hmem
        · exact List.lookup_cons_self
        · have hne : k ≠ e.1 := (String.ne_of_lt (hlt _ hmem)).symm
          exact (lookup_cons_of_ne hne e.2 es).trans (ih hes hmem)

/-- Maps with the same values at the same keys are equal. -/
theorem ext_get? {m n : StringMap α} (h : ∀ k, m.get? k = n.get? k) : m = n := by
  have hnodup (m : StringMap α) : m.entries.Nodup :=
    m.ascending.imp fun hlt heq => String.ne_of_lt hlt (congrArg Prod.fst heq)
  have hperm : m.entries.Perm n.entries := by
    refine (List.perm_ext_iff_of_nodup (hnodup m) (hnodup n)).2 fun e => ?_
    rw [← get?_eq_some (k := e.1), h, get?_eq_some]
  refine StringMap.ext (hperm.eq_of_pairwise (fun _ _ _ _ hab hba => ?_) m.ascending n.ascending)
  exact absurd hab (String.lt_asymm hba)

theorem findSome?_values_eq_none {m : StringMap α} {f : α → Option β} :
    m.values.findSome? f = none ↔ ∀ k a, m.get? k = some a → f a = none := by
  simp [values, List.findSome?_map, get?_eq_some]

/-- The first value to give something is that of the least key to give something. -/
theorem findSome?_values_eq_some {m : StringMap α} {f : α → Option β} {b : β} :
    m.values.findSome? f = some b ↔ ∃ k a, m.get? k = some a ∧ f a = some b ∧
      ∀ k' a', k' < k → m.get? k' = some a' → f a' = none := by
  simp only [values, List.findSome?_map, List.findSome?_eq_some_iff, get?_eq_some]
  constructor
  · rintro ⟨l₁, ⟨k, a⟩, l₂, hl, hb, hfirst⟩
    refine ⟨k, a, by simp [hl], hb, fun k' a' hk hmem => ?_⟩
    have hpairwise := m.ascending
    rw [hl] at hmem hpairwise
    rcases List.mem_append.1 hmem with hmem | hmem
    · exact hfirst _ hmem
    · -- What comes later has a greater key.
      have hle : k' = k ∨ k < k' := by
        rcases List.mem_cons.1 hmem with heq | hmem
        · exact Or.inl (Prod.mk.inj heq).1
        · exact Or.inr ((List.pairwise_cons.1 (List.pairwise_append.1 hpairwise).2.1).1 _ hmem)
      rcases hle with rfl | hlt
      · exact absurd hk (String.lt_irrefl _)
      · exact absurd hk (String.lt_asymm hlt)
  · rintro ⟨k, a, hmem, hb, hfirst⟩
    obtain ⟨l₁, l₂, hl⟩ := List.append_of_mem hmem
    refine ⟨l₁, (k, a), l₂, hl, hb, fun e he => ?_⟩
    have hpairwise := m.ascending
    rw [hl] at hpairwise
    have hlt : e.1 < k := (List.pairwise_append.1 hpairwise).2.2 e he _ List.mem_cons_self
    exact hfirst e.1 e.2 hlt (by simp [hl, he])

end StringMap

/-! ## Lists with keys -/

/-- Among elements with different keys, the first with the key of an element is that element. -/
theorem find?_key_of_nodup {α : Type} {key : α → String} {l : List α} (h : (l.map key).Nodup) {a : α}
    (ha : a ∈ l) : l.find? (key · == key a) = some a := by
  induction l with
  | nil => cases ha
  | cons b l ih =>
      obtain ⟨hb, hl⟩ := List.nodup_cons.1 h
      rcases List.mem_cons.1 ha with rfl | ha
      · exact List.find?_cons_of_pos (beq_self_eq_true _)
      · have hne : key b ≠ key a := fun heq => hb (heq ▸ List.mem_map_of_mem ha)
        rw [List.find?_cons_of_neg (by simpa using hne)]
        exact ih hl ha

end Wiring
