/-!
# Maps and sets of strings

`StringMap` keeps its entries in strictly ascending key order and `StringSet` its members in
strictly ascending order, by code point. Each carries that order as a field, so two maps with the
same entries are equal, and enumeration needs no sorting.
-/

namespace Wiring

structure StringMap (α : Type) where
  entries : List (String × α)
  ascending : entries.Pairwise fun a b => a.1 < b.1
  deriving DecidableEq

namespace StringMap

variable {α β : Type}

/-- Replaces the value at `k` in an ascending list by `f` of the value there, adding the key if it
is missing. -/
def alterEntries (k : String) (f : Option α → α) : List (String × α) → List (String × α)
  | [] => [(k, f none)]
  | e :: es =>
    if k < e.1 then (k, f none) :: e :: es
    else if k = e.1 then (k, f (some e.2)) :: es
    else e :: alterEntries k f es

theorem fst_of_mem_alterEntries {k : String} {f : Option α → α} {es : List (String × α)}
    {e : String × α} (h : e ∈ alterEntries k f es) : e.1 = k ∨ ∃ e' ∈ es, e'.1 = e.1 := by
  induction es with
  | nil => simp_all [alterEntries]
  | cons a es ih => grind [alterEntries]

theorem ascending_alterEntries (k : String) (f : Option α → α) {es : List (String × α)}
    (h : es.Pairwise fun a b => a.1 < b.1) :
    (alterEntries k f es).Pairwise fun a b => a.1 < b.1 := by
  induction es with
  | nil => simp [alterEntries]
  | cons a es ih =>
    have hlt := (List.pairwise_cons.1 h).1
    have ih := ih (List.pairwise_cons.1 h).2
    unfold alterEntries
    split
    · rename_i hk
      refine List.pairwise_cons.2 ⟨fun b hb => ?_, h⟩
      rcases List.mem_cons.1 hb with rfl | hb
      · exact hk
      · exact String.lt_trans hk (hlt b hb)
    · split
      · rename_i hk
        subst hk
        exact List.pairwise_cons.2 ⟨hlt, (List.pairwise_cons.1 h).2⟩
      · refine List.pairwise_cons.2 ⟨fun b hb => ?_, ih⟩
        rcases fst_of_mem_alterEntries hb with hb | ⟨e, he, heq⟩
        · grind
        · rw [← heq]
          exact hlt e he

/-- The map without entries. -/
def empty : StringMap α := ⟨[], .nil⟩

instance : EmptyCollection (StringMap α) := ⟨empty⟩
instance : Inhabited (StringMap α) := ⟨empty⟩

/-- Replaces the value at `k` by `f` of the value there, adding the key if it is missing. -/
def alter (m : StringMap α) (k : String) (f : Option α → α) : StringMap α :=
  ⟨alterEntries k f m.entries, ascending_alterEntries k f m.ascending⟩

/-- Puts `v` at `k`, in place of what was there. -/
def insert (m : StringMap α) (k : String) (v : α) : StringMap α := m.alter k fun _ => v

/-- The map of a list of pairs; the last of several pairs with one key counts. -/
def ofList (l : List (String × α)) : StringMap α := l.foldl (fun m e => m.insert e.1 e.2) empty

/-- The value at `k`. -/
def get? (m : StringMap α) (k : String) : Option α := m.entries.lookup k

/-- Whether there is a value at `k`. -/
def contains (m : StringMap α) (k : String) : Bool := m.entries.any fun e => e.1 == k

/-- The keys, ascending. -/
def keys (m : StringMap α) : List String := m.entries.map (·.1)

/-- The values, in the order of their keys. -/
def values (m : StringMap α) : List α := m.entries.map (·.2)

/-- Whether there is no entry. -/
def isEmpty (m : StringMap α) : Bool := m.entries.isEmpty

/-- The map with each value replaced by a function of its entry. -/
def mapEntries (m : StringMap α) (f : String → α → β) : StringMap β :=
  ⟨m.entries.map fun e => (e.1, f e.1 e.2), List.pairwise_map.2 m.ascending⟩

@[ext] theorem ext {m n : StringMap α} (h : m.entries = n.entries) : m = n := by
  cases m; cases n; cases h; rfl

end StringMap

structure StringSet where
  elems : List String
  ascending : elems.Pairwise (· < ·)
  deriving DecidableEq

namespace StringSet

/-- Adds a member to an ascending list. -/
def insertElem (s : String) : List String → List String
  | [] => [s]
  | t :: ts => if s < t then s :: t :: ts else if s = t then t :: ts else t :: insertElem s ts

theorem mem_insertElem {s t : String} {l : List String} :
    t ∈ insertElem s l ↔ t = s ∨ t ∈ l := by
  induction l with
  | nil => simp [insertElem]
  | cons a l ih => grind [insertElem]

theorem ascending_insertElem (s : String) {l : List String} (h : l.Pairwise (· < ·)) :
    (insertElem s l).Pairwise (· < ·) := by
  induction l with
  | nil => simp [insertElem]
  | cons a l ih =>
    have hlt := (List.pairwise_cons.1 h).1
    have ih := ih (List.pairwise_cons.1 h).2
    unfold insertElem
    split
    · rename_i hk
      refine List.pairwise_cons.2 ⟨fun b hb => ?_, h⟩
      rcases List.mem_cons.1 hb with rfl | hb
      · exact hk
      · exact String.lt_trans hk (hlt b hb)
    · split
      · exact h
      · refine List.pairwise_cons.2 ⟨fun b hb => ?_, ih⟩
        rcases mem_insertElem.1 hb with rfl | hb
        · grind
        · exact hlt b hb

/-- The set without members. -/
def empty : StringSet := ⟨[], .nil⟩

instance : EmptyCollection StringSet := ⟨empty⟩
instance : Inhabited StringSet := ⟨empty⟩

/-- Adds a member. -/
def insert (s : StringSet) (x : String) : StringSet :=
  ⟨insertElem x s.elems, ascending_insertElem x s.ascending⟩

/-- Adds every string of a list. -/
def insertAll (s : StringSet) (l : List String) : StringSet := l.foldl insert s

def ofList (l : List String) : StringSet := empty.insertAll l

/-- The members of either set. -/
def union (s t : StringSet) : StringSet := s.insertAll t.elems

/-- Whether `x` is a member. -/
def contains (s : StringSet) (x : String) : Bool := s.elems.contains x

/-- Whether there is no member. -/
def isEmpty (s : StringSet) : Bool := s.elems.isEmpty

instance : Membership String StringSet := ⟨fun s x => x ∈ s.elems⟩

instance (x : String) (s : StringSet) : Decidable (x ∈ s) :=
  inferInstanceAs (Decidable (x ∈ s.elems))

theorem mem_def {x : String} {s : StringSet} : x ∈ s ↔ x ∈ s.elems := .rfl

@[simp] theorem mem_insert {x y : String} {s : StringSet} : x ∈ s.insert y ↔ x = y ∨ x ∈ s :=
  mem_insertElem

end StringSet

end Wiring
