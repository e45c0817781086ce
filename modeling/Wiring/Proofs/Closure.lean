import Mathlib.Algebra.GroupWithZero.Nat
import Mathlib.Logic.Function.Iterate
import Mathlib.Logic.Relation
import Wiring.Proofs.Reachability

/-!
# The closure of a registry

A registry is made of definitions that are given one after the other. Its walks end after a bounded number
of turns, it carries what is reached by all that was given, and to expand markers is a closure operation
(`closure_of_given`).
-/

namespace Wiring

namespace Registry

variable {defs : StringMap StringSet}

/-! ## Turns of the walk -/

/-- One turn of the walk: the first marker of the queue is seen, unless it was seen before. -/
def turn (defs : StringMap StringSet) : StringSet × List String → StringSet × List String
  | (seen, []) => (seen, [])
  | (seen, m :: queue) =>
    if m ∈ seen then (seen, queue) else (seen.insert m, queue ++ pending defs seen m)

theorem exists_iterate_turn (defs : StringMap StringSet) (seen : StringSet)
    (queue : List String) :
    ∃ n ≤ unseenWeight seen defs.entries + queue.length,
      (turn defs)^[n] (seen, queue) = (walk defs seen queue, []) := by
  -- By induction on the walk: each turn lowers the measure by which it ends.
  fun_induction walk defs seen queue with
  | case1 seen => exact ⟨0, Nat.zero_le _, rfl⟩
  | case2 seen m queue hm ih =>
      obtain ⟨n, hn, hwalk⟩ := ih
      have hturn : turn defs (seen, m :: queue) = (seen, queue) := if_pos hm
      refine ⟨n + 1, ?_, by rw [Function.iterate_succ_apply, hturn, hwalk]⟩
      rw [List.length_cons]
      omega
  | case3 seen m queue hm ih =>
      obtain ⟨n, hn, hwalk⟩ := ih
      have hturn : turn defs (seen, m :: queue) =
          (seen.insert m, queue ++ pending defs seen m) := if_neg hm
      refine ⟨n + 1, ?_, by rw [Function.iterate_succ_apply, hturn, hwalk]⟩
      exact Nat.lt_of_le_of_lt hn (weight_visit_lt defs hm queue)

theorem unseenWeight_empty (es : List (String × StringSet)) :
    unseenWeight .empty es = (es.map fun e => e.2.elems.length + 1).sum := by
  induction es with
  | nil => rfl
  | cons e es ih =>
      rw [unseenWeight, if_neg StringSet.not_mem_empty, ih, List.map_cons, List.sum_cons]

/-! ## What is given -/

/-- Some of the definitions say that `a` carries `b`. -/
def Given (ds : List StereotypeDefinitions) (a b : String) : Prop :=
  ∃ d ∈ ds, ∃ l, (a, l) ∈ d.entries ∧ b ∈ l

theorem mem_carried_alter (a b m : String) (l : List String) :
    b ∈ carried (defs.alter m fun s => (s.getD .empty).insertAll l) a ↔
      b ∈ carried defs a ∨ (a = m ∧ b ∈ l) := by
  simp only [carried, StringMap.get?_alter]
  by_cases ha : a = m
  · subst ha
    cases h : defs.get? a with
    | none => simp [← StringSet.mem_def, StringSet.not_mem_empty]
    | some s => simp [← StringSet.mem_def]
  · simp [ha]

theorem mem_carried_foldl (es : List (String × List String)) (a b : String) :
    b ∈ carried (es.foldl (fun d e => d.alter e.1 fun s => (s.getD .empty).insertAll e.2) defs) a ↔
      b ∈ carried defs a ∨ ∃ l, (a, l) ∈ es ∧ b ∈ l := by
  induction es generalizing defs with
  | nil => simp
  | cons e es ih =>
      rw [List.foldl_cons, ih, mem_carried_alter, or_assoc]
      refine or_congr_right ⟨?_, ?_⟩
      · rintro (⟨rfl, hb⟩ | ⟨l, hl, hb⟩)
        · exact ⟨e.2, List.mem_cons_self, hb⟩
        · exact ⟨l, List.mem_cons_of_mem e hl, hb⟩
      · rintro ⟨l, hl, hb⟩
        rcases List.mem_cons.1 hl with rfl | hl
        · exact Or.inl ⟨rfl, hb⟩
        · exact Or.inr ⟨l, hl, hb⟩

theorem mem_carried_extend (r : Registry) (d : StereotypeDefinitions) (a b : String) :
    b ∈ carried (r.extend d).definitions a ↔ b ∈ carried r.definitions a ∨ Given [d] a b := by
  refine (mem_carried_foldl d.entries a b).trans (or_congr_right ?_)
  simp [Given]

theorem mem_carried_extends (r : Registry) (ds : List StereotypeDefinitions) (a b : String) :
    b ∈ carried (ds.foldl extend r).definitions a ↔ b ∈ carried r.definitions a ∨ Given ds a b := by
  induction ds generalizing r with
  | nil => simp [Given]
  | cons d ds ih =>
      rw [List.foldl_cons, ih, mem_carried_extend, or_assoc]
      simp [Given]

theorem mem_carried_given (d : StereotypeDefinitions) (ds : List StereotypeDefinitions)
    (a b : String) : b ∈ carried (ds.foldl extend (new d)).definitions a ↔ Given (d :: ds) a b := by
  have hempty : b ∉ carried empty.definitions a := by
    intro hb
    cases hb
  have h := mem_carried_extends empty (d :: ds) a b
  exact h.trans (or_iff_right hempty)

theorem reaches_iff {a b : String} :
    Reaches defs a b ↔ Relation.ReflTransGen (fun a b => b ∈ carried defs a) a b := by
  constructor
  · intro h
    induction h with
    | refl a => exact .refl
    | step hb _ ih => exact .head hb ih
  · intro h
    induction h using Relation.ReflTransGen.head_induction_on with
    | refl => exact .refl _
    | head hb _ ih => exact .step hb ih

theorem carries_given (d : StereotypeDefinitions) (ds : List StereotypeDefinitions) {a b : String} :
    (ds.foldl extend (new d)).Carries a b ↔ Relation.ReflTransGen (Given (d :: ds)) a b := by
  have hgiven : (fun a b => b ∈ carried (ds.foldl extend (new d)).definitions a) =
      Given (d :: ds) := by
    funext a b
    exact propext (mem_carried_given d ds a b)
  rw [Carries, reaches_iff, hgiven]

/-! ## Expansion -/

theorem mem_expand_of_mem {r : Registry} {names : List String} {n : String} (h : n ∈ names) :
    n ∈ r.expand names := mem_expand.2 ⟨n, h, .refl n⟩

theorem expand_mono {r : Registry} {names names' : List String} (h : names ⊆ names') {t : String}
    (ht : t ∈ r.expand names) : t ∈ r.expand names' := by
  obtain ⟨n, hn, hnt⟩ := mem_expand.1 ht
  exact mem_expand.2 ⟨n, h hn, hnt⟩

theorem expand_expand (r : Registry) (names : List String) :
    r.expand (r.expand names).elems = r.expand names := by
  refine StringSet.ext_mem fun t => ⟨fun ht => ?_, mem_expand_of_mem⟩
  obtain ⟨u, hu, hut⟩ := mem_expand.1 ht
  obtain ⟨n, hn, hnu⟩ := mem_expand.1 (StringSet.mem_def.2 hu)
  exact mem_expand.2 ⟨n, hn, hnu.trans hut⟩

/-- Whatever definitions a registry is given, one after the other: each walk that it makes ends, within
one turn for its start and one for each marker that is defined or carried by a definition; it carries what
is reached, in zero or more steps, by all that was given; and what it expands some markers to is what they
carry, so expansion is extensive, monotone and idempotent. -/
theorem closure_of_given (d : StereotypeDefinitions) (ds : List StereotypeDefinitions) :
    let r := ds.foldl extend (new d)
    (∀ a, ∃ n ≤ (r.definitions.entries.map fun e => e.2.elems.length + 1).sum + 1,
      (turn r.definitions)^[n] (.empty, [a]) = (walk r.definitions .empty [a], [])) ∧
    (∀ a b, r.carries a b = true ↔ Relation.ReflTransGen (Given (d :: ds)) a b) ∧
    (∀ names t, t ∈ r.expand names ↔ ∃ n ∈ names, r.carries n t = true) ∧
    (∀ names, ∀ n ∈ names, n ∈ r.expand names) ∧
    (∀ names names', names ⊆ names' → ∀ t ∈ r.expand names, t ∈ r.expand names') ∧
    ∀ names, r.expand (r.expand names).elems = r.expand names := by
  intro r
  refine ⟨fun a => ?_, fun a b => carries_iff.trans (carries_given d ds), fun names t => ?_,
    fun names n hn => mem_expand_of_mem hn, fun names names' h t ht => expand_mono h ht,
    r.expand_expand⟩
  · obtain ⟨n, hn, hwalk⟩ := exists_iterate_turn r.definitions .empty [a]
    rw [unseenWeight_empty] at hn
    exact ⟨n, hn, hwalk⟩
  · simp only [mem_expand, carries_iff]

theorem closure_of_given_cycle :
    let r := (new (.ofList [("Cached", ["Around", "Around"])])).extend
      (.ofList [("Around", ["Cached", "Inject"])])
    r.carries "Around" "Inject" = true ∧ r.carries "Cached" "Inject" = true ∧
      "Inject" ∈ r.expand ["Bean", "Cached"] := by
  intro r
  have h := closure_of_given (.ofList [("Cached", ["Around", "Around"])])
    [.ofList [("Around", ["Cached", "Inject"])]]
  have haround : r.carries "Around" "Inject" = true := by
    refine (h.2.1 _ _).2 (.single ?_)
    exact ⟨_, List.mem_cons_of_mem _ List.mem_cons_self, ["Cached", "Inject"], by decide, by simp⟩
  have hcached : r.carries "Cached" "Inject" = true := by
    refine (h.2.1 _ _).2 (.head ?_ ((h.2.1 _ _).1 haround))
    exact ⟨_, List.mem_cons_self, ["Around", "Around"], by decide, by simp⟩
  have hmem : "Inject" ∈ r.expand ["Cached"] := (h.2.2.1 _ _).2 ⟨"Cached", by simp, hcached⟩
  exact ⟨haround, hcached, h.2.2.2.2.1 _ _ (by simp) _ hmem⟩

end Registry

end Wiring
