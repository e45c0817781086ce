import Wiring.StringMap

/-!
# Stereotypes

A stereotype is a marker that carries others, directly as its definition says and through them
transitively. A `Registry` holds the definitions and, for each defined marker, all that it reaches;
`Reaches` is the same relation without a search.
-/

namespace Wiring

/-- For each stereotype, the markers it carries directly. -/
abbrev StereotypeDefinitions := StringMap (List String)

namespace Registry

/-- The markers that `m` carries directly. -/
def carried (defs : StringMap StringSet) (m : String) : List String :=
  ((defs.get? m).map StringSet.elems).getD []

/-- `b` is reached from `a` by going from markers to markers they carry, in zero or more steps. -/
inductive Reaches (defs : StringMap StringSet) : String → String → Prop where
  | refl (a : String) : Reaches defs a a
  | step {a b c : String} : b ∈ carried defs a → Reaches defs b c → Reaches defs a c

/-- What the definitions of markers not yet seen can still add to a queue. -/
def unseenWeight (seen : StringSet) : List (String × StringSet) → Nat
  | [] => 0
  | e :: es => (if e.1 ∈ seen then 0 else e.2.elems.length + 1) + unseenWeight seen es

theorem unseenWeight_insert_le (seen : StringSet) (m : String)
    (entries : List (String × StringSet)) :
    unseenWeight (seen.insert m) entries ≤ unseenWeight seen entries := by
  induction entries with
  | nil => simp [unseenWeight]
  | cons e es ih =>
    simp only [unseenWeight, StringSet.mem_insert]
    split <;> split <;> simp_all
    omega

theorem unseenWeight_insert_lt {seen : StringSet} {m : String} {s : StringSet}
    {entries : List (String × StringSet)} (hm : m ∉ seen) (h : entries.lookup m = some s) :
    unseenWeight (seen.insert m) entries + s.elems.length < unseenWeight seen entries := by
  induction entries with
  | nil => simp at h
  | cons e es ih =>
    have hle := unseenWeight_insert_le seen m es
    simp only [unseenWeight, StringSet.mem_insert]
    rw [List.lookup_cons] at h
    split at h
    · rename_i he
      have he : m = e.1 := by simpa using he
      have hs : e.2 = s := by simpa using h
      subst hs
      rw [if_pos (Or.inl he.symm), if_neg (he ▸ hm)]
      omega
    · have := ih h
      split <;> split <;> simp_all
      omega

/-- What a marker that is seen adds to the queue: all that it carries and that is not seen. -/
def pending (defs : StringMap StringSet) (seen : StringSet) (m : String) : List String :=
  (carried defs m).filter (· ∉ seen.insert m)

theorem weight_visit_lt (defs : StringMap StringSet) {seen : StringSet} {m : String}
    (hm : m ∉ seen) (queue : List String) :
    unseenWeight (seen.insert m) defs.entries + (queue ++ pending defs seen m).length <
      unseenWeight seen defs.entries + (m :: queue).length := by
  have hlen : (pending defs seen m).length ≤ (carried defs m).length := List.length_filter_le _ _
  rw [List.length_append, List.length_cons]
  simp only [carried, StringMap.get?] at hlen
  cases h : defs.entries.lookup m with
  | none =>
    have hle := unseenWeight_insert_le seen m defs.entries
    simp only [h, Option.map_none, Option.getD_none, List.length_nil] at hlen
    omega
  | some s =>
    have hlt := unseenWeight_insert_lt hm h
    simp only [h, Option.map_some, Option.getD_some] at hlen
    omega

/-- Adds to `seen` all that is reached from a queue of markers. -/
def walk (defs : StringMap StringSet) (seen : StringSet) : List String → StringSet
  | [] => seen
  | m :: queue =>
    if m ∈ seen then walk defs seen queue
    else walk defs (seen.insert m) (queue ++ pending defs seen m)
termination_by queue => unseenWeight seen defs.entries + queue.length
decreasing_by
  · simp
  · rename_i hm
    exact weight_visit_lt defs hm queue

/-- For each defined marker, all that it reaches. -/
def close (defs : StringMap StringSet) : StringMap StringSet :=
  defs.mapEntries fun m _ => walk defs .empty [m]

end Registry

/-- Stereotype definitions with their closure. -/
structure Registry where
  definitions : StringMap StringSet
  closure : StringMap StringSet
  closure_eq : closure = Registry.close definitions
  deriving DecidableEq

namespace Registry

def ofDefinitions (defs : StringMap StringSet) : Registry := ⟨defs, close defs, rfl⟩

def empty : Registry := ofDefinitions .empty

instance : Inhabited Registry := ⟨empty⟩

/-- Adds definitions. What is carried by a marker that is defined more than once accumulates. -/
def extend (r : Registry) (defs : StereotypeDefinitions) : Registry :=
  ofDefinitions <| defs.entries.foldl
    (fun d e => d.alter e.1 fun s => (s.getD .empty).insertAll e.2) r.definitions

def new (defs : StereotypeDefinitions) : Registry := empty.extend defs

def isEmpty (r : Registry) : Bool := r.definitions.isEmpty

/-- Whether `marker` is `target` or carries it, directly or not. -/
def carries (r : Registry) (marker target : String) : Bool :=
  marker == target || (r.closure.get? marker).any (·.contains target)

/-- All that is reached from some markers. -/
def expand (r : Registry) (names : List String) : StringSet :=
  names.foldl (fun s n =>
    match r.closure.get? n with
    | some reached => s.union reached
    | none => s.insert n) .empty

end Registry

end Wiring
