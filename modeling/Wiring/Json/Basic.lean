import Wiring.StringMap

/-!
# JSON values

`Json` is a value with the members of each object in a given order. `Json.Canonical` says that the
members are in strictly ascending key order and that integers fit a 64-bit word, signed or
unsigned; `canonical` brings any value into that form.
-/

namespace Wiring

/-- A JSON value. -/
inductive Json where
  | null
  | bool (b : Bool)
  | int (n : Int)
  | float (x : Float)
  | str (s : String)
  | arr (items : List Json)
  | obj (members : List (String × Json))
  deriving Inhabited

namespace Json

/-- How many values a 32-bit word has. -/
def word32Count : Nat := 4294967296

/-- How many values a 64-bit word has. -/
def word64Count : Nat := 18446744073709551616

/-- The magnitude of the least number in a signed 64-bit word. -/
def signedWordBound : Nat := 9223372036854775808

/-- Whether an unsigned or a signed 64-bit word holds `n`. -/
def FitsWord (n : Int) : Prop := -signedWordBound ≤ n ∧ n < word64Count

instance (n : Int) : Decidable (FitsWord n) := inferInstanceAs (Decidable (_ ∧ _))

mutual

/-- Members in strictly ascending key order and integers within a word, at every level. -/
def Canonical : Json → Prop
  | .int n => FitsWord n
  | .arr items => CanonicalItems items
  | .obj members => (members.Pairwise fun a b => a.1 < b.1) ∧ CanonicalMembers members
  | _ => True

def CanonicalItems : List Json → Prop
  | [] => True
  | j :: js => Canonical j ∧ CanonicalItems js

def CanonicalMembers : List (String × Json) → Prop
  | [] => True
  | (_, j) :: ms => Canonical j ∧ CanonicalMembers ms

end

mutual

/-- Sorts the members of every object, the last of several with one key winning, and turns
integers beyond a word into doubles. -/
def canonical : Json → Json
  | .null => .null
  | .bool b => .bool b
  | .int n => if FitsWord n then .int n else .float (.ofInt n)
  | .float x => .float x
  | .str s => .str s
  | .arr items => .arr (canonicalItems items)
  | .obj members => .obj (StringMap.ofList (canonicalMembers members)).entries

def canonicalItems : List Json → List Json
  | [] => []
  | j :: js => canonical j :: canonicalItems js

def canonicalMembers : List (String × Json) → List (String × Json)
  | [] => []
  | (k, j) :: ms => (k, canonical j) :: canonicalMembers ms

end

theorem canonicalMembers_iff {ms : List (String × Json)} :
    CanonicalMembers ms ↔ ∀ m ∈ ms, Canonical m.2 := by
  induction ms with
  | nil => simp [CanonicalMembers]
  | cons m ms ih => simp [CanonicalMembers, ih]

theorem mem_of_mem_alterEntries {k : String} {v : Json} {es : List (String × Json)}
    {e : String × Json} (h : e ∈ StringMap.alterEntries k (fun _ => v) es) :
    e.2 = v ∨ e ∈ es := by
  induction es with
  | nil => simp_all [StringMap.alterEntries]
  | cons a es ih => grind [StringMap.alterEntries]

theorem canonicalMembers_ofList {ms : List (String × Json)} (h : CanonicalMembers ms) :
    CanonicalMembers (StringMap.ofList ms).entries := by
  suffices ∀ (m : StringMap Json), CanonicalMembers m.entries →
      CanonicalMembers (ms.foldl (fun m e => m.insert e.1 e.2) m).entries from
    this .empty trivial
  induction ms with
  | nil => exact fun _ hm => hm
  | cons e ms ih =>
    intro m hm
    refine ih h.2 (m.insert e.1 e.2) (canonicalMembers_iff.2 fun x hx => ?_)
    rcases mem_of_mem_alterEntries hx with hx | hx
    · rw [hx]
      exact h.1
    · exact canonicalMembers_iff.1 hm x hx

mutual

theorem canonical_canonical : (j : Json) → Canonical (canonical j)
  | .null | .bool _ | .float _ | .str _ => trivial
  | .int n => by
      unfold canonical
      split
      · assumption
      · trivial
  | .arr items => canonicalItems_canonicalItems items
  | .obj members =>
      ⟨(StringMap.ofList (canonicalMembers members)).ascending,
        canonicalMembers_ofList (canonicalMembers_canonicalMembers members)⟩

theorem canonicalItems_canonicalItems :
    (js : List Json) → CanonicalItems (canonicalItems js)
  | [] => trivial
  | j :: js => ⟨canonical_canonical j, canonicalItems_canonicalItems js⟩

theorem canonicalMembers_canonicalMembers :
    (ms : List (String × Json)) → CanonicalMembers (canonicalMembers ms)
  | [] => trivial
  | (_, j) :: ms => ⟨canonical_canonical j, canonicalMembers_canonicalMembers ms⟩

end

/-- The value of member `k`, the last one if there are several. -/
def get? (j : Json) (k : String) : Option Json :=
  match j with
  | .obj members => members.reverse.lookup k
  | _ => none

end Json

/-- A JSON value in canonical form. -/
structure CanonicalJson where
  json : Json
  canonical : json.Canonical

namespace CanonicalJson

/-- The canonical form of a value. -/
def of (j : Json) : CanonicalJson := ⟨j.canonical, j.canonical_canonical⟩

instance : Inhabited CanonicalJson := ⟨of .null⟩

end CanonicalJson

end Wiring
