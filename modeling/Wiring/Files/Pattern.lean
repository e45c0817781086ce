/-!
# Name patterns

A pattern for the names in a directory: a question mark is any character, a star is any text, and
brackets hold a class of characters, or its complement after an exclamation mark. Two stars alone
stand for any directories.
-/

namespace Wiring

/-- A part of a pattern. -/
inductive Glyph where
  | char (c : Char)
  | any
  | text
  | among (ranges : List (Char × Char))
  /-- A character in none of some ranges. -/
  | outside (ranges : List (Char × Char))
  deriving DecidableEq

/-- A pattern for one step of a path. -/
inductive NamePattern where
  | name (glyphs : List Glyph)
  /-- Any directories, one in the other. -/
  | directories
  deriving DecidableEq

namespace Glyph

/-- The ranges of a class; a character alone is a range of one. -/
def rangesOf : List Char → List (Char × Char)
  | a :: '-' :: b :: cs => (a, b) :: rangesOf cs
  | a :: cs => (a, a) :: rangesOf cs
  | [] => []

/-- Splits a text at the first closing bracket. -/
def closeClass : List Char → Option (List Char × List Char)
  | [] => none
  | ']' :: cs => some ([], cs)
  | c :: cs => (closeClass cs).map fun r => (c :: r.1, r.2)

theorem length_of_closeClass {cs body rest : List Char}
    (h : closeClass cs = some (body, rest)) : rest.length < cs.length := by
  induction cs generalizing body with
  | nil => simp [closeClass] at h
  | cons c cs ih =>
    unfold closeClass at h
    split at h
    · simp_all
    · simp_all
    · rename_i c' cs' heq
      obtain ⟨rfl, rfl⟩ := List.cons.inj heq
      cases hc : closeClass cs with
      | none => simp [hc] at h
      | some r =>
        simp only [hc, Option.map_some, Option.some.injEq, Prod.mk.injEq] at h
        have hr : closeClass cs = some (r.1, rest) := by rw [hc, ← h.2]
        have := ih hr
        simp only [List.length_cons]
        omega

/-- Reads what follows an opening bracket. The first character of a class is never its end. -/
def readClass : List Char → Option (Glyph × List Char)
  | '!' :: c :: cs => (closeClass cs).map fun r => (.outside (rangesOf (c :: r.1)), r.2)
  | ['!'] => none
  | c :: cs => (closeClass cs).map fun r => (.among (rangesOf (c :: r.1)), r.2)
  | [] => none

theorem length_of_map_closeClass {cs rest : List Char} {f : List Char × List Char → Glyph}
    {g : Glyph} (h : (closeClass cs).map (fun r => (f r, r.2)) = some (g, rest)) :
    rest.length < cs.length := by
  obtain ⟨r, hr, heq⟩ := Option.map_eq_some_iff.1 h
  rw [← (Prod.mk.inj heq).2]
  exact length_of_closeClass hr

theorem length_of_readClass {cs rest : List Char} {g : Glyph}
    (h : readClass cs = some (g, rest)) : rest.length < cs.length := by
  unfold readClass at h
  split at h
  · have := length_of_map_closeClass h
    simp only [List.length_cons]
    omega
  · cases h
  · have := length_of_map_closeClass h
    simp only [List.length_cons]
    omega
  · cases h

/-- Reads the parts of a pattern. Two stars cannot stand together, and a class must have an end. -/
def readAll : List Char → Option (List Glyph)
  | [] => some []
  | '*' :: '*' :: _ => none
  | '*' :: cs => (readAll cs).map (.text :: ·)
  | '?' :: cs => (readAll cs).map (.any :: ·)
  | '[' :: cs =>
    match _h : readClass cs with
    | none => none
    | some (g, rest) => (readAll rest).map (g :: ·)
  | c :: cs => (readAll cs).map (.char c :: ·)
termination_by cs => cs.length
decreasing_by
  · simp
  · simp
  · have := length_of_readClass _h
    simp only [List.length_cons]
    omega
  · simp

def inRanges (ranges : List (Char × Char)) (c : Char) : Bool :=
  ranges.any fun r => r.1 ≤ c && c ≤ r.2

/-- Whether some parts describe a text as a whole. -/
def matchAll : List Glyph → List Char → Bool
  | [], [] => true
  | [], _ :: _ => false
  | .text :: gs, [] => matchAll gs []
  | .text :: gs, c :: cs => matchAll gs (c :: cs) || matchAll (.text :: gs) cs
  | _ :: _, [] => false
  | .char d :: gs, c :: cs => d == c && matchAll gs cs
  | .any :: gs, _ :: cs => matchAll gs cs
  | .among ranges :: gs, c :: cs => inRanges ranges c && matchAll gs cs
  | .outside ranges :: gs, c :: cs => !inRanges ranges c && matchAll gs cs
termination_by gs cs => gs.length + cs.length

/-- The name that a pattern without special characters describes. -/
def literal? : List Glyph → Option (List Char)
  | [] => some []
  | .char c :: gs => (literal? gs).map (c :: ·)
  | _ => none

end Glyph

namespace NamePattern

/-- Reads the pattern of one step. -/
def ofChars? (cs : List Char) : Option NamePattern :=
  if cs = ['*', '*'] then some .directories else (Glyph.readAll cs).map .name

def accepts (p : NamePattern) (name : String) : Bool :=
  match p with
  | .directories => true
  | .name glyphs => Glyph.matchAll glyphs name.toList

end NamePattern

end Wiring
