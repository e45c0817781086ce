import Wiring.Json.Basic

/-!
# JSON tokens

`tokens` cuts a text into marks and scalars. A scalar that is not well formed ends the list: its
token says how the text breaks off there. Scalars keep their written form, since whether a number
is in range or a surrogate is paired matters only to a reader that keeps the value.
-/

namespace Wiring.Json

/-- Why a text is not JSON: some character cannot stand where it does, or the text ends early. -/
inductive Fault where
  | malformed
  | unfinished
  deriving DecidableEq, Repr

/-- A part of a quoted string: a character, or the UTF-16 unit of a `\u` escape. -/
inductive StringPart where
  | char (c : Char)
  | unit (n : Nat)
  deriving DecidableEq, Repr

/-- A number as written. -/
structure Numeral where
  negative : Bool
  whole : List Char
  /-- The digits after the point. -/
  fraction : Option (List Char)
  /-- Whether the exponent is negative, and its digits. -/
  power : Option (Bool × List Char)
  deriving DecidableEq, Repr

/-- A value without parts, as written. -/
inductive Scalar where
  | null
  | bool (b : Bool)
  | numeral (n : Numeral)
  /-- A number that breaks off, by the end of the text if `atEnd`. -/
  | brokenNumeral (atEnd : Bool)
  /-- A string, with the fault that ends it in place of the closing quote. -/
  | string (parts : List StringPart) (fault : Option Fault)
  /-- A word that breaks off. -/
  | brokenWord (fault : Fault)
  /-- Nothing that can begin a scalar. -/
  | broken (fault : Fault)
  deriving DecidableEq, Repr

/-- The marks around and between values. -/
inductive Mark where
  | openArray
  | closeArray
  | openObject
  | closeObject
  | colon
  | comma
  deriving DecidableEq, Repr

/-- A mark or a scalar. -/
inductive Token where
  | mark (m : Mark)
  | scalar (s : Scalar)
  deriving DecidableEq, Repr

/-- Whether the text goes on after the scalar. -/
def Scalar.whole : Scalar → Bool
  | .brokenNumeral _ | .string _ (some _) | .brokenWord _ | .broken _ => false
  | _ => true

/-- The blanks of JSON. -/
def isBlank (c : Char) : Bool := c = ' ' || c = '\n' || c = '\t' || c = '\r'

def markOf (c : Char) : Option Mark :=
  match c with
  | '[' => some .openArray
  | ']' => some .closeArray
  | '\x7b' => some .openObject
  | '\x7d' => some .closeObject
  | ':' => some .colon
  | ',' => some .comma
  | _ => none

def hexValue (c : Char) : Option Nat :=
  if c.isDigit then some (c.toNat - '0'.toNat)
  else if 'a' ≤ c ∧ c ≤ 'f' then some (c.toNat - 'a'.toNat + 10)
  else if 'A' ≤ c ∧ c ≤ 'F' then some (c.toNat - 'A'.toNat + 10)
  else none

/-- The number of four hexadecimal digits. -/
def hexUnit (a b c d : Char) : Option Nat := do
  let a ← hexValue a
  let b ← hexValue b
  let c ← hexValue c
  let d ← hexValue d
  return ((a * 16 + b) * 16 + c) * 16 + d

/-- The character that a one-letter escape stands for. -/
def unescape (c : Char) : Option Char :=
  match c with
  | '"' => some '"'
  | '\\' => some '\\'
  | '/' => some '/'
  | 'b' => some '\x08'
  | 'f' => some '\x0c'
  | 'n' => some '\n'
  | 'r' => some '\r'
  | 't' => some '\t'
  | _ => none

/-- The fault of a text that has fewer than four characters after `\u`: it is unfinished if fewer
than four bytes are left. -/
def shortUnitFault (rest : List Char) : Fault :=
  if rest.foldr (fun c n => c.utf8Size + n) 0 < 4 then .unfinished else .malformed

/-- Reads a string after its opening quote, onto the parts read before, and the text after it. -/
def scanString (done : List StringPart) : List Char → Scalar × List Char
  | [] => (.string done.reverse (some .unfinished), [])
  | '"' :: rest => (.string done.reverse none, rest)
  | ['\\'] => (.string done.reverse (some .unfinished), [])
  | '\\' :: 'u' :: a :: b :: c :: d :: rest =>
    match hexUnit a b c d with
    | some n => scanString (.unit n :: done) rest
    | none => (.string done.reverse (some .malformed), [])
  | '\\' :: 'u' :: rest => (.string done.reverse (some (shortUnitFault rest)), [])
  | '\\' :: e :: rest =>
    match unescape e with
    | some c => scanString (.char c :: done) rest
    | none => (.string done.reverse (some .malformed), [])
  | c :: rest =>
    if c.toNat < 0x20 then (.string done.reverse (some .malformed), [])
    else scanString (.char c :: done) rest

/-- Reads the rest of a word that stands for a scalar. -/
def scanWord (value : Scalar) : List Char → List Char → Scalar × List Char
  | [], rest => (value, rest)
  | _ :: _, [] => (.brokenWord .unfinished, [])
  | w :: ws, c :: rest => if c = w then scanWord value ws rest else (.brokenWord .malformed, [])

/-- Reads an exponent, if there is one. -/
def scanPower (negative : Bool) (whole : List Char) (fraction : Option (List Char)) :
    List Char → Scalar × List Char
  | [] => (.numeral ⟨negative, whole, fraction, none⟩, [])
  | e :: rest =>
    if e = 'e' ∨ e = 'E' then
      let minus := rest.head? = some '-'
      let rest := if minus ∨ rest.head? = some '+' then rest.tail else rest
      let ds := rest.takeWhile Char.isDigit
      if ds.isEmpty then (.brokenNumeral rest.isEmpty, [])
      else
        (.numeral ⟨negative, whole, fraction, some (minus, ds)⟩, rest.dropWhile Char.isDigit)
    else (.numeral ⟨negative, whole, fraction, none⟩, e :: rest)

/-- Reads a fraction and an exponent, if there are any. -/
def scanFraction (negative : Bool) (whole : List Char) : List Char → Scalar × List Char
  | '.' :: rest =>
    let ds := rest.takeWhile Char.isDigit
    if ds.isEmpty then (.brokenNumeral rest.isEmpty, [])
    else scanPower negative whole (some ds) (rest.dropWhile Char.isDigit)
  | rest => scanPower negative whole none rest

/-- Reads a number after its sign. A leading zero stands alone. -/
def scanNumeral (negative : Bool) (s : List Char) : Scalar × List Char :=
  let ds := s.takeWhile Char.isDigit
  if ds.isEmpty then (.brokenNumeral s.isEmpty, [])
  else if ds.head? = some '0' ∧ ds.length ≠ 1 then (.brokenNumeral false, [])
  else scanFraction negative ds (s.dropWhile Char.isDigit)

/-- Reads a scalar by its first character. -/
def scanScalar (c : Char) (rest : List Char) : Scalar × List Char :=
  if c = '"' then scanString [] rest
  else if c = '-' then scanNumeral true rest
  else if c.isDigit then scanNumeral false (c :: rest)
  else if c = 'n' then scanWord .null "ull".toList rest
  else if c = 't' then scanWord (.bool true) "rue".toList rest
  else if c = 'f' then scanWord (.bool false) "alse".toList rest
  else (.broken .malformed, [])

/-! ## Progress -/

theorem length_dropWhile_le {p : Char → Bool} (s : List Char) :
    (s.dropWhile p).length ≤ s.length := by
  induction s with
  | nil => simp
  | cons c s ih => grind [List.dropWhile_cons]

theorem length_scanString_le (done : List StringPart) (s : List Char) :
    (scanString done s).2.length ≤ s.length := by
  fun_induction scanString done s <;> simp_all <;> omega

theorem length_scanWord_le (v : Scalar) (w s : List Char) :
    (scanWord v w s).2.length ≤ s.length := by
  fun_induction scanWord v w s <;> simp_all
  omega

theorem length_scanPower_le (n : Bool) (w : List Char) (f : Option (List Char)) (s : List Char) :
    (scanPower n w f s).2.length ≤ s.length := by
  cases s with
  | nil => simp [scanPower]
  | cons e s =>
    have ht : s.tail.length ≤ s.length := by simp
    have h := length_dropWhile_le (p := Char.isDigit) s
    have h' := length_dropWhile_le (p := Char.isDigit) s.tail
    simp only [scanPower]
    repeat' split
    all_goals simp only [List.length_cons, List.length_nil]
    all_goals omega

theorem length_scanFraction_le (n : Bool) (w s : List Char) :
    (scanFraction n w s).2.length ≤ s.length := by
  unfold scanFraction
  split
  · rename_i rest
    have h := length_dropWhile_le (p := Char.isDigit) rest
    have h' := length_scanPower_le n w (some (rest.takeWhile Char.isDigit))
      (rest.dropWhile Char.isDigit)
    simp only [List.length_cons]
    split
    · simp
    · omega
  · exact length_scanPower_le ..

theorem length_scanNumeral_le (n : Bool) (s : List Char) :
    (scanNumeral n s).2.length ≤ s.length := by
  have h := length_dropWhile_le (p := Char.isDigit) s
  have h' := length_scanFraction_le n (s.takeWhile Char.isDigit) (s.dropWhile Char.isDigit)
  unfold scanNumeral
  simp only
  split
  · simp
  · split
    · simp
    · omega

theorem length_scanNumeral_lt {c : Char} (n : Bool) (s : List Char) (h : c.isDigit) :
    (scanNumeral n (c :: s)).2.length < (c :: s).length := by
  have hd : ((c :: s).dropWhile Char.isDigit).length ≤ s.length := by
    rw [List.dropWhile_cons, if_pos h]
    exact length_dropWhile_le s
  have h' := length_scanFraction_le n ((c :: s).takeWhile Char.isDigit)
    ((c :: s).dropWhile Char.isDigit)
  unfold scanNumeral
  simp only
  split
  · simp
  · split
    · simp
    · simp only [List.length_cons]
      omega

/-- A scalar takes at least its first character. -/
theorem length_scanScalar_le (c : Char) (rest : List Char) :
    (scanScalar c rest).2.length ≤ rest.length := by
  unfold scanScalar
  split
  · exact length_scanString_le ..
  · split
    · exact length_scanNumeral_le ..
    · split
      · rename_i h
        have := length_scanNumeral_lt false rest h
        simp only [List.length_cons] at this
        omega
      · repeat' split
        all_goals first | exact length_scanWord_le .. | simp

/-- The tokens of a text, up to the first scalar that breaks off. -/
def tokens : List Char → List Token
  | [] => []
  | c :: rest =>
    if isBlank c then tokens rest
    else
      match markOf c with
      | some m => .mark m :: tokens rest
      | none =>
        match scanScalar c rest, length_scanScalar_le c rest with
        | (s, rest'), _ => if s.whole then .scalar s :: tokens rest' else [.scalar s]
termination_by s => s.length
decreasing_by
  · exact Nat.lt_succ_self _
  · exact Nat.lt_succ_self _
  · rename_i h _
    exact Nat.lt_succ_of_le h

end Wiring.Json
