import Wiring.Json.Token

/-!
# The value of a written number

A number without point and exponent that fits a 64-bit word, signed or unsigned, is an integer.
Any other is a double: the digits that fit an unsigned word, scaled by one power of ten. Both steps
round, so the double may be a neighbour of the nearest one. A number beyond the doubles has no
value.
-/

namespace Wiring.Json

def digitValue (c : Char) : Nat := c.toNat - '0'.toNat

/-- The number that digits stand for. -/
def natOfDigits (ds : List Char) : Nat := ds.foldl (fun n d => 10 * n + digitValue d) 0

/-- The longest run of digits after `n` that keeps it in an unsigned word, as the number so far,
how many digits were taken and how many are left. -/
def takeWord (n taken : Nat) : List Char → Nat × Nat × Nat
  | [] => (n, taken, 0)
  | d :: ds =>
    if 10 * n + digitValue d < word64Count then takeWord (10 * n + digitValue d) (taken + 1) ds
    else (n, taken, ds.length + 1)

def tenPower (k : Nat) : Float := .ofScientific 1 false k

/-- `x * 10 ^ -k`, in steps that stay within the powers of ten a double can hold. -/
def scaleDown (x : Float) (k : Nat) : Float :=
  if k ≤ 308 then x / tenPower k
  else if x == 0 then x
  else scaleDown (x / tenPower 308) (k - 308)
termination_by k
decreasing_by omega

/-- `n * 10 ^ k` as a double, unless it is beyond them. -/
def scale (n : Nat) (k : Int) : Option Float :=
  let x := Float.ofNat n
  if k < 0 then some (scaleDown x (-k).toNat)
  else if k ≤ 308 then
    let y := x * tenPower k.toNat
    if y.isInf then none else some y
  else if n = 0 then some x
  else none

/-- The greatest exponent that a signed 32-bit word holds. -/
def exponentLimit : Nat := 2147483647

/-- An exponent beyond its limit leaves zero as it is and brings any other number to zero or beyond
the doubles. -/
def scalePower (n : Nat) (k : Int) : Option (Bool × List Char) → Option Float
  | none => scale n k
  | some (negative, ds) =>
    let e := natOfDigits ds
    if e ≤ exponentLimit then
      let total := if negative then k - e else k + e
      scale n (max (-exponentLimit - 1) (min exponentLimit total))
    else if n ≠ 0 ∧ ¬ negative then none
    else some 0

/-- The value of a number, unless it is beyond the doubles. -/
def Numeral.value (n : Numeral) : Option Json :=
  let (word, _, left) := takeWord 0 0 n.whole
  let float (x : Option Float) : Option Json := x.map fun x => .float (if n.negative then -x else x)
  match n.fraction, n.power with
  | none, none =>
    if left ≠ 0 then float (scale word left)
    else if ¬ n.negative then some (.int word)
    else if 0 < word ∧ word ≤ signedWordBound then some (.int (-word))
    else float (some (Float.ofNat word))
  | none, some p => float (scalePower word left (some p))
  | some ds, p =>
    let (word, taken, _) := takeWord word 0 ds
    float (scalePower word (left - taken) p)

end Wiring.Json
