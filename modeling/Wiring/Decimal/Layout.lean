import Wiring.Decimal.Shortest

/-!
# Writing doubles

`Layout` says how a double is laid out once its shortest digits are known.
-/

namespace Wiring

/-- Which magnitudes are written with all their digits in place, and which with an exponent. -/
structure Layout where
  /-- The least exponent of a leading digit that is written in place. -/
  leastInPlace : Int
  /-- The least exponent of a leading digit that is written after an `e`. -/
  leastScaled : Int

namespace Layout

def digits (n : Nat) : List Char := Nat.toDigits 10 n

/-- Digits `ds` of a number whose leading digit stands for `10 ^ lead`. In place there is at least
one digit on either side of the point; scaled, the exponent has a sign. -/
def place (l : Layout) (ds : List Char) (lead : Int) : List Char :=
  if l.leastInPlace ≤ lead ∧ lead < l.leastScaled then
    if lead < 0 then
      "0.".toList ++ List.replicate (-lead - 1).toNat '0' ++ ds
    else
      let whole := lead.toNat + 1
      let front := ds.take whole ++ List.replicate (whole - ds.length) '0'
      let back := ds.drop whole
      front ++ '.' :: (if back.isEmpty then ['0'] else back)
  else
    let back := ds.drop 1
    ds.take 1 ++ (if back.isEmpty then [] else '.' :: back) ++
      'e' :: (if lead < 0 then '-' else '+') :: digits lead.natAbs

/-- A double, by its shortest digits. -/
def chars (l : Layout) (x : Float) : List Char :=
  let negative := Nat.pow 2 63 ≤ x.toBits.toNat
  let b := Binary.ofFloat x
  let magnitude :=
    if b.mantissa = 0 then "0.0".toList
    else
      let d := b.shortest
      let ds := digits d.coefficient
      l.place ds (d.exponent + ds.length - 1)
  if negative then '-' :: magnitude else magnitude

end Layout

end Wiring
