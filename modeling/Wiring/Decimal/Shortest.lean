/-!
# Shortest decimals

A finite binary floating-point number `m * 2 ^ q` stands for the interval of reals that round to it.
`shortest` finds the decimal with the fewest digits in that interval, and among those the nearest
to the number itself. All arithmetic is exact.
-/

namespace Wiring

/-- The number `coefficient * 10 ^ exponent`. -/
structure Decimal where
  coefficient : Nat
  exponent : Int
  deriving DecidableEq, Repr

/-- The magnitude of a finite double, `mantissa * 2 ^ exponent`, with the distances to the ends of
its rounding interval in quarters of a unit in the last place. -/
structure Binary where
  mantissa : Nat
  exponent : Int
  /-- Two quarters below, or one quarter at a power of two, where the spacing changes. -/
  below : Nat
  /-- Two quarters above. -/
  above : Nat := 2
  deriving DecidableEq, Repr

namespace Binary

/-- The magnitude of a double, from its bits. -/
def ofFloat (x : Float) : Binary :=
  let bits : Nat := x.toBits.toNat
  let fraction : Nat := bits % Nat.pow 2 52
  let biased : Nat := bits / Nat.pow 2 52 % Nat.pow 2 11
  if biased = 0 then ⟨fraction, -1074, 2, 2⟩
  else
    ⟨Nat.pow 2 52 + fraction, Int.ofNat biased - 1075,
      if fraction = 0 ∧ 1 < biased then 1 else 2, 2⟩

/-- `2 ^ e`, as a numerator and a denominator. -/
def powTwo (e : Int) : Nat × Nat :=
  if 0 ≤ e then (Nat.pow 2 e.toNat, 1) else (1, Nat.pow 2 (-e).toNat)

/-- `10 ^ k`, as a numerator and a denominator. -/
def powTen (k : Int) : Nat × Nat :=
  if 0 ≤ k then (Nat.pow 10 k.toNat, 1) else (1, Nat.pow 10 (-k).toNat)

/-- The best multiple of `10 ^ k` in the rounding interval, if there is one: the nearer of the two
that enclose the number, and of two equally near ones the even one. -/
def onGrid (b : Binary) (k : Int) : Option Decimal :=
  let (two, twoDen) := powTwo (b.exponent - 2)
  let (ten, tenDen) := powTen k
  let unit := ten * twoDen
  let quarter := two * tenDen
  let value := 4 * b.mantissa * quarter
  let low := (4 * b.mantissa - b.below) * quarter
  let high := (4 * b.mantissa + b.above) * quarter
  let inside (c : Nat) : Bool :=
    if b.mantissa % 2 = 0 then low ≤ c * unit ∧ c * unit ≤ high
    else low < c * unit ∧ c * unit < high
  let floor := value / unit
  let down := value - floor * unit
  let up := (floor + 1) * unit - value
  match inside floor, inside (floor + 1) with
  | false, false => none
  | true, false => some ⟨floor, k⟩
  | false, true => some ⟨floor + 1, k⟩
  | true, true =>
    some ⟨if down < up ∨ (down = up ∧ floor % 2 = 0) then floor else floor + 1, k⟩

/-- A power of ten above the number. -/
def decimalBound (b : Binary) : Int := (b.exponent + 53) * 30103 / 100000 + 2

/-- The decimal with the fewest digits that reads back as the number. Twenty grids are enough: the
spacing of doubles is never finer than seventeen digits. -/
def shortest (b : Binary) : Decimal :=
  ((List.range 20).findSome? fun i => b.onGrid (b.decimalBound - Int.ofNat i)).getD
    ⟨b.mantissa, b.exponent⟩

end Binary

end Wiring
