import BugsLang.Numeral.Double

/-!
# Shortest decimals

`Decimal.shortest x` is the shortest decimal that reads back as the double `x`: of the grids of
multiples of a power of ten, the coarsest that has a point which rounds to `x`, and on it the point
nearest to `x`, the upper one at an exact tie.

If any point of a grid rounds to `x`, then so does one of the two grid points around `x`, because
the numbers that round to `x` form an interval. So only those two are tried.
-/

namespace BugsLang

/-- A decimal in scaled form, `coefficient * 10 ^ exponent`. -/
structure Decimal where
  /-- The digits, read as one number. -/
  coefficient : Nat
  /-- The power of ten that the last digit counts. -/
  exponent : Int
deriving DecidableEq, Repr

namespace Decimal

/-- The number that the decimal denotes. -/
def value (d : Decimal) : Rat :=
  (d.coefficient : Nat) * 10 ^ d.exponent

/-- A decimal reads back as `x` when `x` is the double nearest to it. -/
abbrev ReadsAs (d : Decimal) (x : Rat) : Prop :=
  nearestDouble? d.value = some x

/-- The better of the two multiples of `10 ^ exponent` around `x`, if any of them reads back. -/
def onGrid? (x : Rat) (exponent : Int) : Option Decimal :=
  let n := (x / 10 ^ exponent).floor.toNat
  let lower : Decimal := ⟨n, exponent⟩
  let upper : Decimal := ⟨n + 1, exponent⟩
  if lower.ReadsAs x then
    if upper.ReadsAs x ∧ upper.value - x ≤ x - lower.value then some upper else some lower
  else if upper.ReadsAs x then
    some upper
  else
    none

/-- The first hit on the grids of `10 ^ (steps - 1074)` and finer. Every double is a multiple of
`10 ^ (-1074)`, so the last grid holds `x` itself. -/
def search (x : Rat) : (steps : Nat) → Decimal
  | 0 => ⟨(x * 10 ^ (1074 : Int)).floor.toNat, -1074⟩
  | steps + 1 =>
    match onGrid? x ((steps + 1 : Nat) - 1074) with
    | some d => d
    | none => search x steps

/-- The shortest decimal that reads back as the double `x`. -/
def shortest (x : Rat) : Decimal :=
  if x = 0 then
    ⟨0, 0⟩
  else
    -- the power of ten with one digit more than the integer part lies above `x`
    search x (1074 + (Nat.toDigits 10 x.floor.toNat).length)

end Decimal

end BugsLang
