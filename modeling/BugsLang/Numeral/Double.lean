/-!
# Nearest doubles

The finite binary64 numbers that are not negative, as rationals: the multiples `m * 2 ^ e` with
`m < 2 ^ 53` and `-1074 ≤ e ≤ 971`. `nearestDouble? x` is the one nearest to `x`, and of two
equally near ones that with even `m`; it is `none` where `x` rounds beyond the greatest of them.

All arithmetic is exact, so nothing rests on the floating-point unit.
-/

namespace BugsLang

/-- The integer nearest to `x`, and of two equally near ones the even one. -/
def roundHalfEven (x : Rat) : Int :=
  let n := x.floor
  let excess := x - n
  if excess < 1 / 2 then n
  else if 1 / 2 < excess then n + 1
  else if n % 2 = 0 then n
  else n + 1

/-- The exponent of the greatest power of two that is at most `x`, for positive `x`. -/
def floorLog2 (x : Rat) : Int :=
  -- numerator and denominator bound the quotient within a factor of two on either side
  let guess : Int := (x.num.toNat.log2 : Int) - (x.den.log2 : Int)
  if (2 : Rat) ^ guess ≤ x then guess else guess - 1

/-- The distance between the doubles around a positive `x`: there are 53 significant bits, and
nothing is finer than `2 ^ (-1074)`. -/
def doubleSpacing (x : Rat) : Rat :=
  2 ^ max (-1074) (floorLog2 x - 52)

/-- The double nearest to `x`, ties to even, for `x` that is not negative; `none` where the nearest
would be `2 ^ 1024` or more. -/
def nearestDouble? (x : Rat) : Option Rat :=
  if x = 0 then
    some 0
  else
    let spacing := doubleSpacing x
    let rounded : Rat := roundHalfEven (x / spacing) * spacing
    if rounded < 2 ^ (1024 : Int) then some rounded else none

end BugsLang
