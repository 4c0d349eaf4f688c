import BugsLang.Numeral.Double
import BugsLang.Proofs.Numeral.Rounding
import Mathlib.Data.Rat.Floor
import Mathlib.Tactic.FieldSimp

/-!
# The nearest double

`nearestDouble?` finds the double that a number is rounded to. It rounds to a multiple of a power of
two, which is the distance of the doubles around the number. Smaller doubles need not be multiples
of it, but they are further away.

## Main definitions

* `IsSpacing v k`: the doubles around `v` are `2 ^ k` apart.
* `roundAt k v`: the multiple of `2 ^ k` nearest to `v`.

## Main statements

* `IsSpacing.roundsTo`: the nearest multiple is the nearest double.
* `nearestDouble?_eq_some_iff`, `nearestDouble?_eq_none_iff`: what `nearestDouble?` finds.
* `RoundsTo.of_between`, `RoundsTo.abs_sub_le`: the numbers that are rounded to a double lie around
  it without gaps, and not far from it.
-/

namespace BugsLang

variable {v w x y : Rat} {j k : Int}

/-! ## The nearest integer -/

/-- Rounding goes by one half at most, and by one half only to an even integer. -/
theorem roundHalfEven_cases (x : Rat) :
    |x - roundHalfEven x| < 1 / 2 ∨
      |x - roundHalfEven x| = 1 / 2 ∧ Even (roundHalfEven x) := by
  have hle : (x.floor : Rat) ≤ x := Rat.floor_le x
  have hlt : x < x.floor + 1 := by exact_mod_cast Rat.lt_floor_add_one x
  unfold roundHalfEven
  dsimp only
  split
  · left
    rw [abs_of_nonneg (by linarith)]
    assumption
  split
  · left
    push_cast
    rw [abs_of_neg (by linarith)]
    linarith
  -- what is left is a tie between the floor and the integer above it
  have htie : x - x.floor = 1 / 2 := by linarith
  right
  split
  · rename_i heven
    rw [htie]
    exact ⟨abs_of_pos (by norm_num), Int.even_iff.2 heven⟩
  · rename_i hodd
    push_cast
    rw [show x - (x.floor + 1) = -(1 / 2) by linarith, abs_neg]
    exact ⟨abs_of_pos (by norm_num), Int.even_add_one.2 (mt Int.even_iff.1 hodd)⟩

theorem abs_sub_roundHalfEven_le (x : Rat) : |x - roundHalfEven x| ≤ 1 / 2 := by
  rcases roundHalfEven_cases x with h | ⟨h, -⟩
  · exact h.le
  · exact h.le

/-- Two integers are at least one apart, so they share at least one of distance to any number. -/
theorem one_le_abs_sub_add_abs_sub {i j : Int} (hne : i ≠ j) (x : Rat) :
    1 ≤ |x - i| + |x - j| := by
  have hone : (1 : Rat) ≤ |(i : Rat) - j| := by
    exact_mod_cast Int.one_le_abs (sub_ne_zero.2 hne)
  have htriangle := abs_sub_le (i : Rat) x j
  rw [abs_sub_comm (i : Rat) x] at htriangle
  linarith

/-- No integer is nearer than the one that is rounded to. -/
theorem abs_sub_roundHalfEven_le_abs_sub (x : Rat) (j : Int) :
    |x - roundHalfEven x| ≤ |x - j| := by
  by_cases hne : roundHalfEven x = j
  · rw [hne]
  · have hone := one_le_abs_sub_add_abs_sub hne x
    have hhalf := abs_sub_roundHalfEven_le x
    linarith

/-- If another integer is equally near, the one that is rounded to is even. -/
theorem even_roundHalfEven (hne : j ≠ roundHalfEven x)
    (h : |x - j| = |x - roundHalfEven x|) : Even (roundHalfEven x) := by
  have hone := one_le_abs_sub_add_abs_sub hne x
  rcases roundHalfEven_cases x with hlt | ⟨-, heven⟩
  · linarith
  · exact heven

/-- What is at least an integer is rounded to no less. -/
theorem le_roundHalfEven (h : (j : Rat) ≤ x) : j ≤ roundHalfEven x := by
  have hhalf := abs_le.1 (abs_sub_roundHalfEven_le x)
  have hlt : (j : Rat) < roundHalfEven x + 1 := by linarith [hhalf.2]
  exact Int.lt_add_one_iff.1 (by exact_mod_cast hlt)

/-- What is less than an integer is rounded to no more. -/
theorem roundHalfEven_le (h : x < j) : roundHalfEven x ≤ j := by
  have hhalf := abs_le.1 (abs_sub_roundHalfEven_le x)
  have hlt : (roundHalfEven x : Rat) < j + 1 := by linarith [hhalf.1]
  exact Int.lt_add_one_iff.1 (by exact_mod_cast hlt)

/-- Half way below an even integer rounding goes up. -/
theorem le_roundHalfEven_of_even (hj : Even j) (h : j - 1 / 2 ≤ x) : j ≤ roundHalfEven x := by
  by_contra hlt
  have hbelow : (roundHalfEven x : Rat) ≤ j - 1 := by
    exact_mod_cast Int.le_sub_one_of_lt (not_le.1 hlt)
  have hhalf := abs_le.1 (abs_sub_roundHalfEven_le x)
  -- so `x` is half way between the two, and the lower one would be even as well
  have heq : (roundHalfEven x : Rat) = j - 1 := by linarith [hhalf.2]
  have hdist : |x - roundHalfEven x| = 1 / 2 := by
    rw [heq, abs_of_nonneg (by linarith)]
    linarith [hhalf.2]
  rcases roundHalfEven_cases x with hless | ⟨-, heven⟩
  · linarith
  · have hint : roundHalfEven x = j - 1 := by exact_mod_cast heq
    rw [hint] at heven
    exact absurd hj (Int.even_sub_one.1 heven)

/-! ## The binary exponent -/

/-- `floorLog2` finds the power of two at or below a number. -/
theorem floorLog2_bounds (hx : 0 < x) :
    (2 : Rat) ^ floorLog2 x ≤ x ∧ x < 2 ^ (floorLog2 x + 1) := by
  have hden : (0 : Rat) < x.den := by exact_mod_cast x.den_pos
  have hnum : 0 < x.num := Rat.num_pos.2 hx
  have hquotient : x = x.num.toNat / x.den := by
    have hcast : ((x.num.toNat : Nat) : Rat) = x.num := by
      exact_mod_cast Int.toNat_of_nonneg hnum.le
    rw [hcast, Rat.num_div_den]
  have hnumLower : (2 : Rat) ^ x.num.toNat.log2 ≤ x.num.toNat := by
    exact_mod_cast Nat.log2_self_le (by omega)
  have hnumUpper : (x.num.toNat : Rat) < 2 ^ (x.num.toNat.log2 + 1) := by
    exact_mod_cast Nat.lt_log2_self
  have hdenLower : (2 : Rat) ^ x.den.log2 ≤ x.den := by
    exact_mod_cast Nat.log2_self_le x.den_pos.ne'
  have hdenUpper : (x.den : Rat) < 2 ^ (x.den.log2 + 1) := by
    exact_mod_cast Nat.lt_log2_self
  unfold floorLog2
  generalize x.num.toNat.log2 = a at *
  generalize x.den.log2 = b at *
  have hguess : (2 : Rat) ^ ((a : Int) - b) = 2 ^ a / 2 ^ b := by
    rw [zpow_sub₀ (by norm_num), zpow_natCast, zpow_natCast]
  dsimp only
  split
  · rename_i hle
    refine ⟨hle, ?_⟩
    rw [zpow_add_one₀ (by norm_num), hguess]
    calc x = x.num.toNat / x.den := hquotient
      _ < 2 ^ (a + 1) / 2 ^ b := by gcongr
      _ = 2 ^ a / 2 ^ b * 2 := by ring
  · rename_i hlt
    refine ⟨?_, by rw [sub_add_cancel]; exact not_le.1 hlt⟩
    rw [zpow_sub_one₀ (by norm_num), hguess]
    calc (2 : Rat) ^ a / 2 ^ b * 2⁻¹ = 2 ^ a / 2 ^ (b + 1) := by ring
      _ ≤ x.num.toNat / x.den := by gcongr
      _ = x := hquotient.symm

/-! ## Multiples of a power of two -/

/-- A significand of 53 bits, or one more than that, can be stored if the number is less than
`2 ^ 1024`. So can one with fewer bits at the least exponent. -/
theorem exists_isStored {m : Nat} (hm : m ≤ 2 ^ 53) (hk : -1074 ≤ k)
    (hfull : 2 ^ 52 ≤ m ∨ k = -1074) (hlt : (m : Rat) * 2 ^ k < 2 ^ (1024 : Int)) :
    ∃ m' e, IsStored m' e ∧ (Even m → Even m') ∧ (m : Rat) * 2 ^ k = m' * 2 ^ e := by
  rcases hm.lt_or_eq with hm | rfl
  · refine ⟨m, k, ⟨hm, hfull, hk, ?_⟩, id, rfl⟩
    rcases hfull with hfull | rfl
    · by_contra hgreater
      have hcast : (2 : Rat) ^ 52 ≤ m := by exact_mod_cast hfull
      have hpos := two_zpow_pos k
      have hlarge : (2 : Rat) ^ (1024 : Int) ≤ m * 2 ^ k :=
        calc (2 : Rat) ^ (1024 : Int) ≤ 2 ^ 52 * 2 ^ k := two_zpow_le_two_pow_mul _ _ _ (by omega)
          _ ≤ m * 2 ^ k := by gcongr
      exact absurd hlt (not_lt.2 hlarge)
    · norm_num
  · -- the last bit moves to the exponent
    refine ⟨2 ^ 52, k + 1, ⟨by norm_num, .inl le_rfl, by omega, ?_⟩, fun _ => by decide, ?_⟩
    · by_contra hgreater
      have hlarge : (2 : Rat) ^ (1024 : Int) ≤ (2 ^ 53 : Nat) * 2 ^ k := by
        rw [Nat.cast_pow, Nat.cast_ofNat]
        exact two_zpow_le_two_pow_mul _ _ _ (by omega)
      exact absurd hlt (not_lt.2 hlarge)
    · rw [zpow_add_one₀ (by norm_num)]
      push_cast
      ring

/-- The doubles around `v` are `2 ^ k` apart, if they have 53 bits or the least exponent. -/
structure IsSpacing (v : Rat) (k : Int) : Prop where
  nonneg : 0 ≤ v
  least_le : -1074 ≤ k
  full : 2 ^ 52 * 2 ^ k ≤ v ∨ k = -1074
  lt : v < 2 ^ 53 * 2 ^ k

/-- The double that the rounding of `v` to multiples of `2 ^ k` gives, where it is one. -/
def roundAt (k : Int) (v : Rat) : Rat :=
  roundHalfEven (v / 2 ^ k) * 2 ^ k

theorem exists_isSpacing (hv : 0 < v) : ∃ k, doubleSpacing v = 2 ^ k ∧ IsSpacing v k := by
  obtain ⟨hlower, hupper⟩ := floorLog2_bounds hv
  refine ⟨max (-1074) (floorLog2 v - 52), rfl, hv.le, le_max_left _ _, ?_, ?_⟩
  · rcases le_total (floorLog2 v - 52) (-1074) with hsmall | hlarge
    · exact .inr (max_eq_left hsmall)
    · left
      rwa [max_eq_right hlarge, two_pow_mul_two_zpow 52 _ (floorLog2 v) (by push_cast; ring)]
  · calc v < 2 ^ (floorLog2 v + 1) := hupper
      _ = 2 ^ 53 * 2 ^ (floorLog2 v - 52) :=
          (two_pow_mul_two_zpow 53 _ _ (by push_cast; ring)).symm
      _ ≤ 2 ^ 53 * 2 ^ max (-1074) (floorLog2 v - 52) := by
          have := two_zpow_le (le_max_right (-1074) (floorLog2 v - 52))
          gcongr

theorem nearestDouble?_eq (hv : 0 < v) : ∃ k, IsSpacing v k ∧
    nearestDouble? v = if roundAt k v < 2 ^ (1024 : Int) then some (roundAt k v) else none := by
  obtain ⟨k, hspacing, hk⟩ := exists_isSpacing hv
  refine ⟨k, hk, ?_⟩
  rw [nearestDouble?, if_neg hv.ne', hspacing]
  rfl

/-- Distances in units of `2 ^ k`. -/
theorem abs_sub_mul_two_zpow (v r : Rat) (k : Int) :
    |v - r * 2 ^ k| = |v / 2 ^ k - r| * 2 ^ k := by
  have hpos := two_zpow_pos k
  rw [← abs_of_pos hpos, ← abs_mul, abs_of_pos hpos, sub_mul, div_mul_cancel₀ _ hpos.ne']

/-- Rounding goes by half a unit at most. -/
theorem abs_sub_roundAt_le (k : Int) (v : Rat) : |v - roundAt k v| ≤ 2 ^ k / 2 := by
  have hpos := two_zpow_pos k
  have hhalf := abs_sub_roundHalfEven_le (v / 2 ^ k)
  calc |v - roundAt k v| = |v / 2 ^ k - roundHalfEven (v / 2 ^ k)| * 2 ^ k :=
        abs_sub_mul_two_zpow ..
    _ ≤ 1 / 2 * 2 ^ k := by gcongr
    _ = 2 ^ k / 2 := by ring

/-- No multiple of the unit is nearer. -/
theorem abs_sub_roundAt_le_abs_sub (j k : Int) (v : Rat) :
    |v - roundAt k v| ≤ |v - j * 2 ^ k| := by
  have hpos := two_zpow_pos k
  rw [roundAt, abs_sub_mul_two_zpow, abs_sub_mul_two_zpow]
  have := abs_sub_roundHalfEven_le_abs_sub (v / 2 ^ k) j
  gcongr

/-- With the greatest unit, numbers are rounded up to the limit from half a unit below it. -/
theorem lt_overflowBound_iff_roundAt_lt :
    v < overflowBound ↔ roundAt 971 v < 2 ^ (1024 : Int) := by
  have hpos := two_zpow_pos 971
  have hmargin : (2 : Rat) ^ (971 : Int) = 2 * 2 ^ (970 : Int) := by
    rw [← two_pow_mul_two_zpow 1 970 971 rfl, pow_one]
  have hlimit : (2 : Rat) ^ (1024 : Int) = 2 ^ 53 * 2 ^ (971 : Int) :=
    (two_pow_mul_two_zpow 53 971 1024 rfl).symm
  have herror := abs_le.1 (abs_sub_roundAt_le 971 v)
  rw [overflowBound, hlimit, roundAt, mul_lt_mul_iff_left₀ hpos]
  rw [roundAt] at herror
  constructor
  · intro hlt
    by_contra hge
    have hproduct := mul_le_mul_of_nonneg_right (not_lt.1 hge) hpos.le
    generalize (2 : Rat) ^ (971 : Int) = unit at *
    linarith
  · intro hlt
    by_contra hge
    have hup : (2 ^ 53 : Int) ≤ roundHalfEven (v / 2 ^ (971 : Int)) := by
      apply le_roundHalfEven_of_even (by decide)
      rw [Int.cast_pow, Int.cast_ofNat, le_div_iff₀ hpos]
      generalize (2 : Rat) ^ (971 : Int) = unit at *
      linarith
    have hcast : ((2 ^ 53 : Int) : Rat) ≤ roundHalfEven (v / 2 ^ (971 : Int)) := by
      exact_mod_cast hup
    rw [Int.cast_pow, Int.cast_ofNat] at hcast
    exact absurd hlt (not_lt.2 hcast)

namespace IsSpacing

/-- The significand of the rounded number. It has 53 bits, or is one more than that. -/
theorem exists_significand (h : IsSpacing v k) :
    ∃ m : Nat, (m : Int) = roundHalfEven (v / 2 ^ k) ∧ m ≤ 2 ^ 53 ∧ (2 ^ 52 ≤ m ∨ k = -1074) := by
  have hpos := two_zpow_pos k
  have hnonneg : 0 ≤ roundHalfEven (v / 2 ^ k) :=
    le_roundHalfEven (by rw [Int.cast_zero]; exact div_nonneg h.nonneg hpos.le)
  have hupper : roundHalfEven (v / 2 ^ k) ≤ 2 ^ 53 := by
    apply roundHalfEven_le
    rw [div_lt_iff₀ hpos]
    push_cast
    exact h.lt
  refine ⟨(roundHalfEven (v / 2 ^ k)).toNat, Int.toNat_of_nonneg hnonneg, by omega, ?_⟩
  refine h.full.imp_left fun hfull => ?_
  have hlower : 2 ^ 52 ≤ roundHalfEven (v / 2 ^ k) := by
    apply le_roundHalfEven
    rw [le_div_iff₀ hpos]
    push_cast
    exact hfull
  omega

/-- The rounded number can be stored, with an even significand if it is an even multiple of the
unit. -/
theorem exists_isStored (h : IsSpacing v k) (hlt : roundAt k v < 2 ^ (1024 : Int)) :
    ∃ m e, IsStored m e ∧ (Even (roundHalfEven (v / 2 ^ k)) → Even m) ∧
      roundAt k v = m * 2 ^ e := by
  obtain ⟨m, hm, hle, hfull⟩ := h.exists_significand
  rw [roundAt, ← hm, Int.cast_natCast] at hlt ⊢
  rw [Int.even_coe_nat]
  exact BugsLang.exists_isStored hle h.least_le hfull hlt

/-- A double is a multiple of the unit, unless it is so small that a smaller unit goes with it. Then
the least number with 53 bits in this unit is nearer. -/
theorem exists_eq_mul_or_lt (h : IsSpacing v k) (hy : IsDouble y) :
    (∃ j : Int, y = j * 2 ^ k) ∨ |v - roundAt k v| < |v - y| := by
  obtain ⟨m, e, hm, hleast, -, rfl⟩ := hy
  rcases le_or_gt k e with hle | hlt
  · refine .inl ⟨(m * 2 ^ (e - k).toNat : Nat), ?_⟩
    rw [mul_two_zpow_eq hle]
    rfl
  · right
    have hsmall := mul_two_zpow_lt hm hlt
    have hfull := h.full.resolve_right (by omega)
    have hnear := abs_sub_roundAt_le_abs_sub (2 ^ 52) k v
    rw [Int.cast_pow, Int.cast_ofNat, abs_of_nonneg (sub_nonneg.2 hfull)] at hnear
    exact hnear.trans_lt ((sub_lt_sub_left hsmall v).trans_le (le_abs_self _))

/-- Numbers are too large from where they are rounded to `2 ^ 1024` or more. -/
theorem lt_overflowBound_iff (h : IsSpacing v k) :
    v < overflowBound ↔ roundAt k v < 2 ^ (1024 : Int) := by
  have hpos := two_zpow_pos k
  obtain ⟨m, hm, -, hfull⟩ := h.exists_significand
  rcases lt_trichotomy k 971 with hsmall | rfl | hlarge
  · -- far below the limit
    have hunit : (2 : Rat) ^ k ≤ 2 ^ (970 : Int) := two_zpow_le (by omega)
    have herror := abs_le.1 (abs_sub_roundAt_le k v)
    have hlt := h.lt
    have hlimit : (2 : Rat) ^ 54 * 2 ^ (970 : Int) = 2 ^ (1024 : Int) :=
      two_pow_mul_two_zpow 54 970 1024 rfl
    have hmargin := two_zpow_pos 970
    rw [overflowBound]
    generalize (2 : Rat) ^ (1024 : Int) = limit at *
    generalize (2 : Rat) ^ (970 : Int) = margin at *
    refine iff_of_true ?_ ?_
    · linarith
    · linarith
  · exact lt_overflowBound_iff_roundAt_lt
  · -- all 53 bits are needed, so the number and what it is rounded to reach the limit
    have hreach : (2 : Rat) ^ (1024 : Int) ≤ 2 ^ 52 * 2 ^ k :=
      two_zpow_le_two_pow_mul _ _ _ (by omega)
    have hv := h.full.resolve_right (by omega)
    have hsignificand : (2 : Rat) ^ 52 ≤ m := by
      exact_mod_cast hfull.resolve_right (by omega)
    refine iff_of_false (not_lt.2 ?_) (not_lt.2 ?_)
    · exact (sub_le_self _ (two_zpow_pos 970).le).trans (hreach.trans hv)
    · rw [roundAt, ← hm, Int.cast_natCast]
      exact hreach.trans (by gcongr)

end IsSpacing

theorem roundsTo_zero : RoundsTo 0 0 where
  lt_overflowBound := sub_pos.2 (zpow_lt_zpow_right₀ (by norm_num) (by norm_num))
  isDouble := isDouble_zero
  nearest y _ := by
    rw [sub_zero, abs_zero]
    exact abs_nonneg _
  even _ _ _ _ :=
    ⟨0, -1074, ⟨by norm_num, .inr rfl, le_rfl, by norm_num⟩, Even.zero, by simp⟩

theorem IsStored.isDouble {m : Nat} {e : Int} (h : IsStored m e) : IsDouble (m * 2 ^ e) :=
  ⟨m, e, h.lt, h.least_le, h.le_greatest, rfl⟩

theorem IsSpacing.roundsTo (h : IsSpacing v k) (hlt : roundAt k v < 2 ^ (1024 : Int)) :
    RoundsTo v (roundAt k v) where
  lt_overflowBound := h.lt_overflowBound_iff.2 hlt
  isDouble := by
    obtain ⟨m, e, hstored, -, heq⟩ := h.exists_isStored hlt
    rw [heq]
    exact hstored.isDouble
  nearest y hy := by
    obtain ⟨j, rfl⟩ | hfar := h.exists_eq_mul_or_lt hy
    · exact abs_sub_roundAt_le_abs_sub j k v
    · exact hfar.le
  even y hy hne heq := by
    obtain ⟨m, e, hstored, heven, hvalue⟩ := h.exists_isStored hlt
    refine ⟨m, e, hstored, heven ?_, hvalue⟩
    obtain ⟨j, rfl⟩ | hfar := h.exists_eq_mul_or_lt hy
    · have hpos := two_zpow_pos k
      rw [roundAt, abs_sub_mul_two_zpow, abs_sub_mul_two_zpow, mul_left_inj' hpos.ne'] at heq
      refine even_roundHalfEven ?_ heq
      rintro rfl
      exact hne rfl
    · exact absurd heq hfar.ne'

/-! ## The algorithm -/

/-- `nearestDouble?` finds a double that is nearest, or the number is too large. -/
theorem nearestDouble?_cases (hv : 0 ≤ v) :
    (∃ x, nearestDouble? v = some x ∧ RoundsTo v x) ∨
      nearestDouble? v = none ∧ overflowBound ≤ v := by
  rcases hv.eq_or_lt with rfl | hpos
  · exact .inl ⟨0, if_pos rfl, roundsTo_zero⟩
  · obtain ⟨k, hk, heq⟩ := nearestDouble?_eq hpos
    by_cases hlt : roundAt k v < 2 ^ (1024 : Int)
    · exact .inl ⟨_, heq.trans (if_pos hlt), hk.roundsTo hlt⟩
    · exact .inr ⟨heq.trans (if_neg hlt), not_lt.1 (mt hk.lt_overflowBound_iff.1 hlt)⟩

/-- What `nearestDouble?` finds is the double that the number is rounded to. -/
theorem nearestDouble?_eq_some_iff (hv : 0 ≤ v) : nearestDouble? v = some x ↔ RoundsTo v x := by
  rcases nearestDouble?_cases hv with ⟨y, heq, hy⟩ | ⟨heq, hlarge⟩
  · rw [heq]
    constructor
    · intro h
      rwa [← Option.some.inj h]
    · intro hx
      rw [hy.unique hx]
  · rw [heq]
    exact iff_of_false (fun h => nomatch h) fun hx => absurd hx.lt_overflowBound (not_lt.2 hlarge)

/-- `nearestDouble?` finds nothing where the number is too large. -/
theorem nearestDouble?_eq_none_iff (hv : 0 ≤ v) : nearestDouble? v = none ↔ overflowBound ≤ v := by
  rcases nearestDouble?_cases hv with ⟨y, heq, hy⟩ | ⟨heq, hlarge⟩
  · rw [heq]
    exact iff_of_false (fun h => nomatch h) (not_le.2 hy.lt_overflowBound)
  · exact iff_of_true heq hlarge

/-- What lies between two numbers that are rounded to a double is rounded to it. -/
theorem RoundsTo.of_between {u : Rat} (hu : RoundsTo u x) (hw : RoundsTo w x) (hv : 0 ≤ v)
    (huv : u ≤ v) (hvw : v ≤ w) : RoundsTo v x := by
  rcases nearestDouble?_cases hv with ⟨y, -, hy⟩ | ⟨-, hlarge⟩
  · rwa [le_antisymm (hu.mono hy huv) (hy.mono hw hvw)]
  · exact absurd hw.lt_overflowBound (not_lt.2 (hlarge.trans hvw))

/-- Rounding goes by half of the least positive double, or by one part in `2 ^ 53`, at most. -/
theorem RoundsTo.abs_sub_le (h : RoundsTo v x) (hv : 0 < v) :
    |v - x| ≤ max (2 ^ (-1075 : Int)) (v / 2 ^ 53) := by
  obtain ⟨k, hk, heq⟩ := nearestDouble?_eq hv
  rw [(nearestDouble?_eq_some_iff hv.le).2 h] at heq
  obtain rfl : x = roundAt k v := by
    split at heq
    · exact Option.some.inj heq
    · cases heq
  refine (abs_sub_roundAt_le k v).trans ?_
  rcases hk.full with hfull | rfl
  · refine le_max_of_le_right ?_
    linarith
  · refine le_max_of_le_left (le_of_eq ?_)
    rw [← two_pow_mul_two_zpow 1 (-1075) (-1074) rfl]
    ring

/-- From the least double with 53 bits on, rounding goes by one part in `2 ^ 53` at most. -/
theorem RoundsTo.abs_sub_le_div (h : RoundsTo v x) (hv : 2 ^ (-1022 : Int) ≤ v) :
    |v - x| ≤ v / 2 ^ 53 := by
  refine (h.abs_sub_le ((two_zpow_pos _).trans_le hv)).trans (max_le ?_ le_rfl)
  rw [le_div_iff₀ (by norm_num), mul_comm, two_pow_mul_two_zpow 53 (-1075) (-1022) rfl]
  exact hv

end BugsLang
