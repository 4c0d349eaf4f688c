import BugsLang.Proofs.Numeral.Canonical

/-!
# Numbers within double precision

Two decimals with at most 15 significant digits on the same grid are further apart than a double and
the numbers that are rounded to it. So such a decimal is the only one on its grid or a coarser one
that reads back as the double, and it is the one that is shown. Integers up to `2 ^ 53` are doubles
themselves, and no other integer below `2 ^ 53 + 2` is rounded to one of them but `2 ^ 53 + 1`.

## Main definitions

* `HasDigits k v`: the number has at most `k` significant digits.
* `WithinPrecision v`: the number comes back as it was written.

## Main statements

* `value_shortest_of_hasDigits`, `value_shortest_of_le`: nothing of the number is lost.
* `Numeral.canonical_eq_trimmed`: all digits are kept.
-/

namespace BugsLang

open Decimal

variable {v x : Rat} {d : Decimal} {n : Numeral}

/-- The number has at most `k` significant digits. -/
def HasDigits (k : Nat) (v : Rat) : Prop :=
  ∃ (c : Nat) (q : Int), c < 10 ^ k ∧ v = c * 10 ^ q

/-- The number is zero, or it has at most 15 significant digits and is not too small or too large,
or it is an integer of at most `2 ^ 53`. -/
def WithinPrecision (v : Rat) : Prop :=
  v = 0 ∨ (HasDigits 15 v ∧ 10 ^ (-307 : Int) ≤ v ∧ v < 10 ^ (308 : Int)) ∨
    ∃ i : Nat, i ≤ 2 ^ 53 ∧ v = i

/-! ## Fifteen digits -/

/-- Between these powers of ten no double is subnormal, and no number is too large. -/
theorem zpow_bounds :
    (2 : Rat) ^ (-1022 : Int) ≤ 10 ^ (-307 : Int) ∧ (10 : Rat) ^ (308 : Int) ≤ overflowBound := by
  decide +kernel

/-- Two numbers that are rounded to the same double are close together, if one of them is not too
small. -/
theorem abs_sub_le_of_roundsTo {w : Rat} (hv : RoundsTo v x) (hw : RoundsTo w x)
    (hlarge : 2 ^ (-1022 : Int) ≤ v) (hpos : 0 < w) : |w - v| ≤ 3 * v / 2 ^ 53 := by
  have hleast : (2 : Rat) ^ (-1075 : Int) ≤ v / 2 ^ 53 := by
    rw [le_div_iff₀ (by norm_num), mul_comm, two_pow_mul_two_zpow 53 (-1075) (-1022) rfl]
    exact hlarge
  have hvx := abs_le.1 (hv.abs_sub_le_div hlarge)
  have hwx := abs_le.1 (hw.abs_sub_le hpos)
  have hvpos : 0 < v := (two_zpow_pos _).trans_le hlarge
  -- the greater one is less than twice the other, so the error of both is known
  have herror : max ((2 : Rat) ^ (-1075 : Int)) (w / 2 ^ 53) ≤ 2 * v / 2 ^ 53 := by
    rcases max_cases ((2 : Rat) ^ (-1075 : Int)) (w / 2 ^ 53) with ⟨hmax, -⟩ | ⟨hmax, -⟩
    · rw [hmax]
      linarith
    · rw [hmax] at hwx ⊢
      linarith
  rw [abs_le]
  constructor <;> linarith

/-- A number with at most 15 significant digits is the shortest decimal of its double. -/
theorem value_shortest_of_hasDigits (hdigits : HasDigits 15 v) (hlarge : 10 ^ (-307 : Int) ≤ v)
    (hx : RoundsTo v x) : (shortest x).value = v := by
  obtain ⟨c, q, hc, rfl⟩ := hdigits
  have hpos := ten_zpow_pos q
  have hnormal : (2 : Rat) ^ (-1022 : Int) ≤ c * 10 ^ q := zpow_bounds.1.trans hlarge
  have hvpos : (0 : Rat) < c * 10 ^ q := (two_zpow_pos _).trans_le hnormal
  have hne : x ≠ 0 := by
    rintro rfl
    have := le_of_abs_le (hx.abs_sub_le_div hnormal)
    linarith
  have hshortest := isShortest_shortest hx.isDouble hne
  have hreads := readsAs_iff.1 hshortest.readsAs
  have hdpos : 0 < (shortest x).value := by
    refine lt_of_le_of_ne (value_nonneg _) ?_
    intro hzero
    rw [← hzero] at hreads
    exact hne (hreads.unique roundsTo_zero)
  have hnear := abs_sub_le_of_roundsTo hx hreads hnormal hdpos
  -- both numbers are on the grid of the given one, and their distance is less than its unit
  obtain ⟨j, hj⟩ := exists_value_eq (hshortest.coarsest ⟨c, q⟩ (readsAs_iff.2 hx))
  rw [hj, value] at hnear ⊢
  have hcast : (c : Rat) < 10 ^ 15 := by exact_mod_cast hc
  have hunit : |(j : Rat) * 10 ^ q - c * 10 ^ q| < 1 * 10 ^ q :=
    calc |(j : Rat) * 10 ^ q - c * 10 ^ q| ≤ 3 * (c * 10 ^ q) / 2 ^ 53 := hnear
      _ ≤ 3 * (10 ^ 15 * 10 ^ q) / 2 ^ 53 := by gcongr
      _ = 3 * 10 ^ 15 / 2 ^ 53 * 10 ^ q := by ring
      _ < 1 * 10 ^ q := by
          gcongr
          norm_num
  rw [← sub_mul, abs_mul, abs_of_pos hpos, mul_lt_mul_iff_left₀ hpos] at hunit
  have hsame : (j : Int) - c = 0 := Int.abs_lt_one_iff.1 (by exact_mod_cast hunit)
  rw [show j = c by omega]

/-! ## Integers -/

theorem isDouble_natCast {i : Nat} (hi : i ≤ 2 ^ 53) : IsDouble i := by
  rcases hi.lt_or_eq with hlt | rfl
  · exact ⟨i, 0, hlt, by norm_num, by norm_num, by rw [zpow_zero, mul_one]⟩
  · exact ⟨2 ^ 52, 1, by norm_num, by norm_num, by norm_num, by norm_num⟩

/-- An integer of at most `2 ^ 53` is the shortest decimal of its double. -/
theorem value_shortest_of_le {i : Nat} (hi : i ≤ 2 ^ 53) (hx : RoundsTo i x) :
    (shortest x).value = i := by
  have hdouble := isDouble_natCast hi
  obtain rfl : x = i := hx.unique hdouble.roundsTo
  by_cases hzero : (i : Rat) = 0
  · rw [hzero, shortest, if_pos rfl, value, Nat.cast_zero, zero_mul]
  have hshortest := isShortest_shortest hdouble hzero
  have hreads := readsAs_iff.1 hshortest.readsAs
  have hvalue : value ⟨i, 0⟩ = i := by rw [value, zpow_zero, mul_one]
  have hself : ReadsAs ⟨i, 0⟩ i := by
    rw [readsAs_iff, hvalue]
    exact hdouble.roundsTo
  rcases (hshortest.coarsest _ hself).eq_or_lt with hgrid | hcoarser
  · -- on the grid of the integers nothing is nearer
    have hnearest := hshortest.nearest _ hself hgrid
    rw [hvalue, sub_self, abs_zero] at hnearest
    exact sub_eq_zero.1 (abs_eq_zero.1 (le_antisymm hnearest (abs_nonneg _)))
  · -- on a coarser grid there is no other integer that is rounded to this one
    obtain ⟨j, hj⟩ := exists_value_eq (show 1 ≤ (shortest (i : Rat)).exponent from hcoarser)
    have hten : (shortest (i : Rat)).value = (10 * j : Nat) := by
      rw [hj, value, zpow_one]
      push_cast
      ring
    rw [hten] at hreads ⊢
    rcases Nat.lt_or_ge (2 ^ 53) (10 * j) with hlarge | hsmall
    · have hnext : IsDouble ((2 ^ 53 + 2 : Nat) : Rat) :=
        ⟨2 ^ 52 + 1, 1, by norm_num, by norm_num, by norm_num, by norm_num⟩
      have hle := hnext.roundsTo.mono hreads (by exact_mod_cast (by omega : 2 ^ 53 + 2 ≤ 10 * j))
      have : 2 ^ 53 + 2 ≤ i := by exact_mod_cast hle
      omega
    · exact (isDouble_natCast hsmall).roundsTo.unique hreads

/-! ## Numerals -/

namespace Numeral

theorem lt_overflowBound_of_withinPrecision (h : WithinPrecision v) : v < overflowBound := by
  rcases h with rfl | ⟨-, -, hlt⟩ | ⟨i, hi, rfl⟩
  · exact isDouble_zero.lt_overflowBound
  · exact hlt.trans_le zpow_bounds.2
  · exact (isDouble_natCast hi).lt_overflowBound

theorem value_shortest_of_withinPrecision (h : WithinPrecision v) (hx : RoundsTo v x) :
    (shortest x).value = v := by
  rcases h with rfl | ⟨hdigits, hlarge, -⟩ | ⟨i, hi, rfl⟩
  · exact_mod_cast value_shortest_of_le (i := 0) (Nat.zero_le _) (by exact_mod_cast hx)
  · exact value_shortest_of_hasDigits hdigits hlarge hx
  · exact value_shortest_of_le hi hx

/-- Within double precision the canonical form keeps all digits, less the zeros that can be left
out. -/
theorem canonical_eq_trimmed (hn : n.IsLiteral) (h : WithinPrecision n.value) :
    n.canonical = n.trimmed := by
  obtain ⟨x, hx⟩ := exists_roundsTo (lt_overflowBound_of_withinPrecision h)
  have hvalue : n.canonical.value = n.value := by
    rw [canonical_of_roundsTo hx, value_toNumeral, value_shortest_of_withinPrecision h hx]
  exact (isPlain_canonical hx).eq_of_value_eq (isPlain_trimmed hn)
    (hvalue.trans n.value_trimmed.symm)

end Numeral

end BugsLang
