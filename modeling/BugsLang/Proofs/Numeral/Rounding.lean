import Mathlib.Algebra.Order.Field.Power
import Mathlib.Tactic.Linarith
import Mathlib.Tactic.NormNum
import Mathlib.Tactic.Positivity
import Mathlib.Tactic.Ring

/-!
# Rounding to doubles

What it is to be the double nearest to a number is said here without an algorithm: no double is
nearer, and where another one is equally near, the significand is even. Numbers from half the last
gap below `2 ^ 1024` on are too large. That rounding is monotone, and leaves doubles alone, follows
from this description.

## Main definitions

* `IsDouble x`: the finite doubles that are not negative.
* `overflowBound`: the least number that is too large.
* `RoundsTo v x`: `x` is the double nearest to `v`, ties to even.

## Main statements

* `RoundsTo.unique`, `RoundsTo.mono`, `IsDouble.roundsTo`: laws of rounding.
-/

namespace BugsLang

variable {v w x y : Rat} {j k : Int}

/-! ## Powers of two -/

theorem two_zpow_pos (k : Int) : (0 : Rat) < 2 ^ k :=
  zpow_pos (by norm_num) k

theorem two_zpow_le (h : j ≤ k) : (2 : Rat) ^ j ≤ 2 ^ k :=
  zpow_le_zpow_right₀ (by norm_num) h

theorem two_pow_mul_two_zpow (n : Nat) (j k : Int) (h : n + j = k) :
    (2 : Rat) ^ n * 2 ^ j = 2 ^ k := by
  rw [← h, zpow_add₀ (by norm_num), zpow_natCast]

theorem two_zpow_le_two_pow_mul (n : Nat) (j k : Int) (h : k ≤ n + j) :
    (2 : Rat) ^ k ≤ 2 ^ n * 2 ^ j := by
  rw [two_pow_mul_two_zpow n j _ rfl]
  exact two_zpow_le h

/-! ## Doubles -/

/-- The finite doubles that are not negative: a significand of at most 53 bits times a power of two
between `2 ^ (-1074)` and `2 ^ 971`. -/
def IsDouble (x : Rat) : Prop :=
  ∃ (m : Nat) (e : Int), m < 2 ^ 53 ∧ -1074 ≤ e ∧ e ≤ 971 ∧ x = m * 2 ^ e

/-- A significand and an exponent as they are stored: there are 53 bits, or fewer at the least
exponent. -/
structure IsStored (m : Nat) (e : Int) : Prop where
  lt : m < 2 ^ 53
  full : 2 ^ 52 ≤ m ∨ e = -1074
  least_le : -1074 ≤ e
  le_greatest : e ≤ 971

/-- The double is stored with an even significand. -/
def HasEvenSignificand (x : Rat) : Prop :=
  ∃ (m : Nat) (e : Int), IsStored m e ∧ Even m ∧ x = m * 2 ^ e

/-- The least number that is too large for a double, half way between the greatest double and
`2 ^ 1024`. -/
def overflowBound : Rat :=
  2 ^ (1024 : Int) - 2 ^ (970 : Int)

/-- `x` is the double nearest to `v`, and of two equally near ones that with the even significand;
`v` is not too large. -/
structure RoundsTo (v x : Rat) : Prop where
  lt_overflowBound : v < overflowBound
  isDouble : IsDouble x
  nearest : ∀ y, IsDouble y → |v - x| ≤ |v - y|
  even : ∀ y, IsDouble y → y ≠ x → |v - y| = |v - x| → HasEvenSignificand x

theorem isDouble_zero : IsDouble 0 :=
  ⟨0, 0, by norm_num, by norm_num, by norm_num, by norm_num⟩

theorem IsDouble.nonneg (h : IsDouble x) : 0 ≤ x := by
  obtain ⟨m, e, -, -, -, rfl⟩ := h
  have := two_zpow_pos e
  positivity

/-- No double is too large. -/
theorem IsDouble.lt_overflowBound (h : IsDouble x) : x < overflowBound := by
  obtain ⟨m, e, hm, -, he, rfl⟩ := h
  have hpow := two_zpow_le he
  have hcast : (m : Rat) ≤ 2 ^ 53 - 1 := by
    have hsucc : (m : Rat) + 1 ≤ 2 ^ 53 := by exact_mod_cast hm
    linarith
  have hmargin := two_pow_mul_two_zpow 1 970 971 rfl
  have hlimit := two_pow_mul_two_zpow 53 971 1024 rfl
  have hpos := two_zpow_pos 970
  have hpos' := two_zpow_pos e
  rw [overflowBound, ← hlimit, ← hmargin]
  rw [← hmargin] at hpow
  generalize (2 : Rat) ^ (970 : Int) = margin at *
  have hle : (m : Rat) * 2 ^ e ≤ (2 ^ 53 - 1) * (2 ^ 1 * margin) := by gcongr
  linarith only [hle, hpos]

/-- The double is a multiple of each power of two that is not greater than the one it is made
with. -/
theorem mul_two_zpow_eq {m : Nat} (h : j ≤ k) :
    (m : Rat) * 2 ^ k = ((m * 2 ^ (k - j).toNat : Nat) : Rat) * 2 ^ j := by
  rw [← two_pow_mul_two_zpow (k - j).toNat j k (by omega)]
  push_cast
  ring

/-- With a smaller power of two than one that takes all 53 bits, a double is smaller. -/
theorem mul_two_zpow_lt {m : Nat} (hm : m < 2 ^ 53) (h : j < k) :
    (m : Rat) * 2 ^ j < 2 ^ 52 * 2 ^ k := by
  have hcast : (m : Rat) < 2 ^ 53 := by exact_mod_cast hm
  calc (m : Rat) * 2 ^ j < 2 ^ 53 * 2 ^ j := by
        have := two_zpow_pos j
        gcongr
    _ = 2 ^ 52 * 2 ^ (j + 1) := by
        rw [zpow_add_one₀ (by norm_num)]
        ring
    _ ≤ 2 ^ 52 * 2 ^ k := by
        have := two_zpow_le (show j + 1 ≤ k by omega)
        gcongr

/-! ## Laws of rounding -/

/-- A number that is not nearer to the greater of two numbers is not above their middle. -/
theorem two_mul_le_add (hlt : x < y) (h : |v - x| ≤ |v - y|) : 2 * v ≤ x + y := by
  have hsquares := sq_le_sq.2 h
  by_contra habove
  nlinarith [mul_pos (sub_pos.2 hlt) (sub_pos.2 (not_le.1 habove))]

/-- A number that is not nearer to the smaller of two numbers is not below their middle. -/
theorem add_le_two_mul (hlt : x < y) (h : |v - y| ≤ |v - x|) : x + y ≤ 2 * v := by
  have hsquares := sq_le_sq.2 h
  by_contra hbelow
  nlinarith [mul_pos (sub_pos.2 hlt) (sub_pos.2 (not_le.1 hbelow))]

/-- Of two doubles that are equally near, not both have an even significand. -/
theorem not_lt_of_roundsTo (hx : RoundsTo v x) (hy : RoundsTo v y) : ¬ x < y := by
  intro hlt
  have heq : |v - x| = |v - y| := le_antisymm (hx.nearest y hy.isDouble) (hy.nearest x hx.isDouble)
  have habove : x + y ≤ 2 * v := add_le_two_mul hlt heq.ge
  obtain ⟨m, e, hstored, hm, rfl⟩ := hx.even y hy.isDouble hlt.ne' heq.symm
  obtain ⟨m', e', hstored', hm', rfl⟩ := hy.even _ hx.isDouble hlt.ne heq
  have hpos := two_zpow_pos e
  -- the greater double is a multiple of the unit of the smaller one
  have hle : e ≤ e' := by
    by_contra hless
    have hfull : (2 : Rat) ^ 52 ≤ m := by
      have := hstored'.least_le
      exact_mod_cast hstored.full.resolve_right (by omega)
    have hsmall := mul_two_zpow_lt hstored'.lt (not_le.1 hless)
    have hlarge : (2 : Rat) ^ 52 * 2 ^ e ≤ m * 2 ^ e := by gcongr
    exact absurd hlt (not_lt.2 (hsmall.le.trans hlarge))
  have hj : Even (m' * 2 ^ (e' - e).toNat) := hm'.mul_right _
  rw [mul_two_zpow_eq hle] at hlt habove
  generalize m' * 2 ^ (e' - e).toNat = j at *
  -- both multiples are even, so there is an odd one between them, and that is nearer
  have hmj : m < j := by exact_mod_cast lt_of_mul_lt_mul_right hlt hpos.le
  obtain ⟨a, rfl⟩ := hm
  obtain ⟨b, rfl⟩ := hj
  have hdouble : IsDouble ((a + a + 1 : Nat) * 2 ^ e) := by
    have := hstored.lt
    exact ⟨a + a + 1, e, by omega, hstored.least_le, hstored.le_greatest, rfl⟩
  have hleft : ((a + a : Nat) : Rat) * 2 ^ e < (a + a + 1 : Nat) * 2 ^ e :=
    mul_lt_mul_of_pos_right (Nat.cast_lt.2 (by omega)) hpos
  have hright : ((a + a + 1 : Nat) : Rat) * 2 ^ e < (b + b : Nat) * 2 ^ e :=
    mul_lt_mul_of_pos_right (Nat.cast_lt.2 (by omega)) hpos
  have hbelow := two_mul_le_add hleft (hx.nearest _ hdouble)
  linarith

/-- A number is rounded to one double only. -/
theorem RoundsTo.unique (hx : RoundsTo v x) (hy : RoundsTo v y) : x = y :=
  le_antisymm (not_lt.1 (not_lt_of_roundsTo hy hx)) (not_lt.1 (not_lt_of_roundsTo hx hy))

/-- Rounding is monotone. -/
theorem RoundsTo.mono (hx : RoundsTo v x) (hy : RoundsTo w y) (hle : v ≤ w) : x ≤ y := by
  by_contra hgt
  have hv := add_le_two_mul (not_le.1 hgt) (hx.nearest y hy.isDouble)
  have hw := two_mul_le_add (not_le.1 hgt) (hy.nearest x hx.isDouble)
  obtain rfl : v = w := by linarith
  exact hgt (hx.unique hy).le

/-- A double is rounded to itself. -/
theorem IsDouble.roundsTo (h : IsDouble x) : RoundsTo x x where
  lt_overflowBound := h.lt_overflowBound
  isDouble := h
  nearest y _ := by
    rw [sub_self, abs_zero]
    exact abs_nonneg _
  even y _ hne heq := by
    rw [sub_self, abs_zero, abs_eq_zero, sub_eq_zero] at heq
    exact absurd heq.symm hne

end BugsLang
