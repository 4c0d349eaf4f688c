import BugsLang.Numeral.Shortest
import BugsLang.Proofs.Numeral.NearestDouble

/-!
# The shortest decimal of a double

`Decimal.shortest` finds a decimal that reads back as the double, on the coarsest grid that has one,
and nearest to the double on that grid. Such a decimal has no zero at its end, and no decimal that
reads back has fewer digits.

## Main definitions

* `Decimal.IsShortest x d`: what the shortest decimal of `x` is, said without a search.

## Main statements

* `Decimal.isShortest_shortest`: the search finds it.
* `Decimal.IsShortest.length_toDigits_le`: it has the fewest digits.
-/

namespace BugsLang

namespace Decimal

variable {x y : Rat} {c : Nat} {e j k : Int} {d d' : Decimal}

/-- The decimal reads back as `x`. No decimal on a coarser grid does, and of those on its own grid
that do it is nearest to `x`. -/
structure IsShortest (x : Rat) (d : Decimal) : Prop where
  readsAs : d.ReadsAs x
  coarsest : ∀ d' : Decimal, d'.ReadsAs x → d'.exponent ≤ d.exponent
  nearest : ∀ d' : Decimal, d'.ReadsAs x → d'.exponent = d.exponent →
    |d.value - x| ≤ |d'.value - x|

/-! ## Decimals -/

theorem ten_zpow_pos (k : Int) : (0 : Rat) < 10 ^ k :=
  zpow_pos (by norm_num) k

theorem value_nonneg (d : Decimal) : 0 ≤ d.value := by
  have := ten_zpow_pos d.exponent
  unfold value
  positivity

theorem readsAs_iff : d.ReadsAs x ↔ RoundsTo d.value x :=
  nearestDouble?_eq_some_iff d.value_nonneg

/-- With its coefficient made ten times as great, a decimal is one on the next finer grid. -/
theorem value_ten_mul (c : Nat) (k : Int) : (⟨10 * c, k⟩ : Decimal).value = value ⟨c, k + 1⟩ := by
  unfold value
  rw [zpow_add_one₀ (by norm_num)]
  push_cast
  ring

/-- A decimal is on each finer grid. -/
theorem exists_value_eq (h : j ≤ d.exponent) : ∃ c : Nat, d.value = value ⟨c, j⟩ := by
  refine ⟨d.coefficient * 10 ^ (d.exponent - j).toNat, ?_⟩
  have hexponent : d.exponent = ((d.exponent - j).toNat : Int) + j := by omega
  unfold value
  conv_lhs => rw [hexponent, zpow_add₀ (by norm_num), zpow_natCast]
  push_cast
  ring

theorem value_le_value (h : c ≤ d.coefficient) : value ⟨c, d.exponent⟩ ≤ d.value := by
  have hpos := ten_zpow_pos d.exponent
  have hcast : (c : Rat) ≤ d.coefficient := by exact_mod_cast h
  unfold value
  gcongr

/-! ## One grid -/

/-- A number lies between two neighbors on the grid. -/
theorem lower_le_lt_upper (hx : 0 ≤ x) (e : Int) :
    value ⟨(x / 10 ^ e).floor.toNat, e⟩ ≤ x ∧ x < value ⟨(x / 10 ^ e).floor.toNat + 1, e⟩ := by
  have hpos := ten_zpow_pos e
  have hnonneg : 0 ≤ (x / 10 ^ e).floor := Rat.le_floor_iff.2 (by
    rw [Int.cast_zero]
    exact div_nonneg hx hpos.le)
  have hcast : (((x / 10 ^ e).floor.toNat : Nat) : Rat) = (x / 10 ^ e).floor := by
    exact_mod_cast Int.toNat_of_nonneg hnonneg
  have hle := Rat.floor_le (x / 10 ^ e)
  have hlt := Rat.lt_floor_add_one (x / 10 ^ e)
  unfold value
  push_cast at hlt ⊢
  rw [hcast]
  exact ⟨(le_div_iff₀ hpos).1 hle, (div_lt_iff₀ hpos).1 hlt⟩

/-- What lies between `x` and a decimal that reads back reads back as well, and it is no further
away. -/
theorem readsAs_of_between (hx : IsDouble x) (hd : d.ReadsAs x)
    (h : d.value ≤ d'.value ∧ d'.value ≤ x ∨ x ≤ d'.value ∧ d'.value ≤ d.value) :
    d'.ReadsAs x ∧ |d'.value - x| ≤ |d.value - x| := by
  rw [readsAs_iff] at hd ⊢
  rcases h with ⟨hlower, hupper⟩ | ⟨hlower, hupper⟩
  · refine ⟨hd.of_between hx.roundsTo d'.value_nonneg hlower hupper, ?_⟩
    rw [abs_of_nonpos (by linarith), abs_of_nonpos (by linarith)]
    linarith
  · refine ⟨hx.roundsTo.of_between hd d'.value_nonneg hlower hupper, ?_⟩
    rw [abs_of_nonneg (by linarith), abs_of_nonneg (by linarith)]
    linarith

/-- If a point of the grid reads back, one of the two neighbors does, and it is no further away. -/
theorem neighbor_readsAs (hx : IsDouble x) (hd : ReadsAs ⟨c, e⟩ x) :
    let lower : Decimal := ⟨(x / 10 ^ e).floor.toNat, e⟩
    let upper : Decimal := ⟨(x / 10 ^ e).floor.toNat + 1, e⟩
    (lower.ReadsAs x ∧ |lower.value - x| ≤ |value ⟨c, e⟩ - x|) ∨
      (upper.ReadsAs x ∧ |upper.value - x| ≤ |value ⟨c, e⟩ - x|) := by
  intro lower upper
  obtain ⟨hle, hlt⟩ := lower_le_lt_upper hx.nonneg e
  rcases Nat.lt_or_ge lower.coefficient c with hc | hc
  · exact .inr (readsAs_of_between hx hd (.inr ⟨hlt.le, value_le_value (d := ⟨c, e⟩) hc⟩))
  · exact .inl (readsAs_of_between hx hd (.inl ⟨value_le_value (d := lower) hc, hle⟩))

/-- On one grid the search finds the point that reads back and is nearest, if there is any. -/
theorem onGrid?_cases (hx : IsDouble x) (e : Int) :
    (∃ d, onGrid? x e = some d ∧ d.exponent = e ∧ d.ReadsAs x ∧
        ∀ c, ReadsAs ⟨c, e⟩ x → |d.value - x| ≤ |value ⟨c, e⟩ - x|) ∨
      onGrid? x e = none ∧ ∀ c, ¬ ReadsAs ⟨c, e⟩ x := by
  have hneighbor (c : Nat) (hc : ReadsAs ⟨c, e⟩ x) := neighbor_readsAs hx hc
  obtain ⟨hle, hlt⟩ := lower_le_lt_upper hx.nonneg e
  unfold onGrid?
  dsimp only at hneighbor ⊢
  have hlower : (⟨(x / 10 ^ e).floor.toNat, e⟩ : Decimal).exponent = e := rfl
  have hupper : (⟨(x / 10 ^ e).floor.toNat + 1, e⟩ : Decimal).exponent = e := rfl
  generalize (⟨(x / 10 ^ e).floor.toNat, e⟩ : Decimal) = lower at *
  generalize (⟨(x / 10 ^ e).floor.toNat + 1, e⟩ : Decimal) = upper at *
  rw [abs_of_nonpos (sub_nonpos.2 hle), abs_of_pos (sub_pos.2 hlt)] at hneighbor
  by_cases hreadsLower : lower.ReadsAs x
  · rw [if_pos hreadsLower]
    by_cases hcloser : upper.ReadsAs x ∧ upper.value - x ≤ x - lower.value
    · rw [if_pos hcloser]
      refine .inl ⟨upper, rfl, hupper, hcloser.1, ?_⟩
      intro c hc
      rw [abs_of_pos (sub_pos.2 hlt)]
      rcases hneighbor c hc with ⟨-, hdist⟩ | ⟨-, hdist⟩
      · linarith [hcloser.2]
      · exact hdist
    · rw [if_neg hcloser]
      refine .inl ⟨lower, rfl, hlower, hreadsLower, ?_⟩
      intro c hc
      rw [abs_of_nonpos (sub_nonpos.2 hle)]
      rcases hneighbor c hc with ⟨-, hdist⟩ | ⟨hreads, hdist⟩
      · exact hdist
      · have hfarther := not_le.1 fun h => hcloser ⟨hreads, h⟩
        linarith
  · rw [if_neg hreadsLower]
    by_cases hreadsUpper : upper.ReadsAs x
    · rw [if_pos hreadsUpper]
      refine .inl ⟨upper, rfl, hupper, hreadsUpper, ?_⟩
      intro c hc
      rw [abs_of_pos (sub_pos.2 hlt)]
      exact ((hneighbor c hc).resolve_left fun h => hreadsLower h.1).2
    · rw [if_neg hreadsUpper]
      refine .inr ⟨rfl, ?_⟩
      intro c hc
      rcases hneighbor c hc with ⟨hreads, -⟩ | ⟨hreads, -⟩
      · exact hreadsLower hreads
      · exact hreadsUpper hreads

/-! ## The search -/

theorem search_zero : search x 0 = ⟨(x * 10 ^ (1074 : Int)).floor.toNat, -1074⟩ := rfl

theorem search_succ (steps : Nat) :
    search x (steps + 1) =
      match onGrid? x ((steps + 1 : Nat) - 1074) with
      | some d => d
      | none => search x steps := rfl

theorem five_pow_mul_ten_zpow_neg (n : Nat) : (5 : Rat) ^ n * 10 ^ (-n : Int) = 2 ^ (-n : Int) := by
  rw [zpow_neg, zpow_neg, zpow_natCast, zpow_natCast, show (10 : Rat) = 5 * 2 by norm_num, mul_pow,
    mul_inv, mul_inv_cancel_left₀ (pow_ne_zero n (by norm_num))]

/-- A double is a decimal on the finest grid. -/
theorem exists_eq_value_finest (hx : IsDouble x) : ∃ c : Nat, x = value ⟨c, -1074⟩ := by
  obtain ⟨m, e, -, he, -, rfl⟩ := hx
  refine ⟨m * 2 ^ (e - -1074).toNat * 5 ^ 1074, ?_⟩
  have hpower : (5 : Rat) ^ 1074 * 10 ^ (-1074 : Int) = 2 ^ (-1074 : Int) :=
    five_pow_mul_ten_zpow_neg 1074
  rw [mul_two_zpow_eq he, value, ← hpower, ← mul_assoc, Nat.cast_mul _ (5 ^ 1074), Nat.cast_pow 5,
    Nat.cast_ofNat]

/-- On the finest grid the search comes back with the double itself. -/
theorem value_search_zero (hx : IsDouble x) : (search x 0).value = x := by
  obtain ⟨c, hc⟩ := exists_eq_value_finest hx
  have hscaled : x * 10 ^ (1074 : Int) = (c : Int) := by
    rw [hc, value, mul_assoc, ← zpow_add₀ (by norm_num), Int.cast_natCast]
    exact mul_one _
  rw [search_zero, hscaled, Rat.floor_intCast, Int.toNat_natCast, ← hc]

/-- The search finds the best of all decimals that are not on coarser grids than the first one. -/
theorem search_best (hx : IsDouble x) (steps : Nat) :
    (search x steps).ReadsAs x ∧
      ∀ d : Decimal, d.ReadsAs x → d.exponent ≤ (steps : Int) - 1074 →
        d.exponent ≤ (search x steps).exponent ∧
          (d.exponent = (search x steps).exponent →
            |(search x steps).value - x| ≤ |d.value - x|) := by
  induction steps with
  | zero =>
    have hvalue := value_search_zero hx
    refine ⟨?_, ?_⟩
    · rw [readsAs_iff, hvalue]
      exact hx.roundsTo
    · intro d _ hd
      refine ⟨hd, fun _ => ?_⟩
      rw [hvalue, sub_self, abs_zero]
      exact abs_nonneg _
  | succ steps ih =>
    rw [search_succ]
    obtain ⟨d, hfound, hexponent, hreads, hnearest⟩ | ⟨hnone, hno⟩ :=
      onGrid?_cases hx ((steps + 1 : Nat) - 1074)
    · rw [hfound]
      refine ⟨hreads, ?_⟩
      intro d' hd' hle
      rw [hexponent]
      refine ⟨hle, ?_⟩
      intro heq
      obtain ⟨c, e⟩ := d'
      obtain rfl : e = (steps + 1 : Nat) - 1074 := heq
      exact hnearest c hd'
    · rw [hnone]
      refine ⟨ih.1, ?_⟩
      intro d hd hle
      -- the decimal is not on the grid where nothing was found
      have hne : d.exponent ≠ (steps + 1 : Nat) - 1074 := by
        intro heq
        apply hno d.coefficient
        rwa [← heq]
      exact ih.2 d hd (by push_cast at hle hne; omega)

/-- The search starts with a grid of which no point but zero is below twice the double. -/
theorem exponent_le_of_readsAs (hx : 0 < x) (hd : d.ReadsAs x) :
    d.exponent ≤ (Nat.toDigits 10 x.floor.toNat).length := by
  by_contra hgreater
  generalize hlength : (Nat.toDigits 10 x.floor.toNat).length = digits at hgreater
  rw [readsAs_iff] at hd
  have hbelow : x < 10 ^ digits := by
    have hdigits : x.floor.toNat < 10 ^ digits :=
      (Nat.length_toDigits_le_iff (by norm_num) (hlength ▸ Nat.length_toDigits_pos)).1 hlength.le
    have hfloor : x.floor + 1 ≤ (10 ^ digits : Nat) := by omega
    calc x < ((x.floor + 1 : Int) : Rat) := Rat.lt_floor_add_one x
      _ ≤ ((10 ^ digits : Nat) : Int) := by exact_mod_cast hfloor
      _ = 10 ^ digits := by push_cast; rfl
  -- zero would read back as zero, and any other point of the grid is too large
  have hcoefficient : 1 ≤ d.coefficient := by
    rw [Nat.one_le_iff_ne_zero]
    intro hzero
    rw [value, hzero, Nat.cast_zero, zero_mul] at hd
    exact hx.ne (roundsTo_zero.unique hd)
  have habove : 10 * 10 ^ digits ≤ d.value :=
    calc (10 : Rat) * 10 ^ digits = 10 ^ ((digits : Int) + 1) := by
          rw [zpow_add_one₀ (by norm_num), zpow_natCast, mul_comm]
      _ ≤ 10 ^ d.exponent := zpow_le_zpow_right₀ (by norm_num) (by omega)
      _ ≤ d.coefficient * 10 ^ d.exponent :=
          le_mul_of_one_le_left (ten_zpow_pos _).le (by exact_mod_cast hcoefficient)
  have hone : (1 : Rat) ≤ 10 ^ digits := one_le_pow₀ (by norm_num)
  have hleast : (2 : Rat) ^ (-1022 : Int) ≤ 1 := zpow_le_one_of_nonpos₀ (by norm_num) (by norm_num)
  have hdist := le_of_abs_le (hd.abs_sub_le_div (by linarith))
  linarith

/-- The search finds the shortest decimal of the double. -/
theorem isShortest_shortest (hx : IsDouble x) (hne : x ≠ 0) : IsShortest x (shortest x) := by
  have hpos : 0 < x := lt_of_le_of_ne hx.nonneg hne.symm
  rw [shortest, if_neg hne]
  obtain ⟨hreads, hbest⟩ := search_best hx (1074 + (Nat.toDigits 10 x.floor.toNat).length)
  have hall (d : Decimal) (hd : d.ReadsAs x) := hbest d hd (by
    have := exponent_le_of_readsAs hpos hd
    push_cast
    omega)
  exact ⟨hreads, fun d hd => (hall d hd).1, fun d hd => (hall d hd).2⟩

/-- What the search comes back with reads back as the double. -/
theorem readsAs_shortest (hx : IsDouble x) : (shortest x).ReadsAs x := by
  by_cases hne : x = 0
  · rw [readsAs_iff, hne, shortest, if_pos rfl, value, Nat.cast_zero, zero_mul]
    exact roundsTo_zero
  · exact (isShortest_shortest hx hne).readsAs

/-! ## Digits -/

namespace IsShortest

/-- The shortest decimal has no zero at its end. -/
theorem coefficient_mod_ten_ne_zero (h : IsShortest x d) : d.coefficient % 10 ≠ 0 := by
  intro hzero
  -- without the zero the same number would be on a coarser grid
  have heq : d.value = value ⟨d.coefficient / 10, d.exponent + 1⟩ := by
    rw [← value_ten_mul, Nat.mul_div_cancel' (Nat.dvd_of_mod_eq_zero hzero)]
  have hreads : ReadsAs ⟨d.coefficient / 10, d.exponent + 1⟩ x := by
    rw [ReadsAs, ← heq]
    exact h.readsAs
  have hle : d.exponent + 1 ≤ d.exponent := h.coarsest _ hreads
  omega

/-- No decimal that reads back has fewer digits. -/
theorem length_toDigits_le (h : IsShortest x d) (hd : d'.ReadsAs x) :
    (Nat.toDigits 10 d.coefficient).length ≤ (Nat.toDigits 10 d'.coefficient).length := by
  have hpos : 0 < (Nat.toDigits 10 d'.coefficient).length := Nat.length_toDigits_pos
  have hfew : d'.coefficient < 10 ^ (Nat.toDigits 10 d'.coefficient).length :=
    (Nat.length_toDigits_le_iff (by norm_num) hpos).1 le_rfl
  generalize (Nat.toDigits 10 d'.coefficient).length = n at *
  rw [Nat.length_toDigits_le_iff (by norm_num) hpos]
  by_contra hmany
  -- a power of ten would lie between the two decimals, and read back on a coarser grid
  let power : Decimal := ⟨1, d.exponent + n⟩
  have hpower : power.value = 10 ^ n * 10 ^ d.exponent := by
    rw [value, zpow_add₀ (by norm_num), zpow_natCast]
    ring
  have hd'pos := ten_zpow_pos d'.exponent
  have hdpos := ten_zpow_pos d.exponent
  have hlower : d'.value ≤ power.value := by
    have hcast : (d'.coefficient : Rat) ≤ 10 ^ n := by exact_mod_cast hfew.le
    have hgrid : (10 : Rat) ^ d'.exponent ≤ 10 ^ d.exponent :=
      zpow_le_zpow_right₀ (by norm_num) (h.coarsest d' hd)
    rw [hpower, value]
    gcongr
  have hupper : power.value ≤ d.value := by
    have hcast : (10 : Rat) ^ n ≤ d.coefficient := by exact_mod_cast not_lt.1 hmany
    rw [hpower, value]
    gcongr
  have hreads : power.ReadsAs x :=
    readsAs_iff.2 ((readsAs_iff.1 hd).of_between (readsAs_iff.1 h.readsAs) power.value_nonneg
      hlower hupper)
  have hle : d.exponent + n ≤ d.exponent := h.coarsest power hreads
  omega

end IsShortest

end Decimal

end BugsLang
