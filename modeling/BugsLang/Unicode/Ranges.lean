/-!
# Code point ranges

A Unicode property is a table of closed ranges in ascending order. `inRanges` decides membership,
and stops at the first range above the code point, so characters near the start of a table are
decided in a few steps.
-/

namespace BugsLang.Unicode

/-- Whether `n` lies in one of the ranges of an ascending table. -/
def inRanges (n : Nat) : List (Nat × Nat) → Bool
  | [] => false
  | (lo, hi) :: rest => if n < lo then false else if n ≤ hi then true else inRanges n rest

/-- A range that starts above `n` settles that `n` is not in the table. -/
theorem inRanges_cons_of_lt {n lo hi : Nat} {rest : List (Nat × Nat)} (h : n < lo) :
    inRanges n ((lo, hi) :: rest) = false := by
  simp [inRanges, h]

/-- Below the end of the first range the first range decides. -/
theorem inRanges_cons_of_le {n lo hi : Nat} {rest : List (Nat × Nat)} (h : n ≤ hi) :
    inRanges n ((lo, hi) :: rest) = decide (lo ≤ n) := by
  by_cases hlo : n < lo
  · simp [inRanges, hlo]
  · simp [inRanges, hlo, h, Nat.le_of_not_lt hlo]

end BugsLang.Unicode
