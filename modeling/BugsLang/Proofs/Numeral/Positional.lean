import BugsLang.Numeral.Basic
import Mathlib.Algebra.Order.Field.Rat
import Mathlib.Data.List.DropRight
import Mathlib.Tactic.FieldSimp
import Mathlib.Tactic.IntervalCases
import Mathlib.Tactic.Linarith
import Mathlib.Tactic.Positivity
import Mathlib.Tactic.Ring

/-!
# Numerals in plain form

A numeral is in plain form if it has digits on either side of the point, and none of them is a zero
that could be left out. A number has one numeral in plain form at most, so that to know the value
is to know the digits. `Numeral.trimmed` leaves the zeros out that can be left out.

## Main definitions

* `Numeral.IsLiteral`: there are digits only, and one before the point.
* `Numeral.IsPlain`: a numeral in plain form.
* `Numeral.trimmed`: the plain form of a numeral.

## Main statements

* `Numeral.IsPlain.eq_of_value_eq`: a number has one plain form only.
* `Numeral.isPlain_trimmed`, `Numeral.value_trimmed`: the trimmed numeral is plain and denotes the
  same number.
-/

namespace BugsLang

variable {c : Char} {l u v : List Char} {k : Nat}

/-! ## Digits -/

theorem exists_digitChar_of_isDigit (h : c.isDigit = true) : ∃ d < 10, c = Nat.digitChar d := by
  simp only [Char.isDigit, Bool.and_eq_true, decide_eq_true_eq, ge_iff_le,
    UInt32.le_iff_toNat_le] at h
  have hlower : 48 ≤ c.toNat := h.1
  have hupper : c.toNat ≤ 57 := h.2
  have hchar : c = Char.ofNat c.toNat := (Char.ofNat_toNat c).symm
  refine ⟨c.toNat - 48, by omega, ?_⟩
  generalize c.toNat = n at *
  rw [hchar]
  interval_cases n <;> rfl

theorem ofDigitChars_append (u v : List Char) :
    Nat.ofDigitChars 10 (u ++ v) 0 =
      10 ^ v.length * Nat.ofDigitChars 10 u 0 + Nat.ofDigitChars 10 v 0 := by
  rw [Nat.ofDigitChars_append, Nat.ofDigitChars_eq_ofDigitChars_zero]

theorem ofDigitChars_digitChar_cons {d : Nat} (hd : d < 10) (l : List Char) :
    Nat.ofDigitChars 10 (Nat.digitChar d :: l) 0 =
      10 ^ l.length * d + Nat.ofDigitChars 10 l 0 := by
  rw [Nat.ofDigitChars_cons_digitChar_of_lt_ten hd, Nat.ofDigitChars_eq_ofDigitChars_zero,
    Nat.mul_zero, Nat.zero_add]

theorem ofDigitChars_append_digitChar {d : Nat} (hd : d < 10) (l : List Char) :
    Nat.ofDigitChars 10 (l ++ [Nat.digitChar d]) 0 = 10 * Nat.ofDigitChars 10 l 0 + d := by
  rw [Nat.ofDigitChars_append, Nat.ofDigitChars_cons_digitChar_of_lt_ten hd]
  rfl

/-- As many digits as there are bound the number. -/
theorem ofDigitChars_lt (h : ∀ c ∈ l, c.isDigit = true) :
    Nat.ofDigitChars 10 l 0 < 10 ^ l.length := by
  induction l with
  | nil => exact Nat.one_pos
  | cons c l ih =>
    obtain ⟨d, hd, rfl⟩ := exists_digitChar_of_isDigit (h c List.mem_cons_self)
    have hrest := ih fun b hb => h b (List.mem_cons_of_mem _ hb)
    rw [ofDigitChars_digitChar_cons hd, List.length_cons, pow_succ]
    nlinarith

/-- Digits that start with another one than zero do not denote zero. -/
theorem ofDigitChars_pos (h : ∀ c ∈ l, c.isDigit = true) (hne : l ≠ [])
    (hzero : l.head? ≠ some '0') : 0 < Nat.ofDigitChars 10 l 0 := by
  obtain ⟨c, l, rfl⟩ := List.exists_cons_of_ne_nil hne
  obtain ⟨d, hd, rfl⟩ := exists_digitChar_of_isDigit (h c List.mem_cons_self)
  have hpos : 0 < d := by
    rw [Nat.pos_iff_ne_zero]
    rintro rfl
    exact hzero rfl
  rw [ofDigitChars_digitChar_cons hd]
  positivity

/-- Digits without a zero in front that could be left out are those that the number is written
with. -/
theorem toDigits_ofDigitChars (h : ∀ c ∈ l, c.isDigit = true) (hne : l ≠ [])
    (hzero : l = ['0'] ∨ l.head? ≠ some '0') :
    Nat.toDigits 10 (Nat.ofDigitChars 10 l 0) = l := by
  rcases hzero with rfl | hzero
  · rfl
  induction l using List.reverseRecOn with
  | nil => exact absurd rfl hne
  | append_singleton l c ih =>
    obtain ⟨d, hd, rfl⟩ := exists_digitChar_of_isDigit (h c (by simp))
    rw [ofDigitChars_append_digitChar hd]
    have hdigit : Nat.toDigits 10 d = [Nat.digitChar d] := Nat.toDigits_of_lt_base hd
    by_cases hl : l = []
    · rw [hl, List.nil_append, ← hdigit]
      exact congrArg (Nat.toDigits 10) (Nat.zero_add d)
    · have hdigits : ∀ c ∈ l, c.isDigit = true := fun b hb => h b (List.mem_append_left _ hb)
      rw [List.head?_append_of_ne_nil _ hl] at hzero
      rw [← Nat.toDigits_append_toDigits (by norm_num) (ofDigitChars_pos hdigits hl hzero) hd,
        ih hdigits hl hzero, hdigit]

/-- As many digits that denote the same number are the same digits. -/
theorem eq_of_ofDigitChars_eq (hu : ∀ c ∈ u, c.isDigit = true) (hv : ∀ c ∈ v, c.isDigit = true)
    (hlength : u.length = v.length)
    (heq : Nat.ofDigitChars 10 u 0 = Nat.ofDigitChars 10 v 0) : u = v := by
  -- with a one in front the digits are those that a number is written with
  have hwritten {l : List Char} (hl : ∀ c ∈ l, c.isDigit = true) :
      Nat.toDigits 10 (Nat.ofDigitChars 10 (Nat.digitChar 1 :: l) 0) = Nat.digitChar 1 :: l :=
    toDigits_ofDigitChars (List.forall_mem_cons.2 ⟨rfl, hl⟩) (List.cons_ne_nil _ _)
      (.inr fun hhead => absurd (Option.some.inj hhead) (by decide))
  have hcons : Nat.ofDigitChars 10 (Nat.digitChar 1 :: u) 0 =
      Nat.ofDigitChars 10 (Nat.digitChar 1 :: v) 0 := by
    rw [ofDigitChars_digitChar_cons (by norm_num), ofDigitChars_digitChar_cons (by norm_num),
      hlength, heq]
  have hsame := hwritten hu
  rw [hcons, hwritten hv] at hsame
  exact (List.cons.inj hsame).2.symm

/-- A number that can be divided by ten ends with a zero. -/
theorem getLast?_eq_zero_of_dvd (h : ∀ c ∈ l, c.isDigit = true) (hne : l ≠ [])
    (hdvd : 10 ∣ Nat.ofDigitChars 10 l 0) : l.getLast? = some '0' := by
  obtain rfl | ⟨l, c, rfl⟩ := l.eq_nil_or_concat'
  · exact absurd rfl hne
  · obtain ⟨d, hd, rfl⟩ := exists_digitChar_of_isDigit (h c (by simp))
    rw [ofDigitChars_append_digitChar hd] at hdvd
    obtain rfl : d = 0 := by omega
    rw [List.getLast?_concat]
    rfl

/-! ## Values -/

namespace Numeral

variable {n n' : Numeral}

/-- There are digits only, and at least one of them comes before the point. -/
def IsLiteral (n : Numeral) : Prop :=
  n.whole ≠ [] ∧ ∀ c ∈ n.whole ++ n.fractionDigits, c.isDigit = true

/-- There are digits on either side of the point. A zero comes first before the point, or last
behind it, only where it is the only digit there. -/
structure IsPlain (n : Numeral) : Prop where
  isLiteral : n.IsLiteral
  whole : n.whole = ['0'] ∨ n.whole.head? ≠ some '0'
  fraction : ∃ digits, n.fraction = some digits ∧ digits ≠ [] ∧
    (digits = ['0'] ∨ digits.getLast? ≠ some '0')

theorem isLiteral_of_all (hne : n.whole ≠ [])
    (h : (n.whole ++ n.fractionDigits).all Char.isDigit = true) : n.IsLiteral :=
  ⟨hne, List.all_eq_true.1 h⟩

theorem IsLiteral.whole (h : n.IsLiteral) : ∀ c ∈ n.whole, c.isDigit = true :=
  fun c hc => h.2 c (List.mem_append_left _ hc)

theorem IsLiteral.fractionDigits (h : n.IsLiteral) : ∀ c ∈ n.fractionDigits, c.isDigit = true :=
  fun c hc => h.2 c (List.mem_append_right _ hc)

/-- The value is what the digits before the point denote and what those behind it add. -/
theorem value_eq_add (n : Numeral) :
    n.value = Nat.ofDigitChars 10 n.whole 0 +
      (Nat.ofDigitChars 10 n.fractionDigits 0 : Rat) / 10 ^ n.fractionDigits.length := by
  rw [value, ofDigitChars_append]
  push_cast
  field_simp

theorem value_nonneg (n : Numeral) : 0 ≤ n.value := by
  unfold value
  positivity

/-- What the digits behind the point add is less than one. -/
theorem IsLiteral.fraction_lt_one (h : n.IsLiteral) :
    (Nat.ofDigitChars 10 n.fractionDigits 0 : Rat) / 10 ^ n.fractionDigits.length < 1 := by
  rw [div_lt_one (by positivity)]
  exact_mod_cast ofDigitChars_lt h.fractionDigits

/-- The digits of two numerals of the same value denote the same on either side of the point. -/
theorem IsLiteral.parts_eq (h : n.IsLiteral) (h' : n'.IsLiteral) (heq : n.value = n'.value) :
    Nat.ofDigitChars 10 n.whole 0 = Nat.ofDigitChars 10 n'.whole 0 ∧
      Nat.ofDigitChars 10 n.fractionDigits 0 * 10 ^ n'.fractionDigits.length =
        Nat.ofDigitChars 10 n'.fractionDigits 0 * 10 ^ n.fractionDigits.length := by
  rw [value_eq_add, value_eq_add] at heq
  have hlt := h.fraction_lt_one
  have hlt' := h'.fraction_lt_one
  have hnonneg : 0 ≤ (Nat.ofDigitChars 10 n.fractionDigits 0 : Rat) /
    10 ^ n.fractionDigits.length := by positivity
  have hnonneg' : 0 ≤ (Nat.ofDigitChars 10 n'.fractionDigits 0 : Rat) /
    10 ^ n'.fractionDigits.length := by positivity
  have hwhole : Nat.ofDigitChars 10 n.whole 0 = Nat.ofDigitChars 10 n'.whole 0 := by
    apply Nat.le_antisymm
    · exact Nat.lt_succ_iff.1 (by exact_mod_cast (by linarith :
        (Nat.ofDigitChars 10 n.whole 0 : Rat) < Nat.ofDigitChars 10 n'.whole 0 + 1))
    · exact Nat.lt_succ_iff.1 (by exact_mod_cast (by linarith :
        (Nat.ofDigitChars 10 n'.whole 0 : Rat) < Nat.ofDigitChars 10 n.whole 0 + 1))
  refine ⟨hwhole, ?_⟩
  rw [hwhole, add_right_inj, div_eq_div_iff (by positivity) (by positivity)] at heq
  exact_mod_cast heq

/-- Of two plain numerals whose fractions are equal, none has more digits behind the point. -/
theorem IsPlain.length_fractionDigits_le (h : n.IsPlain) (h' : n'.IsPlain)
    (heq : Nat.ofDigitChars 10 n.fractionDigits 0 * 10 ^ n'.fractionDigits.length =
      Nat.ofDigitChars 10 n'.fractionDigits 0 * 10 ^ n.fractionDigits.length) :
    n'.fractionDigits.length ≤ n.fractionDigits.length := by
  have hdigits := h'.isLiteral.fractionDigits
  obtain ⟨whole, fraction⟩ := n
  obtain ⟨whole', fraction'⟩ := n'
  obtain ⟨digits, hfraction, hne, -⟩ := h.fraction
  obtain ⟨digits', hfraction', hne', hlast⟩ := h'.fraction
  obtain rfl : fraction = some digits := hfraction
  obtain rfl : fraction' = some digits' := hfraction'
  rw [fractionDigits_some, fractionDigits_some] at heq ⊢
  by_contra hlonger
  -- the digits that are too many can only be zeros, but then the last one could be left out
  obtain ⟨k, hk⟩ := Nat.exists_eq_add_of_lt (not_le.1 hlonger)
  have hdvd : 10 ∣ Nat.ofDigitChars 10 digits' 0 := by
    refine ⟨Nat.ofDigitChars 10 digits 0 * 10 ^ k, ?_⟩
    have hpos : 0 < 10 ^ digits.length := by positivity
    apply Nat.eq_of_mul_eq_mul_right hpos
    rw [← heq, hk, pow_add, pow_add]
    ring
  rcases hlast with rfl | hlast
  · have hpos := List.length_pos_iff.2 hne
    rw [List.length_singleton] at hlonger
    omega
  · exact hlast (getLast?_eq_zero_of_dvd hdigits hne' hdvd)

/-- A number has one plain form only. -/
theorem IsPlain.eq_of_value_eq (h : n.IsPlain) (h' : n'.IsPlain) (heq : n.value = n'.value) :
    n = n' := by
  obtain ⟨hwhole, hfraction⟩ := h.isLiteral.parts_eq h'.isLiteral heq
  have hlength : n.fractionDigits.length = n'.fractionDigits.length :=
    Nat.le_antisymm (h'.length_fractionDigits_le h hfraction.symm)
      (h.length_fractionDigits_le h' hfraction)
  rw [hlength] at hfraction
  have hdigits : n.fractionDigits = n'.fractionDigits :=
    eq_of_ofDigitChars_eq h.isLiteral.fractionDigits h'.isLiteral.fractionDigits hlength
      (Nat.eq_of_mul_eq_mul_right (by positivity) hfraction)
  have hsame : n.whole = n'.whole := by
    rw [← toDigits_ofDigitChars h.isLiteral.whole h.isLiteral.1 h.whole, hwhole,
      toDigits_ofDigitChars h'.isLiteral.whole h'.isLiteral.1 h'.whole]
  obtain ⟨whole, fraction⟩ := n
  obtain ⟨whole', fraction'⟩ := n'
  obtain ⟨digits, hsome, -⟩ := h.fraction
  obtain ⟨digits', hsome', -⟩ := h'.fraction
  obtain rfl : fraction = some digits := hsome
  obtain rfl : fraction' = some digits' := hsome'
  rw [fractionDigits_some, fractionDigits_some] at hdigits
  rw [hdigits]
  exact congrArg (Numeral.mk · (some digits')) hsame

/-! ## Leaving zeros out -/

/-- The digits, or a zero where there are none. -/
def orZero (digits : List Char) : List Char :=
  if digits = [] then ['0'] else digits

/-- The numeral with a point and digits on either side, and without zeros that can be left out. -/
def trimmed (n : Numeral) : Numeral :=
  ⟨orZero (n.whole.dropWhile (· = '0')),
    some (orZero (n.fractionDigits.rdropWhile (· = '0')))⟩

theorem orZero_of_ne_nil {digits : List Char} (h : digits ≠ []) : orZero digits = digits :=
  if_neg h

theorem orZero_ne_nil (digits : List Char) : orZero digits ≠ [] := by
  rcases eq_or_ne digits [] with rfl | hne
  · exact List.cons_ne_nil _ _
  · rwa [orZero_of_ne_nil hne]

theorem isDigit_of_mem_orZero {digits : List Char} (h : ∀ c ∈ digits, c.isDigit = true) :
    ∀ c ∈ orZero digits, c.isDigit = true := by
  rcases eq_or_ne digits [] with rfl | hne
  · intro c hc
    rw [List.mem_singleton.1 hc]
    rfl
  · rwa [orZero_of_ne_nil hne]

theorem ofDigitChars_orZero (l : List Char) :
    Nat.ofDigitChars 10 (orZero l) 0 = Nat.ofDigitChars 10 l 0 := by
  rcases eq_or_ne l [] with rfl | hne
  · rfl
  · rw [orZero_of_ne_nil hne]

theorem fraction_orZero (l : List Char) :
    (Nat.ofDigitChars 10 (orZero l) 0 : Rat) / 10 ^ (orZero l).length =
      (Nat.ofDigitChars 10 l 0 : Rat) / 10 ^ l.length := by
  rw [ofDigitChars_orZero]
  rcases eq_or_ne l [] with rfl | hne
  · rw [Nat.ofDigitChars_nil, Nat.cast_zero, zero_div, zero_div]
  · rw [orZero_of_ne_nil hne]

theorem isPlain_trimmed (h : n.IsLiteral) : n.trimmed.IsPlain where
  isLiteral := by
    refine ⟨orZero_ne_nil _, ?_⟩
    intro c hc
    rcases List.mem_append.1 hc with hc | hc
    · exact isDigit_of_mem_orZero
        (fun d hd => h.whole d ((List.dropWhile_sublist _).subset hd)) c hc
    · exact isDigit_of_mem_orZero
        (fun d hd => h.fractionDigits d ((List.rdropWhile_prefix _ _).subset hd)) c hc
  whole := by
    show orZero _ = _ ∨ (orZero _).head? ≠ _
    rcases eq_or_ne (n.whole.dropWhile (· = '0')) [] with hnil | hne
    · rw [hnil]
      exact .inl rfl
    · rw [orZero_of_ne_nil hne]
      right
      intro hhead
      have hfirst := List.head?_dropWhile_not (· = '0') n.whole
      rw [hhead] at hfirst
      exact absurd hfirst (by decide)
  fraction := by
    refine ⟨_, rfl, orZero_ne_nil _, ?_⟩
    rcases eq_or_ne (n.fractionDigits.rdropWhile (· = '0')) [] with hnil | hne
    · rw [hnil]
      exact .inl rfl
    · rw [orZero_of_ne_nil hne]
      right
      rw [List.getLast?_eq_some_getLast hne]
      intro hlast
      exact List.rdropWhile_last_not _ _ hne (decide_eq_true (Option.some.inj hlast))

theorem ofDigitChars_dropWhile_zero (l : List Char) :
    Nat.ofDigitChars 10 (l.dropWhile (· = '0')) 0 = Nat.ofDigitChars 10 l 0 := by
  induction l with
  | nil => rfl
  | cons c l ih =>
    by_cases hc : c = '0'
    · subst hc
      rw [List.dropWhile_cons_of_pos (by decide), ih]
      rfl
    · rw [List.dropWhile_cons_of_neg (by simpa using hc)]

/-- What digits add behind the point does not change with zeros at their end. -/
theorem fraction_rdropWhile_zero (l : List Char) :
    (Nat.ofDigitChars 10 (l.rdropWhile (· = '0')) 0 : Rat) /
        10 ^ (l.rdropWhile (· = '0')).length =
      (Nat.ofDigitChars 10 l 0 : Rat) / 10 ^ l.length := by
  induction l using List.reverseRecOn with
  | nil => rfl
  | append_singleton l c ih =>
    by_cases hc : c = '0'
    · subst hc
      rw [List.rdropWhile_concat_pos _ _ _ (by decide), ih]
      have happend := ofDigitChars_append_digitChar (d := 0) (by norm_num) l
      rw [show Nat.digitChar 0 = '0' from rfl] at happend
      rw [happend, List.length_append, List.length_singleton, pow_succ]
      push_cast
      field_simp
      ring
    · rw [List.rdropWhile_concat_neg _ _ _ (by simpa using hc)]

theorem value_trimmed (n : Numeral) : n.trimmed.value = n.value := by
  rw [value_eq_add, value_eq_add, trimmed, fractionDigits_some, fraction_orZero,
    ofDigitChars_orZero, ofDigitChars_dropWhile_zero, fraction_rdropWhile_zero]

end Numeral

end BugsLang
