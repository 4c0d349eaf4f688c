import BugsLang.Numeral.Canonical
import BugsLang.Proofs.Numeral.Positional
import BugsLang.Proofs.Numeral.Shortest

/-!
# Canonical numerals

The canonical form of a numeral that is not too large is the shortest decimal of the double that
the numeral is rounded to, in plain form. So it is rounded to the same double, and it is the
canonical form of all numerals that are. A numeral that is too large keeps its value.

## Main statements

* `Decimal.value_toNumeral`, `Decimal.isPlain_toNumeral`: decimals in positional notation.
* `Numeral.canonical_of_roundsTo`, `Numeral.canonical_of_overflow`: the two cases.
* `Numeral.canonical_canonical`: the canonical form is its own.
-/

namespace BugsLang

variable {c k : Nat} {x : Rat} {d : Decimal} {n : Numeral}

/-! ## The digits of a number -/

theorem isDigit_toDigits (c : Nat) : ∀ b ∈ Nat.toDigits 10 c, b.isDigit = true :=
  fun _ hb => Nat.isDigit_of_mem_toDigits (by norm_num) le_rfl hb

/-- A number other than zero is not written with a zero in front. -/
theorem head?_toDigits_ne_zero (hc : 0 < c) : (Nat.toDigits 10 c).head? ≠ some '0' := by
  intro hhead
  obtain ⟨l, hl⟩ := List.head?_eq_some_iff.1 hhead
  have hvalue : Nat.ofDigitChars 10 l 0 = c := by
    have h := @Nat.ofDigitChars_ten_toDigits c
    rw [hl] at h
    exact h
  -- the digits behind the zero would be enough
  have hdigits : ∀ b ∈ l, b.isDigit = true := by
    intro b hb
    apply isDigit_toDigits c
    rw [hl]
    exact List.mem_cons_of_mem _ hb
  have hlt := ofDigitChars_lt hdigits
  rw [hvalue] at hlt
  have hpos : 0 < l.length := by
    rw [List.length_pos_iff]
    rintro rfl
    exact hc.ne hvalue
  have hle := (Nat.length_toDigits_le_iff (by norm_num) hpos).2 hlt
  rw [hl, List.length_cons] at hle
  omega

theorem getLast?_toDigits (c : Nat) :
    (Nat.toDigits 10 c).getLast? = some (Nat.digitChar (c % 10)) := by
  rw [Nat.toDigits_eq_if (by norm_num)]
  split
  · rename_i hlt
    rw [Nat.mod_eq_of_lt hlt]
    rfl
  · exact List.getLast?_concat

theorem digitChar_ne_zero {d : Nat} (hd : d < 10) (hne : d ≠ 0) : Nat.digitChar d ≠ '0' := by
  interval_cases d
  · exact absurd rfl hne
  all_goals decide

/-! ## Positional notation -/

namespace Decimal

/-- The digits of a decimal behind whose point there are `k + 1` of them, with zeros in front so
that one more comes before the point. -/
theorem leftpad_toDigits (c k : Nat) :
    let padded := (Nat.toDigits 10 c).leftpad (k + 2) '0'
    k + 2 ≤ padded.length ∧ (∀ b ∈ padded, b.isDigit = true) ∧
      Nat.ofDigitChars 10 padded 0 = c := by
  intro padded
  refine ⟨?_, ?_, ?_⟩
  · rw [List.length_leftpad]
    exact le_max_left _ _
  · intro b hb
    rcases List.mem_append.1 hb with hb | hb
    · rw [List.eq_of_mem_replicate hb]
      rfl
    · exact isDigit_toDigits c b hb
  · rw [show padded = List.replicate _ '0' ++ Nat.toDigits 10 c from rfl, Nat.ofDigitChars_append,
      Nat.ofDigitChars_replicate_zero, Nat.mul_zero, Nat.ofDigitChars_ten_toDigits]

/-- To write a decimal in positional notation does not change its value. -/
theorem value_toNumeral (d : Decimal) : d.toNumeral.value = d.value := by
  obtain ⟨c, e⟩ := d
  cases e with
  | ofNat zeros =>
    show Numeral.value ⟨Nat.toDigits 10 c ++ List.replicate zeros '0', some ['0']⟩ = _
    rw [Numeral.value_eq_add, Nat.ofDigitChars_append, Nat.ofDigitChars_ten_toDigits,
      Nat.ofDigitChars_replicate_zero, value]
    show _ + ((0 : Nat) : Rat) / _ = (c : Rat) * 10 ^ ((zeros : Nat) : Int)
    rw [zpow_natCast]
    push_cast
    ring
  | negSucc k =>
    obtain ⟨hlength, -, hvalue⟩ := leftpad_toDigits c k
    rw [toNumeral, value]
    dsimp only at hlength hvalue ⊢
    generalize (Nat.toDigits 10 c).leftpad (k + 2) '0' = padded at *
    rw [Numeral.value, Numeral.fractionDigits_some, List.take_append_drop, hvalue,
      List.length_drop, show padded.length - (padded.length - (k + 1)) = k + 1 by omega,
      zpow_negSucc, div_eq_mul_inv]

theorem isPlain_toNumeral_ofNat (hc : 0 < c) (zeros : Nat) :
    (toNumeral ⟨c, .ofNat zeros⟩).IsPlain := by
  have hne : Nat.toDigits 10 c ++ List.replicate zeros '0' ≠ [] :=
    List.append_ne_nil_of_left_ne_nil Nat.toDigits_ne_nil _
  refine ⟨⟨hne, ?_⟩, .inr ?_, ['0'], rfl, List.cons_ne_nil _ _, .inl rfl⟩
  · intro b hb
    rcases List.mem_append.1 hb with hb | hb
    · rcases List.mem_append.1 hb with hb | hb
      · exact isDigit_toDigits c b hb
      · rw [List.eq_of_mem_replicate hb]
        rfl
    · rw [List.mem_singleton.1 hb]
      rfl
  · show (Nat.toDigits 10 c ++ _).head? ≠ _
    rw [List.head?_append_of_ne_nil _ Nat.toDigits_ne_nil]
    exact head?_toDigits_ne_zero hc

/-- With zeros in front, a number other than zero is just as long as asked for. -/
theorem head?_leftpad (hc : 0 < c) (n : Nat) :
    ((Nat.toDigits 10 c).leftpad n '0').length = n ∨
      ((Nat.toDigits 10 c).leftpad n '0').head? ≠ some '0' := by
  rcases Nat.lt_or_ge (Nat.toDigits 10 c).length n with hfew | hmany
  · left
    rw [List.length_leftpad]
    omega
  · right
    rw [List.leftpad, Nat.sub_eq_zero_of_le hmany]
    exact head?_toDigits_ne_zero hc

theorem isPlain_toNumeral_negSucc (hc : c % 10 ≠ 0) (k : Nat) :
    (toNumeral ⟨c, .negSucc k⟩).IsPlain := by
  have hpos : 0 < c := by omega
  obtain ⟨hlength, hdigits, -⟩ := leftpad_toDigits c k
  have hfirst := head?_leftpad hpos (k + 2)
  have hlast : ((Nat.toDigits 10 c).leftpad (k + 2) '0').getLast? ≠ some '0' := by
    rw [List.leftpad, List.getLast?_append, getLast?_toDigits]
    intro h
    exact digitChar_ne_zero (Nat.mod_lt c (by norm_num)) hc (Option.some.inj h)
  rw [toNumeral]
  dsimp only at hlength hdigits ⊢
  generalize (Nat.toDigits 10 c).leftpad (k + 2) '0' = padded at *
  refine ⟨⟨?_, ?_⟩, ?_, _, rfl, ?_, .inr ?_⟩
  · rw [← List.length_pos_iff, List.length_take]
    omega
  · rw [Numeral.fractionDigits_some, List.take_append_drop]
    exact hdigits
  · show padded.take _ = _ ∨ (padded.take _).head? ≠ _
    obtain ⟨b, rest, rfl⟩ := List.exists_cons_of_length_pos (by omega : 0 < padded.length)
    obtain ⟨point, hpoint⟩ : ∃ point, (b :: rest).length - (k + 1) = point + 1 :=
      ⟨(b :: rest).length - (k + 1) - 1, by omega⟩
    rw [hpoint, List.take_succ_cons, List.head?_cons]
    -- a zero comes in front only where it is the one before the point
    rcases hfirst with htwo | hne
    · obtain rfl : point = 0 := by omega
      rw [List.take_zero]
      by_cases hb : b = '0'
      · exact .inl (congrArg (fun d => [d]) hb)
      · exact .inr fun h => hb (Option.some.inj h)
    · exact .inr hne
  · rw [← List.length_pos_iff, List.length_drop]
    omega
  · rwa [List.getLast?_drop, if_neg (by omega)]

/-- A decimal without a zero at its end is in plain form in positional notation. So is zero. -/
theorem isPlain_toNumeral (h : d.coefficient % 10 ≠ 0 ∨ d = ⟨0, 0⟩) : d.toNumeral.IsPlain := by
  rcases h with h | rfl
  · obtain ⟨c, e⟩ := d
    cases e with
    | ofNat zeros =>
      have hpos : 0 < c := Nat.pos_of_ne_zero fun hc => h (by simp [hc])
      exact isPlain_toNumeral_ofNat hpos zeros
    | negSucc k => exact isPlain_toNumeral_negSucc h k
  · have hliteral : (toNumeral ⟨0, 0⟩).IsLiteral :=
      Numeral.isLiteral_of_all (List.cons_ne_nil _ _) rfl
    exact ⟨hliteral, .inl rfl, ['0'], rfl, List.cons_ne_nil _ _, .inl rfl⟩

end Decimal

/-! ## Canonical forms -/

namespace Numeral

open Decimal

/-- The canonical form of a numeral that is rounded to a double is made from that double alone. -/
theorem canonical_of_roundsTo (h : RoundsTo n.value x) : n.canonical = (shortest x).toNumeral := by
  rw [canonical, (nearestDouble?_eq_some_iff n.value_nonneg).2 h]

theorem canonical_of_overflow (h : overflowBound ≤ n.value) :
    n.canonical = ⟨n.whole, some (orZero n.fractionDigits)⟩ := by
  rw [canonical, (nearestDouble?_eq_none_iff n.value_nonneg).2 h]
  cases n.fractionDigits <;> rfl

/-- It is rounded to the same double as the numeral. -/
theorem roundsTo_canonical (h : RoundsTo n.value x) : RoundsTo n.canonical.value x := by
  rw [canonical_of_roundsTo h, value_toNumeral]
  exact readsAs_iff.1 (readsAs_shortest h.isDouble)

/-- It is in plain form. -/
theorem isPlain_canonical (h : RoundsTo n.value x) : n.canonical.IsPlain := by
  rw [canonical_of_roundsTo h]
  apply isPlain_toNumeral
  by_cases hne : x = 0
  · exact .inr (if_pos hne)
  · exact .inl (isShortest_shortest h.isDouble hne).coefficient_mod_ten_ne_zero

/-- A numeral that is too large keeps its value. -/
theorem value_canonical_of_overflow (h : overflowBound ≤ n.value) :
    n.canonical.value = n.value := by
  rw [canonical_of_overflow h, value_eq_add, value_eq_add, fractionDigits_some, fraction_orZero]

theorem exists_roundsTo (h : n.value < overflowBound) : ∃ x, RoundsTo n.value x := by
  rcases nearestDouble?_cases n.value_nonneg with ⟨x, -, hx⟩ | ⟨-, hlarge⟩
  · exact ⟨x, hx⟩
  · exact absurd h (not_lt.2 hlarge)

/-- The canonical form has digits on either side of the point. -/
theorem exists_canonical_eq (hn : n.IsLiteral) :
    ∃ whole fraction, n.canonical = ⟨whole, some fraction⟩ ∧ whole ≠ [] ∧ fraction ≠ [] ∧
      ∀ c ∈ whole ++ fraction, c.isDigit = true := by
  rcases lt_or_ge n.value overflowBound with hsmall | hlarge
  · obtain ⟨x, hx⟩ := exists_roundsTo hsmall
    obtain ⟨hliteral, -, digits, hfraction, hne, -⟩ := isPlain_canonical hx
    generalize n.canonical = m at *
    obtain ⟨whole, fraction⟩ := m
    obtain rfl : fraction = some digits := hfraction
    exact ⟨whole, digits, rfl, hliteral.1, hne, hliteral.2⟩
  · refine ⟨_, _, canonical_of_overflow hlarge, hn.1, orZero_ne_nil _, ?_⟩
    intro c hc
    rcases List.mem_append.1 hc with hc | hc
    · exact hn.whole c hc
    · exact isDigit_of_mem_orZero hn.fractionDigits c hc

theorem isLiteral_canonical (hn : n.IsLiteral) : n.canonical.IsLiteral := by
  obtain ⟨whole, fraction, heq, hwhole, -, hdigits⟩ := exists_canonical_eq hn
  rw [heq]
  exact ⟨hwhole, hdigits⟩

/-- The canonical form is its own. -/
theorem canonical_canonical (n : Numeral) : n.canonical.canonical = n.canonical := by
  rcases lt_or_ge n.value overflowBound with hsmall | hlarge
  · obtain ⟨x, hx⟩ := exists_roundsTo hsmall
    rw [canonical_of_roundsTo (roundsTo_canonical hx), canonical_of_roundsTo hx]
  · have hsame := hlarge
    rw [← value_canonical_of_overflow hlarge] at hsame
    rw [canonical_of_overflow hsame, canonical_of_overflow hlarge, fractionDigits_some]
    -- where a zero was added there is one, and nothing is added any more
    rw [orZero_of_ne_nil (orZero_ne_nil _)]

end Numeral

end BugsLang
