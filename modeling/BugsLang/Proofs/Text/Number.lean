import BugsLang.Proofs.Numeral.Precision
import BugsLang.Proofs.Text.Partition
import BugsLang.Proofs.Text.Shift

/-!
# Numbers in a source

What a source shows of a number is the canonical form of its numeral. It is rounded to the same
double as the numeral, or denotes the same number where that is too large, and it is read as it is
shown. Within double precision all digits are shown.

## Main statements

* `number_text_is_canonical`: the text of a number.
* `number_text_keeps_digits`: the text of a number within double precision.
-/

namespace BugsLang

variable {n : Numeral}

/-- A numeral with nothing behind it is a whole number. -/
theorem Numeral.IsLiteral.fits (hn : n.IsLiteral) : (Lexeme.number n).Fits [] :=
  ⟨hn.1, hn.2, (fun _ hc => nomatch hc), (fun _ h => nomatch h)⟩

theorem Numeral.IsLiteral.isLineEnd_of_mem_text (hn : n.IsLiteral) :
    ∀ c ∈ n.text, isLineEnd c = false := by
  obtain ⟨whole, fraction⟩ := n
  intro c hc
  cases fraction with
  | none => exact isLineEnd_of_isDigit (hn.whole c hc)
  | some digits =>
    rcases List.mem_append.1 hc with hc | hc
    · exact isLineEnd_of_isDigit (hn.whole c hc)
    · rcases List.mem_cons.1 hc with rfl | hc
      · rfl
      · exact isLineEnd_of_isDigit (hn.fractionDigits c hc)

/-- A source that is a numeral has one token, which shows the canonical form. -/
theorem locatedTokens_of_isLiteral (hn : n.IsLiteral) :
    locatedTokens (String.ofList n.text) =
      [⟨1, .number, String.ofList n.canonical.text⟩, ⟨1, .inputEnd⟩] := by
  have hfits := hn.fits
  obtain ⟨c, rest, htext, hc⟩ := Lexeme.exists_digit_of_fits hfits
  rw [List.append_nil] at htext
  have hmark : (String.ofList n.text).toList.head? ≠ some '\uFEFF' := by
    rw [String.toList_ofList, htext]
    intro hhead
    rw [Option.some.inj hhead] at hc
    cases hc
  have hcut : (⟨n.text, 1⟩ : Position).text = (Lexeme.number n).text ++ [] :=
    (List.append_nil _).symm
  rw [locatedTokens, Position.ofSource_of_head?_ne hmark, String.toList_ofList,
    Position.tokens_of_lexeme hcut hfits, Position.tokens_nil]
  have hline : lineBreaks (Lexeme.number n).text = 0 :=
    lineBreaks_of_forall hn.isLineEnd_of_mem_text
  rw [hline]
  rfl

/-- The text of a number has digits on either side of a point and is read as it is shown. If the
number can be rounded to a double, the text is rounded to the same one, and all numbers that are
have this text. If it is too large, its value is kept. -/
theorem number_text_is_canonical (hn : n.IsLiteral) :
    ∃ whole fraction : List Char, whole ≠ [] ∧ fraction ≠ [] ∧
      (∀ c ∈ whole ++ fraction, c.isDigit = true) ∧
      let text := String.ofList (whole ++ '.' :: fraction)
      let shown : Numeral := ⟨whole, some fraction⟩
      (Lexeme.number n).token = ⟨.number, text⟩ ∧
      locatedTokens (String.ofList n.text) = [⟨1, .number, text⟩, ⟨1, .inputEnd⟩] ∧
      locatedTokens text = [⟨1, .number, text⟩, ⟨1, .inputEnd⟩] ∧
      (n.value < overflowBound → ∃ x, RoundsTo n.value x ∧ RoundsTo shown.value x ∧
        ∀ other : Numeral, RoundsTo other.value x →
          (Lexeme.number other).token = ⟨.number, text⟩) ∧
      (overflowBound ≤ n.value → shown.value = n.value) := by
  obtain ⟨whole, fraction, hcanonical, hwhole, hfraction, hdigits⟩ :=
    Numeral.exists_canonical_eq hn
  refine ⟨whole, fraction, hwhole, hfraction, hdigits, ?_⟩
  intro text shown
  have htext : String.ofList n.canonical.text = text := by rw [hcanonical]; rfl
  have hsource := locatedTokens_of_isLiteral hn
  have hagain := locatedTokens_of_isLiteral (Numeral.isLiteral_canonical hn)
  rw [Numeral.canonical_canonical] at hagain
  rw [htext] at hsource hagain
  refine ⟨?_, hsource, hagain, ?_, ?_⟩
  · rw [Lexeme.token, htext]
  · intro hsmall
    obtain ⟨x, hx⟩ := Numeral.exists_roundsTo hsmall
    refine ⟨x, hx, ?_, ?_⟩
    · have hrounds := Numeral.roundsTo_canonical hx
      rwa [hcanonical] at hrounds
    · intro other hother
      rw [Lexeme.token, Numeral.canonical_of_roundsTo hother, ← Numeral.canonical_of_roundsTo hx,
        htext]
  · intro hlarge
    have hvalue := Numeral.value_canonical_of_overflow hlarge
    rwa [hcanonical] at hvalue

/-- Half way between two doubles, the one with the even significand is shown. -/
theorem number_text_is_canonical_half_way :
    (⟨"9007199254740993".toList, none⟩ : Numeral).IsLiteral ∧
      locatedTokens "9007199254740993" =
        [⟨1, .number, "9007199254740992.0"⟩, ⟨1, .inputEnd⟩] ∧
      locatedTokens "9007199254740992.0" =
        [⟨1, .number, "9007199254740992.0"⟩, ⟨1, .inputEnd⟩] ∧
      ∃ x, RoundsTo 9007199254740993 x ∧ ∀ other : Numeral, RoundsTo other.value x →
        (Lexeme.number other).token = ⟨.number, "9007199254740992.0"⟩ := by
  have hn : (⟨"9007199254740993".toList, none⟩ : Numeral).IsLiteral :=
    Numeral.isLiteral_of_all (by decide) (by decide +kernel)
  have hvalue : (⟨"9007199254740993".toList, none⟩ : Numeral).value = 9007199254740993 := by
    decide +kernel
  obtain ⟨whole, fraction, -, -, -, htoken, hsource, hagain, hrounds, -⟩ :=
    number_text_is_canonical hn
  have htext : (Lexeme.number ⟨"9007199254740993".toList, none⟩).token =
      ⟨.number, "9007199254740992.0"⟩ := by decide +kernel
  rw [htext] at htoken
  rw [← (Token.mk.inj htoken).2] at hsource hagain hrounds
  rw [hvalue] at hrounds
  obtain ⟨x, hx, -, hother⟩ := hrounds (by decide +kernel)
  exact ⟨hn, hsource, hagain, x, hx, hother⟩

/-- Within double precision, the text of a number shows all digits on either side of the point, less
the zeros that can be left out, and a zero where there are none. So it denotes the same number. -/
theorem number_text_keeps_digits (hn : n.IsLiteral) (h : WithinPrecision n.value) :
    let whole := Numeral.orZero (n.whole.dropWhile (· = '0'))
    let fraction := Numeral.orZero (n.fractionDigits.rdropWhile (· = '0'))
    let text := String.ofList (whole ++ '.' :: fraction)
    (Lexeme.number n).token = ⟨.number, text⟩ ∧
      locatedTokens (String.ofList n.text) = [⟨1, .number, text⟩, ⟨1, .inputEnd⟩] ∧
      (⟨whole, some fraction⟩ : Numeral).value = n.value := by
  intro whole fraction text
  have htext : String.ofList n.canonical.text = text := by
    rw [Numeral.canonical_eq_trimmed hn h]
    rfl
  refine ⟨?_, ?_, n.value_trimmed⟩
  · rw [Lexeme.token, htext]
  · rw [locatedTokens_of_isLiteral hn, htext]

/-- Fifteen digits are kept, and so are the sixteen of `2 ^ 53`. -/
theorem number_text_keeps_digits_at_the_limits :
    (Lexeme.number ⟨"0123456789012".toList, some "34500".toList⟩).token =
        ⟨.number, "123456789012.345"⟩ ∧
      (Lexeme.number ⟨"9007199254740992".toList, some []⟩).token =
        ⟨.number, "9007199254740992.0"⟩ := by
  constructor
  · have hn : (⟨"0123456789012".toList, some "34500".toList⟩ : Numeral).IsLiteral :=
      Numeral.isLiteral_of_all (by decide) (by decide +kernel)
    have hvalue : (⟨"0123456789012".toList, some "34500".toList⟩ : Numeral).value =
      (123456789012345 : Nat) * 10 ^ (-3 : Int) := by decide +kernel
    have hwithin : WithinPrecision ((123456789012345 : Nat) * 10 ^ (-3 : Int)) :=
      .inr (.inl ⟨⟨123456789012345, -3, by norm_num, rfl⟩, by decide +kernel, by decide +kernel⟩)
    rw [← hvalue] at hwithin
    exact (number_text_keeps_digits hn hwithin).1
  · have hn : (⟨"9007199254740992".toList, some []⟩ : Numeral).IsLiteral :=
      Numeral.isLiteral_of_all (by decide) (by decide +kernel)
    have hvalue : (⟨"9007199254740992".toList, some []⟩ : Numeral).value = (2 ^ 53 : Nat) := by
      decide +kernel
    exact (number_text_keeps_digits hn (.inr (.inr ⟨2 ^ 53, le_rfl, hvalue⟩))).1

end BugsLang
