import BugsLang.Proofs.Text.LineEnd
import BugsLang.Proofs.Text.Trivia

/-!
# Lexemes

What a lexeme looks like, and what may stand behind it, is said here without a scanner, in the same
way as for trivia. Where no trivia comes first, the lexeme that fits is the first one that the
scanner finds.

## Main definitions

* `Lexeme.Contents`: what may stand between the quotes of a string.
* `Lexeme.Fits`: the lexeme is a whole one in front of a text.

## Main statements

* `Lexeme.first?_of_fits`, `Lexeme.fits_of_first?`: the lexeme that fits is the first one.
* `Lexeme.piece_first?_of_fits`: a lexeme that fits has no trivia in front.
-/

namespace BugsLang

namespace Lexeme

/-- What may stand between the quotes of a string: a backslash shields the character after it, no
other character is a quote, and there is no line end. -/
inductive Contents : List Char → Prop where
  | nil : Contents []
  | plain {c : Char} {rest : List Char} (hquote : c ≠ '"') (hbackslash : c ≠ '\\')
      (hline : isLineEnd c = false) (h : Contents rest) : Contents (c :: rest)
  | shielded {c : Char} {rest : List Char} (hline : isLineEnd c = false) (h : Contents rest) :
      Contents ('\\' :: c :: rest)

/-- The lexeme is a whole one in front of the text, and no other and no trivia could start here. A
carriage return takes the line feed after it. A string goes to its closing quote, or to the end of
the line, where a last backslash shields nothing. Numbers and words are as long as they can be. -/
def Fits (after : List Char) : Lexeme → Prop
  | lineEnd .cr => after.head? ≠ some '\n'
  | lineEnd .lf | lineEnd .crlf => True
  | quoted body =>
    ∃ contents, Contents contents ∧
      (body = contents ++ ['"'] ∨ (body = contents ∨ body = contents ++ ['\\']) ∧ EndsLine after)
  | number n =>
    n.whole ≠ [] ∧ (∀ c ∈ n.whole ++ n.fractionDigits, c.isDigit = true) ∧
      StopsAt Char.isDigit after ∧ (n.fraction = none → after.head? ≠ some '.')
  | word letters =>
    (∃ c rest, letters = c :: rest ∧ Unicode.isAlphabetic c = true ∧
      ∀ d ∈ rest, continuesWord d = true) ∧ StopsAt continuesWord after
  | mark c =>
    isBlank c = false ∧ isLineEnd c = false ∧ c ≠ '"' ∧ c.isDigit = false ∧
      Unicode.isAlphabetic c = false ∧
      ¬ (c = '/' ∧ (after.head? = some '/' ∨ after.head? = some '*'))

variable {c : Char} {u v s : List Char} {l : Lexeme} {n : Numeral}

/-! ## Strings -/

theorem quotedLength_shielded :
    quotedLength ('\\' :: c :: s) = if isLineEnd c then 1 else quotedLength s + 2 := rfl

theorem quotedLength_cons_of_ne (hquote : c ≠ '"') (hbackslash : c ≠ '\\') :
    quotedLength (c :: s) = if isLineEnd c then 0 else quotedLength s + 1 := by
  rw [quotedLength]
  · exact hquote
  · exact fun _ _ heq _ => hbackslash heq

theorem quotedLength_cons (hquote : c ≠ '"') (hbackslash : c ≠ '\\')
    (hline : isLineEnd c = false) : quotedLength (c :: s) = quotedLength s + 1 := by
  rw [quotedLength_cons_of_ne hquote hbackslash, if_neg (Bool.eq_false_iff.1 hline)]

theorem quotedLength_of_endsLine (h : EndsLine v) : quotedLength v = 0 := by
  cases v with
  | nil => rfl
  | cons c v =>
    have hc : isLineEnd c = true := h c rfl
    have hquote : c ≠ '"' := by
      rintro rfl
      cases hc
    have hbackslash : c ≠ '\\' := by
      rintro rfl
      cases hc
    rw [quotedLength_cons_of_ne hquote hbackslash, if_pos hc]

theorem quotedLength_backslash (h : EndsLine v) : quotedLength ('\\' :: v) = 1 := by
  cases v with
  | nil => rfl
  | cons c v => rw [quotedLength_shielded, if_pos (h c rfl)]

/-- The contents of a string belong to it, and it goes on behind them. -/
theorem quotedLength_append (h : Contents u) :
    quotedLength (u ++ v) = u.length + quotedLength v := by
  induction h with
  | nil => simp
  | plain hquote hbackslash hline _ ih =>
    rw [List.cons_append, quotedLength_cons hquote hbackslash hline, ih, List.length_cons]
    omega
  | shielded hline _ ih =>
    rw [List.cons_append, List.cons_append, quotedLength_shielded,
      if_neg (Bool.eq_false_iff.1 hline), ih, List.length_cons, List.length_cons]
    omega

/-- A string that fits is as long as the scanner finds it. -/
theorem quotedLength_of_fits (h : (quoted u).Fits v) : quotedLength (u ++ v) = u.length := by
  obtain ⟨contents, hcontents, rfl | ⟨rfl | rfl, hends⟩⟩ := h
  · rw [List.append_assoc, quotedLength_append hcontents, List.length_append]
    rfl
  · rw [quotedLength_append hcontents, quotedLength_of_endsLine hends, Nat.add_zero]
  · rw [List.append_assoc, quotedLength_append hcontents, List.length_append]
    exact congrArg _ (quotedLength_backslash hends)

theorem fits_quoted_plain (hquote : c ≠ '"') (hbackslash : c ≠ '\\') (hline : isLineEnd c = false)
    (h : (quoted u).Fits v) : (quoted (c :: u)).Fits v := by
  obtain ⟨contents, hcontents, hclosed⟩ := h
  refine ⟨c :: contents, .plain hquote hbackslash hline hcontents, ?_⟩
  simpa using hclosed

theorem fits_quoted_shielded (hline : isLineEnd c = false) (h : (quoted u).Fits v) :
    (quoted ('\\' :: c :: u)).Fits v := by
  obtain ⟨contents, hcontents, hclosed⟩ := h
  refine ⟨'\\' :: c :: contents, .shielded hline hcontents, ?_⟩
  simpa using hclosed

/-- Whatever follows a quote starts with a string that fits. -/
theorem exists_fits_quoted (s : List Char) : ∃ u v, s = u ++ v ∧ (quoted u).Fits v := by
  fun_induction quotedLength s with
  | case1 => exact ⟨[], [], rfl, [], .nil, .inr ⟨.inl rfl, endsLine_nil⟩⟩
  | case2 rest => exact ⟨['"'], rest, rfl, [], .nil, .inl rfl⟩
  | case3 c rest hline =>
    exact ⟨['\\'], c :: rest, rfl, [], .nil, .inr ⟨.inr rfl, endsLine_cons hline⟩⟩
  | case4 c rest hline ih =>
    obtain ⟨u, v, rfl, hfits⟩ := ih
    exact ⟨'\\' :: c :: u, v, rfl, fits_quoted_shielded (Bool.eq_false_iff.2 hline) hfits⟩
  | case5 c rest _ _ hline =>
    exact ⟨[], c :: rest, rfl, [], .nil, .inr ⟨.inl rfl, endsLine_cons hline⟩⟩
  | case6 c rest hquote hshield hline ih =>
    by_cases hbackslash : c = '\\'
    · -- a backslash that shields nothing is the last character of the source
      subst hbackslash
      cases rest with
      | nil => exact ⟨['\\'], [], rfl, [], .nil, .inr ⟨.inr rfl, endsLine_nil⟩⟩
      | cons d rest => exact absurd rfl (hshield d rest rfl)
    · obtain ⟨u, v, rfl, hfits⟩ := ih
      exact ⟨c :: u, v, rfl,
        fits_quoted_plain hquote hbackslash (Bool.eq_false_iff.2 hline) hfits⟩

/-! ## Numbers -/

/-- A number that fits is the one that the scanner finds. -/
theorem ofStart_of_fits (h : (number n).Fits v) : Numeral.ofStart (n.text ++ v) = n := by
  obtain ⟨-, hdigits, hstops, hpoint⟩ := h
  obtain ⟨whole, fraction⟩ := n
  have hwhole : ∀ c ∈ whole, c.isDigit = true := fun c hc => hdigits c (List.mem_append_left _ hc)
  unfold Numeral.ofStart
  cases fraction with
  | none =>
    rw [Numeral.text_none, dropWhile_append_of_stopsAt hwhole hstops,
      takeWhile_append_of_stopsAt hwhole hstops]
    split
    · exact absurd rfl (hpoint rfl)
    · rfl
  | some digits =>
    have hfraction : ∀ c ∈ digits, c.isDigit = true :=
      fun c hc => hdigits c (List.mem_append_right _ hc)
    -- the point ends the run of digits in front of it
    have hends : StopsAt Char.isDigit ('.' :: (digits ++ v)) := by
      intro c hc
      rw [← Option.some.inj hc]
      rfl
    rw [Numeral.text_some, List.append_assoc, List.cons_append,
      dropWhile_append_of_stopsAt hwhole hends, takeWhile_append_of_stopsAt hwhole hends]
    show (⟨whole, some ((digits ++ v).takeWhile Char.isDigit)⟩ : Numeral) = _
    rw [takeWhile_append_of_stopsAt hfraction hstops]

/-- A number that fits starts with a digit. -/
theorem exists_digit_of_fits (h : (number n).Fits v) :
    ∃ c rest, n.text ++ v = c :: rest ∧ c.isDigit = true := by
  obtain ⟨hne, hdigits, -⟩ := h
  obtain ⟨c, digits, hwhole⟩ := List.exists_cons_of_ne_nil hne
  obtain ⟨rest, htext⟩ : ∃ rest, n.text ++ v = c :: rest := by
    unfold Numeral.text
    split <;> simp [hwhole]
  exact ⟨c, rest, htext, hdigits c (by simp [hwhole])⟩

/-- A text that starts with a digit starts with a number that fits. -/
theorem fits_ofStart (hc : c.isDigit = true) :
    ∃ v, c :: s = (Numeral.ofStart (c :: s)).text ++ v ∧
      (number (.ofStart (c :: s))).Fits v := by
  have hne : (c :: s).takeWhile Char.isDigit ≠ [] := by
    rw [List.takeWhile_cons_of_pos hc]
    exact List.cons_ne_nil _ _
  have hwhole := List.takeWhile_append_dropWhile (p := Char.isDigit) (l := c :: s)
  unfold Numeral.ofStart
  split
  · rename_i rest hrest
    refine ⟨rest.dropWhile Char.isDigit, ?_, hne, ?_, stopsAt_dropWhile _ _, fun h => nomatch h⟩
    · rw [Numeral.text_some, List.append_assoc, List.cons_append,
        List.takeWhile_append_dropWhile, ← hrest, hwhole]
    · intro d hd
      rcases List.mem_append.1 hd with hd | hd
      · exact List.mem_takeWhile_imp hd
      · exact List.mem_takeWhile_imp hd
  · rename_i hpoint
    refine ⟨(c :: s).dropWhile Char.isDigit, hwhole.symm, hne, ?_, stopsAt_dropWhile _ _, ?_⟩
    · intro d hd
      rw [Numeral.fractionDigits_none, List.append_nil] at hd
      exact List.mem_takeWhile_imp hd
    · intro _ hhead
      obtain ⟨rest, hrest⟩ := List.head?_eq_some_iff.1 hhead
      exact hpoint rest hrest

/-! ## Lexemes by their first character -/

theorem first?_of_isDigit (h : c.isDigit = true) :
    first? (c :: s) = some (number (.ofStart (c :: s))) := by
  obtain ⟨hlf, hcr⟩ := isLineEnd_eq_false_iff.1 (isLineEnd_of_isDigit h)
  have hquote : c ≠ '"' := by
    rintro rfl
    cases h
  rw [first?, if_neg hlf, if_neg hcr, if_neg hquote, if_pos h]

/-- No letter is a quote. -/
theorem ne_quote_of_isAlphabetic (h : Unicode.isAlphabetic c = true) : c ≠ '"' := by
  rintro rfl
  exact absurd h (by decide)

/-- No letter is a slash. -/
theorem ne_slash_of_isAlphabetic (h : Unicode.isAlphabetic c = true) : c ≠ '/' := by
  rintro rfl
  exact absurd h (by decide)

/-- A letter may continue a word, and so it is no line end. -/
theorem isLineEnd_of_isAlphabetic (h : Unicode.isAlphabetic c = true) : isLineEnd c = false :=
  isLineEnd_of_continuesWord (continuesWord_of_isAlphabetic h)

theorem first?_of_isAlphabetic (h : Unicode.isAlphabetic c = true) :
    first? (c :: s) = some (word ((c :: s).takeWhile continuesWord)) := by
  obtain ⟨hlf, hcr⟩ := isLineEnd_eq_false_iff.1 (isLineEnd_of_isAlphabetic h)
  have hdigit : ¬ c.isDigit = true := by
    intro hdigit
    rw [isAlphabetic_of_isDigit hdigit] at h
    cases h
  rw [first?, if_neg hlf, if_neg hcr, if_neg (ne_quote_of_isAlphabetic h), if_neg hdigit, if_pos h]

/-- The lexeme that fits is the first one. -/
theorem first?_of_fits (h : l.Fits v) : first? (l.text ++ v) = some l := by
  cases l with
  | lineEnd style =>
    cases style with
    | lf | crlf => rfl
    | cr =>
      have hhead : ¬ v.head? = some '\n' := h
      simp [text, LineEnd.text, first?, hhead]
  | quoted body =>
    have htake : (body ++ v).take (quotedLength (body ++ v)) = body := by
      rw [quotedLength_of_fits h, List.take_left]
    simp [text, first?, htake]
  | number n =>
    obtain ⟨c, rest, htext, hc⟩ := exists_digit_of_fits h
    rw [text, htext, first?_of_isDigit hc, ← htext, ofStart_of_fits h]
  | word letters =>
    obtain ⟨⟨c, rest, rfl, hc, hrest⟩, hstops⟩ := h
    have hletters : ∀ d ∈ c :: rest, continuesWord d = true := by
      intro d hd
      rcases List.mem_cons.1 hd with rfl | hd
      · exact continuesWord_of_isAlphabetic hc
      · exact hrest d hd
    rw [text, List.cons_append, first?_of_isAlphabetic hc, ← List.cons_append,
      takeWhile_append_of_stopsAt hletters hstops]
  | mark c =>
    obtain ⟨-, hline, hquote, hdigit, halphabetic, -⟩ := h
    obtain ⟨hlf, hcr⟩ := isLineEnd_eq_false_iff.1 hline
    simp [text, first?, hlf, hcr, hquote, hdigit, halphabetic]

/-- A lexeme that fits has no trivia in front. -/
theorem piece_first?_of_fits (h : l.Fits v) : Trivia.Piece.first? (l.text ++ v) = none := by
  cases l with
  | lineEnd style => cases style <;> rfl
  | quoted body => rfl
  | number n =>
    obtain ⟨c, rest, htext, hc⟩ := exists_digit_of_fits h
    -- a digit is neither blank nor a slash
    rw [text, htext, Trivia.Piece.first?_cons_eq_none_iff]
    refine ⟨isBlank_of_isDigit hc, ?_⟩
    rintro ⟨rfl, -⟩
    cases hc
  | word letters =>
    obtain ⟨⟨c, rest, rfl, hc, -⟩, -⟩ := h
    -- a letter is neither blank nor a slash
    rw [text, List.cons_append, Trivia.Piece.first?_cons_eq_none_iff]
    refine ⟨?_, fun hslash => ne_slash_of_isAlphabetic hc hslash.1⟩
    rw [Bool.eq_false_iff]
    intro hblank
    rw [isAlphabetic_of_isBlank hblank] at hc
    cases hc
  | mark c =>
    obtain ⟨hblank, -, -, -, -, hslash⟩ := h
    exact Trivia.Piece.first?_cons_eq_none_iff.2 ⟨hblank, hslash⟩

/-- The first lexeme is one that fits. -/
theorem fits_of_first? (hnone : Trivia.Piece.first? s = none) (h : first? s = some l) :
    ∃ v, s = l.text ++ v ∧ l.Fits v := by
  cases s with
  | nil => cases h
  | cons c rest =>
    obtain ⟨hblank, hslash⟩ := Trivia.Piece.first?_cons_eq_none_iff.1 hnone
    obtain rfl := Option.some.inj h
    -- the kinds in the order in which the first character is tested for them
    split
    · rename_i hlf
      exact ⟨rest, by rw [hlf]; rfl, trivial⟩
    rename_i hlf
    split
    · rename_i hcr
      split
      · rename_i hhead
        obtain ⟨v, rfl⟩ := List.head?_eq_some_iff.1 hhead
        exact ⟨v, by rw [hcr]; rfl, trivial⟩
      · rename_i hhead
        exact ⟨rest, by rw [hcr]; rfl, hhead⟩
    rename_i hcr
    split
    · rename_i hquote
      obtain ⟨u, v, rfl, hfits⟩ := exists_fits_quoted rest
      refine ⟨v, ?_, ?_⟩
      · rw [quotedLength_of_fits hfits, List.take_left, hquote]
        rfl
      · rwa [quotedLength_of_fits hfits, List.take_left]
    rename_i hquote
    split
    · rename_i hdigit
      exact fits_ofStart hdigit
    rename_i hdigit
    split
    · rename_i halphabetic
      have hcontinues := continuesWord_of_isAlphabetic halphabetic
      refine ⟨(c :: rest).dropWhile continuesWord, ?_, ⟨c, rest.takeWhile continuesWord, ?_,
        halphabetic, fun d hd => List.mem_takeWhile_imp hd⟩, stopsAt_dropWhile _ _⟩
      · rw [text, List.takeWhile_append_dropWhile]
      · rw [List.takeWhile_cons_of_pos hcontinues]
    · rename_i halphabetic
      have hline := isLineEnd_eq_false_iff.2 ⟨hlf, hcr⟩
      exact ⟨rest, rfl, hblank, hline, hquote, Bool.eq_false_iff.2 hdigit,
        Bool.eq_false_iff.2 halphabetic, hslash⟩

end Lexeme

end BugsLang
