import BugsLang.Text.Lexeme
import BugsLang.Text.Trivia

/-!
# Classes of characters

The first character of a lexeme or of trivia tells its kind, because the classes of characters
exclude each other. Some of the classes are tables of ranges. Two of these have nothing in common if
no range of the one meets a range of the other. A run of characters of one class is a whole one if
the character behind it is of another class.

## Main definitions

* `StopsAt p s`: no run of the class goes on into the text.
* `EndsLine s`: the line goes no further.

## Main statements

* `Unicode.inRanges_eq_false_of_apart`: tables that lie apart have no code point in common.
* `isAlphabetic_of_isBlank`, `isAlphabetic_of_isDigit`, `isBlank_of_isDigit`: the classes that are
  taken from such tables.
* `takeWhile_append_of_stopsAt`, `dropWhile_append_of_stopsAt`: a run that is whole.
-/

namespace BugsLang

namespace Unicode

variable {n : Nat} {s t : List (Nat × Nat)}

/-- Whether no range of the one table meets a range of the other. -/
def rangesApart (s t : List (Nat × Nat)) : Bool :=
  s.all fun a => t.all fun b => a.2 < b.1 || b.2 < a.1

theorem exists_range_of_inRanges (h : inRanges n t = true) : ∃ r ∈ t, r.1 ≤ n ∧ n ≤ r.2 := by
  induction t with
  | nil => cases h
  | cons r t ih =>
    rw [inRanges] at h
    by_cases hlo : n < r.1
    · rw [if_pos hlo] at h
      cases h
    · rw [if_neg hlo] at h
      by_cases hhi : n ≤ r.2
      · exact ⟨r, List.mem_cons_self, by omega, hhi⟩
      · rw [if_neg hhi] at h
        obtain ⟨r', hr', hn⟩ := ih h
        exact ⟨r', List.mem_cons_of_mem r hr', hn⟩

/-- Tables that lie apart have no code point in common. -/
theorem inRanges_eq_false_of_apart (hapart : rangesApart s t = true) (h : inRanges n s = true) :
    inRanges n t = false := by
  rw [Bool.eq_false_iff]
  intro ht
  obtain ⟨a, ha, hna⟩ := exists_range_of_inRanges h
  obtain ⟨b, hb, hnb⟩ := exists_range_of_inRanges ht
  have hab := List.all_eq_true.1 (List.all_eq_true.1 hapart a ha) b hb
  simp only [Bool.or_eq_true, decide_eq_true_eq] at hab
  omega

end Unicode

variable {c : Char}

/-- The decimal digits that a number is written with. -/
def digitRanges : List (Nat × Nat) :=
  [(0x30, 0x39)]

theorem inRanges_of_isDigit (h : c.isDigit = true) :
    Unicode.inRanges c.toNat digitRanges = true := by
  simp only [Char.isDigit, Bool.and_eq_true, decide_eq_true_eq, ge_iff_le,
    UInt32.le_iff_toNat_le] at h
  have hlo : 0x30 ≤ c.toNat := h.1
  have hhi : c.toNat ≤ 0x39 := h.2
  rw [digitRanges, Unicode.inRanges_cons_of_le hhi]
  exact decide_eq_true hlo

theorem isWhiteSpace_or_isControl (h : isBlank c = true) :
    Unicode.isWhiteSpace c = true ∨ Unicode.isControl c = true := by
  simp only [isBlank, Bool.and_eq_true, Bool.or_eq_true] at h
  exact h.1

/-- No blank character is in a table that words are made of, and no digit is in that of letters. -/
theorem tables_apart :
    Unicode.rangesApart Unicode.whiteSpaceRanges Unicode.alphabeticRanges = true ∧
      Unicode.rangesApart Unicode.controlRanges Unicode.alphabeticRanges = true ∧
      Unicode.rangesApart Unicode.whiteSpaceRanges Unicode.numericRanges = true ∧
      Unicode.rangesApart Unicode.controlRanges Unicode.numericRanges = true ∧
      Unicode.rangesApart digitRanges Unicode.alphabeticRanges = true := by
  decide +kernel

/-- No blank character starts a word. -/
theorem isAlphabetic_of_isBlank (h : isBlank c = true) : Unicode.isAlphabetic c = false := by
  obtain ⟨hspaces, hcontrols, -⟩ := tables_apart
  rcases isWhiteSpace_or_isControl h with hspace | hcontrol
  · exact Unicode.inRanges_eq_false_of_apart hspaces hspace
  · exact Unicode.inRanges_eq_false_of_apart hcontrols hcontrol

/-- No blank character goes on with a word. -/
theorem continuesWord_of_isBlank (h : isBlank c = true) : continuesWord c = false := by
  have hnumeric : Unicode.isNumeric c = false := by
    obtain ⟨-, -, hspaces, hcontrols, -⟩ := tables_apart
    rcases isWhiteSpace_or_isControl h with hspace | hcontrol
    · exact Unicode.inRanges_eq_false_of_apart hspaces hspace
    · exact Unicode.inRanges_eq_false_of_apart hcontrols hcontrol
  rw [continuesWord, isAlphabetic_of_isBlank h, hnumeric]
  rfl

/-- No digit starts a word. -/
theorem isAlphabetic_of_isDigit (h : c.isDigit = true) : Unicode.isAlphabetic c = false :=
  Unicode.inRanges_eq_false_of_apart tables_apart.2.2.2.2 (inRanges_of_isDigit h)

/-- No digit is blank. -/
theorem isBlank_of_isDigit (h : c.isDigit = true) : isBlank c = false := by
  have hspace : Unicode.isWhiteSpace c = false :=
    Unicode.inRanges_eq_false_of_apart (by decide) (inRanges_of_isDigit h)
  have hcontrol : Unicode.isControl c = false :=
    Unicode.inRanges_eq_false_of_apart (by decide) (inRanges_of_isDigit h)
  rw [isBlank, hspace, hcontrol]
  rfl

/-- No line end is blank. -/
theorem isBlank_of_isLineEnd (h : isLineEnd c = true) : isBlank c = false := by
  rw [isBlank, h, Bool.not_true, Bool.and_false]

/-- No blank character ends a line. -/
theorem isLineEnd_of_isBlank (h : isBlank c = true) : isLineEnd c = false := by
  rw [Bool.eq_false_iff]
  intro hline
  rw [isBlank_of_isLineEnd hline] at h
  cases h

/-- A letter may continue a word that another one starts. -/
theorem continuesWord_of_isAlphabetic (h : Unicode.isAlphabetic c = true) :
    continuesWord c = true := by
  rw [continuesWord, h, Bool.true_or]

/-! ## Runs of characters -/

/-- The text does not start with a character of the class. -/
def StopsAt (p : Char → Bool) (s : List Char) : Prop :=
  ∀ c ∈ s.head?, p c = false

/-- The text is empty or starts with a line end. -/
def EndsLine (s : List Char) : Prop :=
  ∀ c ∈ s.head?, isLineEnd c = true

variable {p : Char → Bool} {u v : List Char}

theorem endsLine_nil : EndsLine [] :=
  fun _ hc => nomatch hc

theorem endsLine_cons (h : isLineEnd c = true) : EndsLine (c :: v) := by
  intro d hd
  rwa [← Option.some.inj hd]

/-- A run of characters of a class that goes no further is what is taken of the class. -/
theorem takeWhile_append_of_stopsAt (hu : ∀ c ∈ u, p c = true) (hv : StopsAt p v) :
    (u ++ v).takeWhile p = u := by
  rw [List.takeWhile_append_of_pos hu]
  cases v with
  | nil => simp
  | cons c v => simp [hv c rfl]

theorem dropWhile_append_of_stopsAt (hu : ∀ c ∈ u, p c = true) (hv : StopsAt p v) :
    (u ++ v).dropWhile p = v := by
  rw [List.dropWhile_append_of_pos hu]
  cases v with
  | nil => rfl
  | cons c v => simp [hv c rfl]

theorem stopsAt_dropWhile (p : Char → Bool) (s : List Char) : StopsAt p (s.dropWhile p) := by
  intro c hc
  have hhead := List.head?_dropWhile_not p s
  rw [Option.mem_def.1 hc] at hhead
  simpa using hhead

end BugsLang
