import BugsLang.Text.Position
import Mathlib.Data.List.TakeWhile

/-!
# The line ends of a source

`lineEnds` finds the line ends of a text by going over it once from left to right. A reader does not
do that: it counts the line ends piece by piece, those inside trivia apart from those that are
lexemes. The count is right as long as no cut goes through a pair of a carriage return and a line
feed, and none does, since neither trivia nor a lexeme ends between the two.

## Main definitions

* `lineEnds`: the line ends of a text.
* `SplitsPair u v`: the cut between `u` and `v` goes through a pair.
* `Position.IsIn s p`: the position is a place in `s`, between two characters that are not a pair,
  and its line is the number of line ends before it, counted from 1.

## Main statements

* `lineEnds_append`: a cut that splits no pair shares out the line ends.
* `Position.IsIn.passTrivia`, `Position.IsIn.pastToken`: moving on leads to a place in the text.
-/

namespace BugsLang

/-- The line ends of the text, from left to right. A carriage return and the line feed after it are
one of them. -/
def lineEnds : List Char → List LineEnd
  | [] => []
  | '\r' :: '\n' :: rest => .crlf :: lineEnds rest
  | '\r' :: rest => .cr :: lineEnds rest
  | '\n' :: rest => .lf :: lineEnds rest
  | _ :: rest => lineEnds rest

/-- Whether the cut between the two texts goes through a pair of a carriage return and a line
feed. -/
def SplitsPair (u v : List Char) : Prop :=
  u.getLast? = some '\r' ∧ v.head? = some '\n'

variable {u v s : List Char} {c : Char}

theorem length_lineEnds (s : List Char) : (lineEnds s).length = lineBreaks s := by
  fun_induction lineEnds s with
  | case1 => rfl
  | case2 rest ih => simp [lineBreaks, ih]
  | case3 rest hpair ih =>
    have hhead : rest.head? ≠ some '\n' := by
      intro hhead
      obtain ⟨rest', hrest⟩ := List.head?_eq_some_iff.1 hhead
      exact hpair rest' hrest
    simp [lineBreaks, hhead, ih]
  | case4 rest ih => simp [lineBreaks, ih]
  | case5 c rest _ hcr hlf ih =>
    have hno : ¬ (c = '\n' ∨ c = '\r' ∧ rest.head? ≠ some '\n') := by
      rintro (hc | ⟨hc, -⟩)
      · exact hlf hc
      · exact hcr hc
    rw [lineBreaks, if_neg hno, ih]

/-! ## Cuts -/

theorem not_splitsPair_nil_left (v : List Char) : ¬ SplitsPair [] v :=
  fun h => nomatch h.1

theorem not_splitsPair_nil_right (u : List Char) : ¬ SplitsPair u [] :=
  fun h => nomatch h.2

/-- What comes before the last character makes no difference to whether a pair is split. -/
theorem SplitsPair.cons (h : SplitsPair u v) : SplitsPair (c :: u) v := by
  refine ⟨?_, h.2⟩
  rw [List.getLast?_cons, h.1]
  rfl

/-- A pair is split behind its carriage return. -/
theorem SplitsPair.of_cons (h : SplitsPair (c :: u) v) : u = [] ∧ c = '\r' ∨ SplitsPair u v := by
  obtain ⟨hlast, hhead⟩ := h
  cases u with
  | nil => exact .inl ⟨rfl, Option.some.inj hlast⟩
  | cons d u =>
    rw [List.getLast?_cons_cons] at hlast
    exact .inr ⟨hlast, hhead⟩

/-- A cut behind two texts is one behind the second, if that is not empty. -/
theorem SplitsPair.of_append (h : SplitsPair (u ++ v) s) :
    v = [] ∧ SplitsPair u s ∨ SplitsPair v s := by
  obtain ⟨hlast, hhead⟩ := h
  rw [List.getLast?_append] at hlast
  cases v with
  | nil => exact .inl ⟨rfl, hlast, hhead⟩
  | cons c v =>
    rw [List.getLast?_cons, Option.some_or] at hlast
    exact .inr ⟨by rw [List.getLast?_cons, hlast], hhead⟩

theorem not_splitsPair_cons (hc : c ≠ '\r') (h : ¬ SplitsPair u v) : ¬ SplitsPair (c :: u) v := by
  intro hsplits
  rcases hsplits.of_cons with ⟨-, hcr⟩ | hsplits
  · exact hc hcr
  · exact h hsplits

/-- A pair that is split in front of a text is split in front of a longer one. -/
theorem SplitsPair.append (h : SplitsPair u v) (s : List Char) : SplitsPair u (v ++ s) := by
  refine ⟨h.1, ?_⟩
  rw [List.head?_append, h.2]
  rfl

/-- No pair is split behind a text without line ends. -/
theorem not_splitsPair_of_forall (h : ∀ c ∈ u, isLineEnd c = false) : ¬ SplitsPair u v := by
  intro hsplits
  have hcr := h '\r' (List.mem_of_getLast? hsplits.1)
  cases hcr

/-- A carriage return without a line feed has none behind a cut either, if the cut splits no
pair. -/
theorem not_pair_append (h : ¬ SplitsPair ('\r' :: u) v)
    (hpair : ∀ rest, u = '\n' :: rest → False) : ∀ rest, u ++ v = '\n' :: rest → False := by
  intro rest heq
  cases u with
  | nil => exact h ⟨rfl, by rw [← List.nil_append v, heq, List.head?_cons]⟩
  | cons d u => exact hpair u (by rw [(List.cons.inj heq).1])

/-- A cut that splits no pair shares out the line ends. -/
theorem lineEnds_append (h : ¬ SplitsPair u v) : lineEnds (u ++ v) = lineEnds u ++ lineEnds v := by
  fun_induction lineEnds u with
  | case1 => rfl
  | case2 rest ih =>
    have hrest := ih fun hsplits => h hsplits.cons.cons
    rw [List.cons_append, List.cons_append, lineEnds, hrest, List.cons_append]
  | case3 rest hpair ih =>
    have hrest := ih fun hsplits => h hsplits.cons
    rw [List.cons_append, lineEnds, hrest, List.cons_append]
    exact not_pair_append h hpair
  | case4 rest ih =>
    have hrest := ih fun hsplits => h hsplits.cons
    rw [List.cons_append, lineEnds, hrest, List.cons_append]
  | case5 c rest _ hcr hlf ih =>
    have hrest := ih fun hsplits => h hsplits.cons
    rw [List.cons_append, lineEnds, hrest]
    · exact fun _ hc _ => hcr hc
    · exact hcr
    · exact hlf

theorem lineBreaks_append (h : ¬ SplitsPair u v) :
    lineBreaks (u ++ v) = lineBreaks u + lineBreaks v := by
  rw [← length_lineEnds, ← length_lineEnds, ← length_lineEnds, lineEnds_append h,
    List.length_append]

theorem isLineEnd_eq_false_iff : isLineEnd c = false ↔ c ≠ '\n' ∧ c ≠ '\r' := by
  simp [isLineEnd]

theorem lineBreaks_cons (h : isLineEnd c = false) : lineBreaks (c :: s) = lineBreaks s := by
  obtain ⟨hlf, hcr⟩ := isLineEnd_eq_false_iff.1 h
  rw [lineBreaks, if_neg]
  rintro (hc | ⟨hc, -⟩)
  · exact hlf hc
  · exact hcr hc

theorem lineBreaks_of_forall (h : ∀ c ∈ u, isLineEnd c = false) : lineBreaks u = 0 := by
  induction u with
  | nil => rfl
  | cons c u ih =>
    rw [lineBreaks_cons (h c List.mem_cons_self), ih fun d hd => h d (List.mem_cons_of_mem _ hd)]

/-! ## Trivia -/

namespace Trivia

theorem ne_carriageReturn_of_isBlank (h : isBlank c = true) : c ≠ '\r' := by
  rintro rfl
  cases h

/-- Inside a block comment every character is trivia. -/
theorem length_blockComment_pos (c : Char) (s : List Char) : 0 < length .blockComment (c :: s) := by
  by_cases h : ∃ rest, c = '*' ∧ s = '/' :: rest
  · obtain ⟨rest, rfl, rfl⟩ := h
    exact Nat.succ_pos _
  · rw [length]
    · exact Nat.succ_pos _
    · intro rest hc hs
      exact h ⟨rest, hc, hs⟩

/-- Trivia does not end within a pair. -/
theorem not_splitsPair_length (context : Context) (s : List Char) :
    ¬ SplitsPair (s.take (length context s)) (s.drop (length context s)) := by
  fun_induction length context s with
  | case1 => exact not_splitsPair_nil_left _
  | case2 rest ih => exact not_splitsPair_cons (by decide) (not_splitsPair_cons (by decide) ih)
  | case3 rest ih => exact not_splitsPair_cons (by decide) (not_splitsPair_cons (by decide) ih)
  | case4 c rest _ _ h ih => exact not_splitsPair_cons (ne_carriageReturn_of_isBlank h) ih
  | case5 c rest _ _ h => exact not_splitsPair_nil_left _
  | case6 c rest h => exact not_splitsPair_nil_left _
  | case7 c rest h ih =>
    refine not_splitsPair_cons ?_ ih
    rintro rfl
    exact h rfl
  | case8 rest ih => exact not_splitsPair_cons (by decide) (not_splitsPair_cons (by decide) ih)
  | case9 c rest _ ih =>
    intro hsplits
    rcases hsplits.of_cons with ⟨hnil, -⟩ | hsplits
    · -- the comment goes on behind `c`, unless the text ends there
      cases rest with
      | nil => exact not_splitsPair_nil_right _ hsplits
      | cons d rest =>
        rw [List.take_eq_nil_iff] at hnil
        have hpos := length_blockComment_pos d rest
        rcases hnil with hzero | hnil
        · omega
        · cases hnil
    · exact ih hsplits

end Trivia

/-! ## Lexemes -/

theorem Numeral.text_ofStart_prefix (s : List Char) : (Numeral.ofStart s).text <+: s := by
  unfold Numeral.ofStart
  split
  · rename_i rest hrest
    rw [Numeral.text_some]
    refine ⟨rest.dropWhile Char.isDigit, ?_⟩
    rw [List.append_assoc, List.cons_append, List.takeWhile_append_dropWhile, ← hrest,
      List.takeWhile_append_dropWhile]
  · exact List.takeWhile_prefix _

/-- A number consists of digits and points. -/
theorem Numeral.isDigit_or_eq_point {s : List Char} (hc : c ∈ (Numeral.ofStart s).text) :
    c.isDigit = true ∨ c = '.' := by
  unfold Numeral.ofStart at hc
  split at hc
  · rw [Numeral.text_some, List.mem_append, List.mem_cons] at hc
    rcases hc with hc | hc | hc
    · exact .inl (List.mem_takeWhile_imp hc)
    · exact .inr hc
    · exact .inl (List.mem_takeWhile_imp hc)
  · exact .inl (List.mem_takeWhile_imp hc)

/-- A string stops short of the end of the line. -/
theorem isLineEnd_of_mem_take_quotedLength (hc : c ∈ s.take (quotedLength s)) :
    isLineEnd c = false := by
  fun_induction quotedLength s with
  | case1 => cases hc
  | case2 =>
    rw [List.mem_singleton.1 hc]
    rfl
  | case3 =>
    rw [List.mem_singleton.1 hc]
    rfl
  | case4 d rest h ih =>
    rcases List.mem_cons.1 hc with rfl | hc
    · rfl
    · rcases List.mem_cons.1 hc with rfl | hc
      · exact Bool.eq_false_iff.2 h
      · exact ih hc
  | case5 => cases hc
  | case6 d rest _ _ h ih =>
    rcases List.mem_cons.1 hc with rfl | hc
    · exact Bool.eq_false_iff.2 h
    · exact ih hc

theorem isLineEnd_of_isDigit (hc : c.isDigit = true) : isLineEnd c = false := by
  refine isLineEnd_eq_false_iff.2 ⟨?_, ?_⟩ <;> rintro rfl <;> cases hc

theorem isLineEnd_of_continuesWord (hc : continuesWord c = true) : isLineEnd c = false := by
  refine isLineEnd_eq_false_iff.2 ⟨?_, ?_⟩ <;> rintro rfl <;> exact absurd hc (by decide)

namespace Lexeme

variable {l : Lexeme}

/-- The text of a lexeme is what the text at hand begins with. -/
theorem text_prefix_of_first? (h : first? s = some l) : l.text <+: s := by
  cases s with
  | nil => cases h
  | cons c rest =>
    obtain rfl := Option.some.inj h
    split
    · rename_i hc
      exact ⟨rest, by rw [hc]; rfl⟩
    · split
      · rename_i hc
        split
        · rename_i hrest
          obtain ⟨rest', rfl⟩ := List.head?_eq_some_iff.1 hrest
          exact ⟨rest', by rw [hc]; rfl⟩
        · exact ⟨rest, by rw [hc]; rfl⟩
      · split
        · rename_i hc
          rw [hc]
          exact List.cons_prefix_cons.2 ⟨rfl, List.take_prefix _ rest⟩
        · split
          · exact Numeral.text_ofStart_prefix _
          · split
            · exact List.takeWhile_prefix _
            · exact ⟨rest, rfl⟩

/-- A lexeme is a line end or has none in it. -/
theorem eq_lineEnd_or_forall_of_first? (h : first? s = some l) :
    (∃ style, l = .lineEnd style) ∨ ∀ c ∈ l.text, isLineEnd c = false := by
  cases s with
  | nil => cases h
  | cons c rest =>
    obtain rfl := Option.some.inj h
    split
    · exact .inl ⟨_, rfl⟩
    · rename_i hlf
      split
      · exact .inl ⟨_, rfl⟩
      · rename_i hcr
        right
        intro d hd
        split at hd
        · rcases List.mem_cons.1 hd with rfl | hd
          · rfl
          · exact isLineEnd_of_mem_take_quotedLength hd
        · split at hd
          · rcases Numeral.isDigit_or_eq_point hd with hdigit | rfl
            · exact isLineEnd_of_isDigit hdigit
            · rfl
          · split at hd
            · exact isLineEnd_of_continuesWord (List.mem_takeWhile_imp hd)
            · rw [List.mem_singleton.1 hd]
              exact isLineEnd_eq_false_iff.2 ⟨hlf, hcr⟩

/-- A lexeme does not end within a pair. -/
theorem not_splitsPair_of_first? {after : List Char} (h : first? (l.text ++ after) = some l) :
    ¬ SplitsPair l.text after := by
  rcases eq_lineEnd_or_forall_of_first? h with ⟨style, rfl⟩ | hnone
  · rintro ⟨hlast, hhead⟩
    cases style with
    | lf | crlf => cases hlast
    | cr =>
      have hpair : first? ('\r' :: after) = some (.lineEnd .crlf) := by simp [first?, hhead]
      cases h.symm.trans hpair
  · exact not_splitsPair_of_forall hnone

end Lexeme

/-! ## Places in a text -/

namespace Position

/-- The position is a place in the text: what lies ahead is the rest of the text, no pair is split,
and the line is the number of line ends before, counted from 1. -/
def IsIn (s : List Char) (p : Position) : Prop :=
  ∃ before, s = before ++ p.text ∧ ¬ SplitsPair before p.text ∧
    p.line = 1 + (lineEnds before).length

variable {p : Position}

/-- To move on without splitting a pair leads to a place in the same text. -/
theorem IsIn.advance {n : Nat} (h : p.IsIn s)
    (hsplits : ¬ SplitsPair (p.text.take n) (p.text.drop n)) : (p.advance n).IsIn s := by
  obtain ⟨before, heq, hbefore, hline⟩ := h
  have htext : p.text.take n ++ p.text.drop n = p.text := List.take_append_drop n p.text
  have hjoins : ¬ SplitsPair before (p.text.take n) := by
    intro h
    refine hbefore ⟨h.1, ?_⟩
    rw [← htext, List.head?_append, h.2]
    rfl
  refine ⟨before ++ p.text.take n, ?_, ?_, ?_⟩
  · rw [List.append_assoc, heq]
    exact congrArg (before ++ ·) htext.symm
  · intro h
    rcases h.of_append with ⟨hnil, h⟩ | h
    · rw [hnil, List.nil_append] at htext
      rw [← htext] at hbefore
      exact hbefore h
    · exact hsplits h
  · rw [lineEnds_append hjoins, List.length_append, length_lineEnds (p.text.take n),
      ← Nat.add_assoc, ← hline]
    rfl

theorem isIn_ofSource (source : String) : (ofSource source).IsIn source.toList := by
  unfold ofSource dropByteOrderMark
  split
  · rename_i rest hsource
    refine ⟨['\uFEFF'], hsource, ?_, rfl⟩
    exact not_splitsPair_cons (by decide) (not_splitsPair_nil_left rest)
  · exact ⟨[], rfl, not_splitsPair_nil_left _, rfl⟩

/-- To pass over trivia leads to a place in the same text. -/
theorem IsIn.passTrivia (h : p.IsIn s) : p.passTrivia.IsIn s :=
  h.advance (Trivia.not_splitsPair_length .between p.text)

/-- To move on past a token leads to a place in the same text. -/
theorem IsIn.pastToken (h : p.IsIn s) : p.pastToken.IsIn s := by
  unfold Position.pastToken
  split
  · exact h
  · rename_i l hl
    apply h.advance
    obtain ⟨after, hafter⟩ := Lexeme.text_prefix_of_first? hl
    rw [← hafter, List.take_left, List.drop_left]
    rw [← hafter] at hl
    exact Lexeme.not_splitsPair_of_first? hl

end Position

end BugsLang
