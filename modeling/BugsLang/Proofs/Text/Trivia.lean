import BugsLang.Proofs.Text.Character
import Mathlib.Data.List.TakeWhile

/-!
# Trivia

Trivia is made up of pieces: blank characters and comments. What a piece looks like, and what may
stand behind it, is said here without a scanner. `Fits` tells whether the piece ends where it should
when some text follows. The piece that fits is the first one that a scanner finds.

## Main definitions

* `Trivia.Piece`: blank characters or a comment.
* `Trivia.Piece.Fits`: the piece is a whole one in front of a text.
* `Trivia.Piece.first?`: the piece that a text starts with.

## Main statements

* `Trivia.Piece.first?_of_fits`, `Trivia.Piece.fits_of_first?`: the piece that fits is the first
  one.
* `Trivia.length_append_of_fits`, `Trivia.length_of_first?_eq_none`: the length of trivia is that of
  its pieces.
-/

namespace BugsLang

namespace Trivia

/-- What closes a block comment. -/
def closing : List Char := ['*', '/']

/-- A piece of trivia. -/
inductive Piece where
  /-- Blank characters. -/
  | blanks (layout : List Char)
  /-- A line comment, with what follows its two slashes. -/
  | lineComment (body : List Char)
  /-- A block comment, with what follows its slash and star. -/
  | blockComment (body : List Char)
deriving DecidableEq, Repr

namespace Piece

/-- The characters of the piece as they stand in the source. -/
def text : Piece → List Char
  | blanks layout => layout
  | lineComment body => '/' :: '/' :: body
  | blockComment body => '/' :: '*' :: body

/-- The piece is a whole piece of trivia in front of the text. Blank characters are as many as there
are. A line comment goes to the end of the line. A block comment goes to the first star and slash
behind its opening, or to the end of the source if there is none. -/
def Fits (after : List Char) : Piece → Prop
  | blanks layout => layout ≠ [] ∧ (∀ c ∈ layout, isBlank c = true) ∧ StopsAt isBlank after
  | lineComment body => (∀ c ∈ body, isLineEnd c = false) ∧ EndsLine after
  | blockComment body =>
    (∃ inner, body = inner ++ closing ∧ ¬ closing <:+: inner ++ ['*']) ∨
      (¬ closing <:+: body ∧ after = [])

end Piece

variable {c : Char} {u v s : List Char} {p : Piece}

/-- The number of characters that belong to a block comment after its opening, the closing
included. -/
def blockLength : List Char → Nat
  | [] => 0
  | '*' :: '/' :: _ => 2
  | _ :: rest => blockLength rest + 1

/-- The trivia that the text starts with, or `none` where it does not start with trivia. -/
def Piece.first? : List Char → Option Piece
  | '/' :: '/' :: rest => some (lineComment (rest.takeWhile (!isLineEnd ·)))
  | '/' :: '*' :: rest => some (blockComment (rest.take (blockLength rest)))
  | c :: rest => if isBlank c then some (blanks ((c :: rest).takeWhile isBlank)) else none
  | [] => none

/-! ## Block comments -/

theorem closing_infix_cons_iff :
    closing <:+: c :: s ↔ c = '*' ∧ s.head? = some '/' ∨ closing <:+: s := by
  rw [List.infix_cons_iff]
  refine or_congr_left ?_
  cases s <;> simp [closing, eq_comm]

theorem blockLength_cons (h : ¬ (c = '*' ∧ s.head? = some '/')) :
    blockLength (c :: s) = blockLength s + 1 := by
  rw [blockLength]
  intro rest hc hs
  exact h ⟨hc, by rw [hs, List.head?_cons]⟩

/-- A comment ends with the first closing in it. -/
theorem blockLength_of_closed (h : ¬ closing <:+: u ++ ['*']) :
    blockLength (u ++ closing ++ v) = (u ++ closing).length := by
  induction u with
  | nil => rfl
  | cons c u ih =>
    rw [List.cons_append, closing_infix_cons_iff, not_or] at h
    -- behind `c` comes a character of `u`, or the star of the closing
    have hhead : ((u ++ closing) ++ v).head? = (u ++ ['*']).head? := by
      cases u <;> rfl
    rw [List.cons_append, List.cons_append, blockLength_cons (by rw [hhead]; exact h.1), ih h.2]
    rfl

/-- A comment without a closing goes to the end of the text. -/
theorem blockLength_of_open (h : ¬ closing <:+: u) : blockLength u = u.length := by
  induction u with
  | nil => rfl
  | cons c u ih =>
    rw [closing_infix_cons_iff, not_or] at h
    rw [blockLength_cons h.1, ih h.2]
    rfl

/-- Either a text has a first closing or it has none. -/
theorem exists_closed_or_open (s : List Char) :
    (∃ u v, s = u ++ closing ++ v ∧ ¬ closing <:+: u ++ ['*']) ∨ ¬ closing <:+: s := by
  induction s with
  | nil => exact .inr (by decide)
  | cons c s ih =>
    by_cases hcloses : c = '*' ∧ s.head? = some '/'
    · -- no closing comes before the one at the start, not even one that shares its star
      obtain ⟨rfl, hhead⟩ := hcloses
      obtain ⟨v, rfl⟩ := List.head?_eq_some_iff.1 hhead
      exact .inl ⟨[], v, rfl, by decide⟩
    · obtain ⟨u, v, rfl, hfirst⟩ | hnone := ih
      · refine .inl ⟨c :: u, v, rfl, ?_⟩
        have hhead : ((u ++ closing) ++ v).head? = (u ++ ['*']).head? := by
          cases u <;> rfl
        rw [List.cons_append, closing_infix_cons_iff, ← hhead]
        exact not_or.2 ⟨hcloses, hfirst⟩
      · exact .inr (mt closing_infix_cons_iff.1 (not_or.2 ⟨hcloses, hnone⟩))

/-- A block comment that fits is as long as the scanner finds it. -/
theorem blockLength_of_fits (h : (Piece.blockComment u).Fits v) :
    blockLength (u ++ v) = u.length := by
  obtain ⟨inner, rfl, hfirst⟩ | ⟨hnone, rfl⟩ := h
  · exact blockLength_of_closed hfirst
  · rw [List.append_nil]
    exact blockLength_of_open hnone

/-- What the scanner finds is a block comment that fits. -/
theorem fits_blockComment (s : List Char) :
    (Piece.blockComment (s.take (blockLength s))).Fits (s.drop (blockLength s)) := by
  obtain ⟨u, v, rfl, hfirst⟩ | hnone := exists_closed_or_open s
  · rw [blockLength_of_closed hfirst, List.take_left, List.drop_left]
    exact .inl ⟨u, rfl, hfirst⟩
  · rw [blockLength_of_open hnone, List.take_length, List.drop_length]
    exact .inr ⟨hnone, rfl⟩

/-! ## Pieces -/

namespace Piece

theorem ne_slash_of_isBlank (h : isBlank c = true) : c ≠ '/' := by
  rintro rfl
  cases h

theorem first?_lineComment :
    first? ('/' :: '/' :: s) = some (lineComment (s.takeWhile (!isLineEnd ·))) := rfl

theorem first?_blockComment :
    first? ('/' :: '*' :: s) = some (blockComment (s.take (blockLength s))) := rfl

/-- What is no comment is blank, or there is no trivia. -/
theorem first?_cons (hline : ∀ rest, c = '/' → s = '/' :: rest → False)
    (hblock : ∀ rest, c = '/' → s = '*' :: rest → False) :
    first? (c :: s) =
      if isBlank c then some (blanks ((c :: s).takeWhile isBlank)) else none := by
  rw [first?]
  · exact hline
  · exact hblock

theorem first?_of_isBlank (h : isBlank c = true) :
    first? (c :: s) = some (blanks ((c :: s).takeWhile isBlank)) := by
  have hc := ne_slash_of_isBlank h
  rw [first?_cons (fun _ heq _ => hc heq) (fun _ heq _ => hc heq), if_pos h]

/-- The piece that fits is the first one. -/
theorem first?_of_fits (h : p.Fits v) : first? (p.text ++ v) = some p := by
  cases p with
  | blanks layout =>
    obtain ⟨hne, hblank, hstops⟩ := h
    -- a blank character is no slash, so neither of the comments is tried
    obtain ⟨c, rest, rfl⟩ := List.exists_cons_of_ne_nil hne
    rw [text, List.cons_append, first?_of_isBlank (hblank c List.mem_cons_self), ← List.cons_append,
      takeWhile_append_of_stopsAt hblank hstops]
  | lineComment body =>
    obtain ⟨hbody, hends⟩ := h
    have htake : (body ++ v).takeWhile (!isLineEnd ·) = body := by
      apply takeWhile_append_of_stopsAt
      · intro c hc
        simpa using hbody c hc
      · intro c hc
        simpa using hends c hc
    rw [text, List.cons_append, List.cons_append, first?_lineComment, htake]
  | blockComment body =>
    rw [text, List.cons_append, List.cons_append, first?_blockComment, blockLength_of_fits h,
      List.take_left]

/-- The first piece is one that fits. -/
theorem fits_of_first? (h : first? s = some p) : ∃ v, s = p.text ++ v ∧ p.Fits v := by
  unfold first? at h
  split at h
  · rename_i rest
    obtain rfl := Option.some.inj h
    refine ⟨rest.dropWhile (!isLineEnd ·), ?_, ?_, ?_⟩
    · rw [text, List.cons_append, List.cons_append, List.takeWhile_append_dropWhile]
    · intro c hc
      simpa using List.mem_takeWhile_imp hc
    · intro c hc
      simpa using stopsAt_dropWhile _ _ c hc
  · rename_i rest
    obtain rfl := Option.some.inj h
    refine ⟨rest.drop (blockLength rest), ?_, fits_blockComment rest⟩
    rw [text, List.cons_append, List.cons_append, List.take_append_drop]
  · rename_i c rest _ _
    by_cases hblank : isBlank c = true
    · rw [if_pos hblank] at h
      obtain rfl := Option.some.inj h
      refine ⟨(c :: rest).dropWhile isBlank, ?_, ?_, ?_, stopsAt_dropWhile isBlank _⟩
      · rw [text, List.takeWhile_append_dropWhile]
      · rw [List.takeWhile_cons_of_pos hblank]
        exact List.cons_ne_nil _ _
      · exact fun c hc => List.mem_takeWhile_imp hc
    · rw [if_neg hblank] at h
      cases h
  · cases h

theorem text_ne_nil_of_fits (h : p.Fits v) : p.text ≠ [] := by
  cases p with
  | blanks layout => exact h.1
  | lineComment body | blockComment body => exact List.cons_ne_nil _ _

end Piece

/-! ## The length of trivia -/

theorem length_blanks_append (hu : ∀ c ∈ u, isBlank c = true) :
    length .between (u ++ v) = u.length + length .between v := by
  induction u with
  | nil => simp
  | cons c u ih =>
    have hc := hu c List.mem_cons_self
    have hslash := Piece.ne_slash_of_isBlank hc
    rw [List.cons_append, length, if_pos hc, ih fun d hd => hu d (List.mem_cons_of_mem c hd),
      List.length_cons]
    · omega
    · exact fun _ heq _ => hslash heq
    · exact fun _ heq _ => hslash heq

theorem length_lineComment_append (hu : ∀ c ∈ u, isLineEnd c = false) (hv : EndsLine v) :
    length .lineComment (u ++ v) = u.length := by
  induction u with
  | nil =>
    cases v with
    | nil => rfl
    | cons c v => simp [length, hv c rfl]
  | cons c u ih =>
    have hc : ¬ isLineEnd c = true := Bool.eq_false_iff.1 (hu c List.mem_cons_self)
    rw [List.cons_append, length, if_neg hc, ih fun d hd => hu d (List.mem_cons_of_mem c hd),
      List.length_cons]

/-- There is no trivia in front of a line end. -/
theorem length_of_endsLine (h : EndsLine v) : length .between v = 0 := by
  cases v with
  | nil => rfl
  | cons c v =>
    have hc := h c rfl
    have hblank : ¬ isBlank c = true := Bool.eq_false_iff.1 (isBlank_of_isLineEnd hc)
    rw [length, if_neg hblank]
    all_goals
      rintro _ rfl _
      cases hc

theorem length_blockComment_eq (s : List Char) :
    length .blockComment s = blockLength s + length .between (s.drop (blockLength s)) := by
  fun_induction blockLength s with
  | case1 => rfl
  | case2 rest =>
    rw [length, Nat.add_comm]
    rfl
  | case3 c rest hopen ih =>
    rw [length, ih, List.drop_succ_cons]
    · omega
    · exact hopen

/-- A piece that fits is trivia, and then comes the trivia behind it. -/
theorem length_append_of_fits (h : p.Fits v) :
    length .between (p.text ++ v) = p.text.length + length .between v := by
  cases p with
  | blanks layout => exact length_blanks_append h.2.1
  | lineComment body =>
    obtain ⟨hbody, hends⟩ := h
    rw [Piece.text, List.cons_append, List.cons_append, length,
      length_lineComment_append hbody hends, length_of_endsLine hends]
    rfl
  | blockComment body =>
    rw [Piece.text, List.cons_append, List.cons_append, length, length_blockComment_eq,
      blockLength_of_fits h, List.drop_left, List.length_cons, List.length_cons]
    omega

/-- Where no piece comes first there is no trivia. -/
theorem length_of_first?_eq_none (h : Piece.first? s = none) : length .between s = 0 := by
  unfold Piece.first? at h
  split at h
  · cases h
  · cases h
  · rename_i c rest hline hblock
    by_cases hblank : isBlank c = true
    · rw [if_pos hblank] at h
      cases h
    · rw [length, if_neg hblank]
      · exact hline
      · exact hblock
  · rfl

namespace Piece

/-- Which texts do not start with trivia. -/
theorem first?_cons_eq_none_iff :
    first? (c :: s) = none ↔
      isBlank c = false ∧ ¬ (c = '/' ∧ (s.head? = some '/' ∨ s.head? = some '*')) := by
  by_cases hcomment : c = '/' ∧ (s.head? = some '/' ∨ s.head? = some '*')
  · obtain ⟨rfl, hhead | hhead⟩ := hcomment
    · obtain ⟨rest, rfl⟩ := List.head?_eq_some_iff.1 hhead
      simp [first?_lineComment]
    · obtain ⟨rest, rfl⟩ := List.head?_eq_some_iff.1 hhead
      simp [first?_blockComment]
  · have hline : ∀ rest, c = '/' → s = '/' :: rest → False := by
      intro rest hc hs
      exact hcomment ⟨hc, .inl (by rw [hs, List.head?_cons])⟩
    have hblock : ∀ rest, c = '/' → s = '*' :: rest → False := by
      intro rest hc hs
      exact hcomment ⟨hc, .inr (by rw [hs, List.head?_cons])⟩
    rw [first?_cons hline hblock]
    simp [hcomment]

end Piece

end Trivia

end BugsLang
