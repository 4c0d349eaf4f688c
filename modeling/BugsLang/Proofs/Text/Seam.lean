import BugsLang.Proofs.Text.Partition
import BugsLang.Proofs.Text.Shift

/-!
# Sources taken apart behind a lexeme

A source that is cut right behind a lexeme can go on there with another text. If the lexeme is still
a whole one in front of that text, then all that comes before it is read as it was, and what comes
after is read as it would be from there on.

## Main definitions

* `CutBehind l u v`: the lexeme `l` of the source `u ++ v` ends where `u` does.

## Main statements

* `Stretch.Fits.of_head?_eq`: one character tells whether a stretch is a whole one.
* `CutBehind.exists_tokens`: the tokens of a source that goes on in some way behind the lexeme.
* `CutBehind.exists_tokens_lineEnd`: the same behind the end of a line.
-/

namespace BugsLang

/-- The cut between `u` and `v` lies behind the lexeme `l` of the source `u ++ v`. -/
def CutBehind (l : Lexeme) (u v : String) : Prop :=
  ∃ before behind,
    Partition (before ++ .lexeme l :: behind) (Position.dropByteOrderMark (u ++ v).toList) ∧
      Partition behind v.toList

variable {u v w s : List Char} {x : Stretch} {stretches others behind : List Stretch}

/-- Whether a stretch is a whole one is told by the character behind it. -/
theorem Stretch.Fits.of_head?_eq (h : x.Fits v) (hhead : w.head? = v.head?) : x.Fits w := by
  cases x with
  | trivia p =>
    cases p with
    | blanks layout =>
      unfold Fits Trivia.Piece.Fits StopsAt
      rw [hhead]
      exact h
    | lineComment body =>
      unfold Fits Trivia.Piece.Fits EndsLine
      rw [hhead]
      exact h
    | blockComment body =>
      refine h.imp_right fun hopen => ⟨hopen.1, ?_⟩
      rwa [hopen.2, List.head?_nil, List.head?_eq_none_iff] at hhead
  | lexeme l =>
    cases l with
    | lineEnd style =>
      cases style with
      | lf | crlf => trivial
      | cr =>
        unfold Fits Lexeme.Fits
        rw [hhead]
        exact h
    | quoted body =>
      unfold Fits Lexeme.Fits EndsLine
      rw [hhead]
      exact h
    | number n =>
      unfold Fits Lexeme.Fits StopsAt
      rw [hhead]
      exact h
    | word letters =>
      unfold Fits Lexeme.Fits StopsAt
      rw [hhead]
      exact h
    | mark c =>
      unfold Fits Lexeme.Fits
      rw [hhead]
      exact h

namespace Partition

/-- What lies behind some stretches is cut into the others. -/
theorem of_append (h : Partition (stretches ++ others) s) :
    Partition others (others.flatMap Stretch.text) := by
  induction stretches generalizing s with
  | nil => rwa [← h.flatMap_text] at h
  | cons x stretches ih =>
    obtain ⟨v, -, -, hv⟩ := h
    exact ih hv

/-- The cut between two stretches splits no pair. -/
theorem not_splitsPair (h : Partition (stretches ++ others) s) :
    ¬ SplitsPair (stretches.flatMap Stretch.text) (others.flatMap Stretch.text) := by
  induction stretches generalizing s with
  | nil => exact not_splitsPair_nil_left _
  | cons x stretches ih =>
    obtain ⟨v, -, hfits, hv⟩ := h
    change Partition (stretches ++ others) v at hv
    have hx := Stretch.not_splitsPair_of_fits hfits
    rw [← hv.flatMap_text, List.flatMap_append] at hx
    intro hsplits
    rw [List.flatMap_cons] at hsplits
    rcases hsplits.of_append with ⟨hnil, hsplits⟩ | hsplits
    · rw [hnil] at hx
      exact hx hsplits
    · exact ih hv hsplits

/-- Behind a stretch that stays a whole one the text can be another one. -/
theorem replace (h : Partition (stretches ++ x :: others) s) (hfits : x.Fits w)
    (hw : Partition behind w) :
    Partition (stretches ++ x :: behind)
      (stretches.flatMap Stretch.text ++ (x.text ++ w)) := by
  induction stretches generalizing s with
  | nil => exact ⟨w, rfl, hfits, hw⟩
  | cons y stretches ih =>
    obtain ⟨v, -, hy, hv⟩ := h
    change Partition (stretches ++ x :: others) v at hv
    refine ⟨stretches.flatMap Stretch.text ++ (x.text ++ w), ?_, ?_, ih hv⟩
    · rw [List.flatMap_cons, List.append_assoc]
    · -- `x` has a first character, so what comes behind `x` is not what comes behind `y`
      obtain ⟨c, rest, hc⟩ := List.exists_cons_of_ne_nil (Stretch.text_ne_nil_of_fits hfits)
      apply hy.of_head?_eq
      rw [← hv.flatMap_text, List.flatMap_append, List.flatMap_cons, hc]
      simp only [List.head?_append, List.cons_append, List.head?_cons]

end Partition

/-! ## Sources -/

namespace Position

theorem dropByteOrderMark_append (hu : u ≠ []) :
    dropByteOrderMark (u ++ v) = dropByteOrderMark u ++ v := by
  obtain ⟨c, rest, rfl⟩ := List.exists_cons_of_ne_nil hu
  by_cases hc : c = '\uFEFF'
  · rw [hc]
    rfl
  · have hhead (s : List Char) : (c :: s).head? ≠ some '\uFEFF' := fun h => hc (Option.some.inj h)
    rw [List.cons_append, dropByteOrderMark_of_head?_ne (hhead _),
      dropByteOrderMark_of_head?_ne (hhead _), List.cons_append]

theorem length_dropByteOrderMark_le (s : List Char) : (dropByteOrderMark s).length ≤ s.length := by
  unfold dropByteOrderMark
  split
  · exact Nat.le_succ _
  · exact Nat.le_refl _

/-- The byte order mark ends no line. -/
theorem lineBreaks_dropByteOrderMark (s : List Char) :
    lineBreaks (dropByteOrderMark s) = lineBreaks s := by
  unfold dropByteOrderMark
  split <;> rfl

theorem text_ofSource_append (u v : String) (hu : u.toList ≠ []) :
    (ofSource (u ++ v)).text = dropByteOrderMark u.toList ++ v.toList := by
  rw [ofSource, String.toList_append, dropByteOrderMark_append hu]

end Position

/-- Up to the lexeme the tokens of the source are the same whichever way it goes on, as long as the
lexeme stays a whole one. Behind the lexeme come the tokens ahead on that line. -/
theorem CutBehind.exists_tokens {l : Lexeme} {u v : String} (h : CutBehind l u v) :
    l.Fits v.toList ∧
    ∃ before line, line + lineBreaks l.text = 1 + lineBreaks u.toList ∧
      ∀ w : String, l.Fits w.toList →
        locatedTokens (u ++ w) = before ++ ⟨line, l.token⟩ ::
          (⟨w.toList, line + lineBreaks l.text⟩ : Position).tokens := by
  obtain ⟨stretches, others, hcut, hv⟩ := h
  obtain ⟨v', htext, hfits, hothers⟩ := hcut.of_append
  obtain rfl : v' = v.toList := hothers.flatMap_text.symm.trans hv.flatMap_text
  have hall := hcut.flatMap_text
  rw [List.flatMap_append, htext] at hall
  have hu : u.toList ≠ [] := by
    -- the lexeme takes a character, so what lies behind is not all of the source
    intro hu
    have hlexeme := List.length_pos_iff.2 (Stretch.text_ne_nil_of_fits hfits)
    have hlength := congrArg List.length hall
    have hle := Position.length_dropByteOrderMark_le v.toList
    rw [String.toList_append, hu, List.nil_append, List.length_append,
      List.length_append] at hlength
    omega
  rw [String.toList_append, Position.dropByteOrderMark_append hu, ← List.append_assoc,
    List.append_cancel_right_eq] at hall
  refine ⟨hfits, locate 1 stretches, 1 + lineBreaks (stretches.flatMap Stretch.text), ?_, ?_⟩
  · have hsplits : ¬ SplitsPair (stretches.flatMap Stretch.text) l.text := by
      intro hsplits
      apply hcut.not_splitsPair
      rw [htext]
      exact hsplits.append _
    rw [← Position.lineBreaks_dropByteOrderMark u.toList, ← hall, Nat.add_assoc]
    exact congrArg (1 + ·) (lineBreaks_append hsplits).symm
  · intro w hw
    obtain ⟨behind, hbehind⟩ := exists_partition w.toList
    have hcut' := hcut.replace (x := .lexeme l) hw hbehind
    have htext' : (Position.ofSource (u ++ w)).text =
        stretches.flatMap Stretch.text ++ (l.text ++ w.toList) := by
      rw [Position.text_ofSource_append u w hu, ← hall, List.append_assoc]
      rfl
    change Partition _ (stretches.flatMap Stretch.text ++ (l.text ++ w.toList)) at hcut'
    rw [← htext'] at hcut'
    have hlexeme : Partition (.lexeme l :: behind) (l.text ++ w.toList) :=
      ⟨w.toList, rfl, hw, hbehind⟩
    rw [locatedTokens, hcut'.tokens_append hlexeme, Position.tokens_of_lexeme rfl hw]
    rfl

/-- Behind the end of a line the source may go on as it does, or with anything but a line feed. The
line that ends there is as far down as there are line ends up to it. -/
theorem CutBehind.exists_tokens_lineEnd {style : LineEnd} {u v : String}
    (h : CutBehind (.lineEnd style) u v) :
    let n := lineBreaks u.toList
    ∃ before, locatedTokens u = before ++ [⟨n, .lineEnd⟩, ⟨1 + n, .inputEnd⟩] ∧
      ∀ w : String, w = v ∨ w.toList.head? ≠ some '\n' →
        locatedTokens (u ++ w) =
          before ++ ⟨n, .lineEnd⟩ :: (⟨w.toList, 1 + n⟩ : Position).tokens := by
  intro n
  obtain ⟨hfits, before, line, hline, htokens⟩ := h.exists_tokens
  have hone : lineBreaks (Lexeme.lineEnd style).text = 1 := lineBreaks_text_lineEnd style
  rw [hone] at hline htokens
  obtain rfl : line = n := by omega
  rw [hline] at htokens
  have hfeed {w : List Char} (hw : w.head? ≠ some '\n') : (Lexeme.lineEnd style).Fits w := by
    cases style with
    | lf | crlf => trivial
    | cr => exact hw
  refine ⟨before, ?_, ?_⟩
  · have hnone := htokens "" (hfeed (w := []) (by decide))
    rw [String.append_empty] at hnone
    rw [hnone]
    exact congrArg (before ++ _ :: ·) (Position.tokens_nil (1 + n))
  · intro w hw
    have hw : (Lexeme.lineEnd style).Fits w.toList := by
      rcases hw with rfl | hw
      · exact hfits
      · exact hfeed hw
    exact htokens w hw

end BugsLang
