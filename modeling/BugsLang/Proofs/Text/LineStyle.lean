import BugsLang.Proofs.Text.Partition
import BugsLang.Proofs.Text.Shift

/-!
# Styles of line ends

Whether lines end with a line feed, a carriage return or both makes no difference. If all line ends
of a source are written as line feeds, each stretch of it becomes one of the same kind, with as many
line ends in it, so its tokens and their lines stay what they are.

## Main definitions

* `unifyLineEnds s`: the text with every line end written as a line feed.

## Main statements

* `Partition.unified`: the stretches of such a text.
* `locatedTokens_unifyLineEnds`: the tokens of such a source.
-/

namespace BugsLang

/-- The text with every line end written as a line feed. -/
def unifyLineEnds : List Char → List Char
  | [] => []
  | '\r' :: '\n' :: rest => '\n' :: unifyLineEnds rest
  | '\r' :: rest => '\n' :: unifyLineEnds rest
  | c :: rest => c :: unifyLineEnds rest

variable {c d : Char} {u v s : List Char}

theorem unifyLineEnds_pair : unifyLineEnds ('\r' :: '\n' :: s) = '\n' :: unifyLineEnds s := rfl

theorem unifyLineEnds_carriageReturn (h : ∀ rest, s = '\n' :: rest → False) :
    unifyLineEnds ('\r' :: s) = '\n' :: unifyLineEnds s := by
  rw [unifyLineEnds]
  exact h

theorem unifyLineEnds_cons (h : c ≠ '\r') : unifyLineEnds (c :: s) = c :: unifyLineEnds s := by
  rw [unifyLineEnds]
  · exact fun _ hc _ => h hc
  · exact h

theorem unifyLineEnds_of_forall (h : ∀ c ∈ s, isLineEnd c = false) : unifyLineEnds s = s := by
  induction s with
  | nil => rfl
  | cons c s ih =>
    have hc := isLineEnd_eq_false_iff.1 (h c List.mem_cons_self)
    rw [unifyLineEnds_cons hc.2, ih fun d hd => h d (List.mem_cons_of_mem c hd)]

/-- A cut that splits no pair is a cut of the rewritten text. -/
theorem unifyLineEnds_append (h : ¬ SplitsPair u v) :
    unifyLineEnds (u ++ v) = unifyLineEnds u ++ unifyLineEnds v := by
  fun_induction lineEnds u with
  | case1 => rfl
  | case2 rest ih =>
    have hrest := ih fun hsplits => h hsplits.cons.cons
    rw [List.cons_append, List.cons_append, unifyLineEnds_pair, hrest, unifyLineEnds_pair,
      List.cons_append]
  | case3 rest hpair ih =>
    have hrest := ih fun hsplits => h hsplits.cons
    rw [List.cons_append, unifyLineEnds_carriageReturn (not_pair_append h hpair), hrest,
      unifyLineEnds_carriageReturn hpair, List.cons_append]
  | case4 rest ih =>
    have hrest := ih fun hsplits => h hsplits.cons
    rw [List.cons_append, unifyLineEnds_cons (by decide), hrest, unifyLineEnds_cons (by decide),
      List.cons_append]
  | case5 c rest _ hcr _ ih =>
    have hrest := ih fun hsplits => h hsplits.cons
    rw [List.cons_append, unifyLineEnds_cons hcr, hrest, unifyLineEnds_cons hcr, List.cons_append]

/-- As many lines end in the rewritten text. -/
theorem lineBreaks_unifyLineEnds (s : List Char) :
    lineBreaks (unifyLineEnds s) = lineBreaks s := by
  rw [← length_lineEnds, ← length_lineEnds]
  fun_induction lineEnds s with
  | case1 => rfl
  | case2 rest ih => rw [unifyLineEnds_pair, lineEnds, List.length_cons, List.length_cons, ih]
  | case3 rest hpair ih =>
    rw [unifyLineEnds_carriageReturn hpair, lineEnds, List.length_cons, List.length_cons, ih]
  | case4 rest ih =>
    rw [unifyLineEnds_cons (by decide), lineEnds, List.length_cons, List.length_cons, ih]
  | case5 c rest hpair hcr hlf ih =>
    rw [unifyLineEnds_cons hcr, lineEnds, ih]
    · exact fun _ hc _ => hcr hc
    · exact hcr
    · exact hlf

/-- The rewritten text starts as the text does, unless it starts with a line feed. -/
theorem head?_unifyLineEnds (h : (unifyLineEnds s).head? = some d) :
    s.head? = some d ∨ d = '\n' := by
  cases s with
  | nil => exact .inl h
  | cons c s =>
    by_cases hcr : c = '\r'
    · subst hcr
      by_cases hpair : s.head? = some '\n'
      · obtain ⟨rest, rfl⟩ := List.head?_eq_some_iff.1 hpair
        exact .inr (Option.some.inj h).symm
      · rw [unifyLineEnds_carriageReturn fun rest hs => hpair (by rw [hs, List.head?_cons])] at h
        exact .inr (Option.some.inj h).symm
    · rw [unifyLineEnds_cons hcr] at h
      exact .inl h

/-- No closing of a comment is made. -/
theorem closing_infix_of_unifyLineEnds (h : Trivia.closing <:+: unifyLineEnds s) :
    Trivia.closing <:+: s := by
  fun_induction lineEnds s with
  | case1 => exact h
  | case2 rest ih =>
    rw [unifyLineEnds_pair] at h
    rcases Trivia.closing_infix_cons_iff.1 h with ⟨hc, -⟩ | h
    · cases hc
    · exact List.infix_cons (List.infix_cons (ih h))
  | case3 rest hpair ih =>
    rw [unifyLineEnds_carriageReturn hpair] at h
    rcases Trivia.closing_infix_cons_iff.1 h with ⟨hc, -⟩ | h
    · cases hc
    · exact List.infix_cons (ih h)
  | case4 rest ih =>
    rw [unifyLineEnds_cons (by decide)] at h
    rcases Trivia.closing_infix_cons_iff.1 h with ⟨hc, -⟩ | h
    · cases hc
    · exact List.infix_cons (ih h)
  | case5 c rest _ hcr _ ih =>
    rw [unifyLineEnds_cons hcr] at h
    rcases Trivia.closing_infix_cons_iff.1 h with ⟨hc, hhead⟩ | h
    · rcases head?_unifyLineEnds hhead with hhead | hslash
      · exact Trivia.closing_infix_cons_iff.2 (.inl ⟨hc, hhead⟩)
      · cases hslash
    · exact List.infix_cons (ih h)

theorem StopsAt.unifyLineEnds {p : Char → Bool} (h : StopsAt p s) (hp : p '\n' = false) :
    StopsAt p (unifyLineEnds s) := by
  intro c hc
  rcases head?_unifyLineEnds hc with hc | rfl
  · exact h c hc
  · exact hp

theorem EndsLine.unifyLineEnds (h : EndsLine s) : EndsLine (unifyLineEnds s) := by
  intro c hc
  rcases head?_unifyLineEnds hc with hc | rfl
  · exact h c hc
  · rfl

theorem head?_unifyLineEnds_ne (h : s.head? ≠ some c) (hc : c ≠ '\n') :
    (unifyLineEnds s).head? ≠ some c := by
  intro hhead
  rcases head?_unifyLineEnds hhead with hhead | heq
  · exact h hhead
  · exact hc heq

/-! ## Stretches -/

namespace Stretch

/-- The stretch with every line end written as a line feed. Only line ends and block comments have
any in them. -/
def unified : Stretch → Stretch
  | trivia (.blockComment body) => trivia (.blockComment (unifyLineEnds body))
  | lexeme (.lineEnd _) => lexeme (.lineEnd .lf)
  | x => x

variable {x : Stretch}

theorem text_unified (h : x.Fits v) : x.unified.text = unifyLineEnds x.text := by
  cases x with
  | trivia p =>
    cases p with
    | blanks layout =>
      exact (unifyLineEnds_of_forall fun c hc => isLineEnd_of_isBlank (h.2.1 c hc)).symm
    | lineComment body =>
      have hbody : unifyLineEnds body = body := unifyLineEnds_of_forall h.1
      show _ = '/' :: '/' :: unifyLineEnds body
      rw [hbody]
      rfl
    | blockComment body => rfl
  | lexeme l =>
    have hl := Lexeme.eq_lineEnd_or_forall_of_first? (Lexeme.first?_of_fits h)
    cases l with
    | lineEnd style => cases style <;> rfl
    | quoted | number | word | mark =>
      rcases hl with ⟨_, hl⟩ | hnone
      · cases hl
      · exact (unifyLineEnds_of_forall hnone).symm

/-- A rewritten stretch is a whole one in front of the rewritten text. -/
theorem Fits.unified (h : x.Fits v) : x.unified.Fits (unifyLineEnds v) := by
  cases x with
  | trivia p =>
    cases p with
    | blanks layout => exact ⟨h.1, h.2.1, h.2.2.unifyLineEnds rfl⟩
    | lineComment body => exact ⟨h.1, h.2.unifyLineEnds⟩
    | blockComment body =>
      obtain ⟨inner, rfl, hinner⟩ | ⟨hbody, rfl⟩ := h
      · have hstar : ¬ SplitsPair inner ['*'] := fun hsplits => nomatch hsplits.2
        have hclosing : ¬ SplitsPair inner Trivia.closing := fun hsplits => nomatch hsplits.2
        refine .inl ⟨unifyLineEnds inner, unifyLineEnds_append hclosing, ?_⟩
        intro hinfix
        apply hinner
        apply closing_infix_of_unifyLineEnds
        rwa [unifyLineEnds_append hstar]
      · exact .inr ⟨fun hinfix => hbody (closing_infix_of_unifyLineEnds hinfix), rfl⟩
  | lexeme l =>
    cases l with
    | lineEnd style => trivial
    | quoted body =>
      obtain ⟨contents, hcontents, hclosed⟩ := h
      exact ⟨contents, hcontents, hclosed.imp_right fun hopen =>
        ⟨hopen.1, hopen.2.unifyLineEnds⟩⟩
    | number n =>
      obtain ⟨hwhole, hdigits, hstops, hpoint⟩ := h
      exact ⟨hwhole, hdigits, hstops.unifyLineEnds rfl, fun hnone =>
        head?_unifyLineEnds_ne (hpoint hnone) (by decide)⟩
    | word letters => exact ⟨h.1, h.2.unifyLineEnds (by decide)⟩
    | mark c =>
      obtain ⟨hblank, hline, hquote, hdigit, halphabetic, hslash⟩ := h
      refine ⟨hblank, hline, hquote, hdigit, halphabetic, ?_⟩
      rintro ⟨hc, hhead⟩
      have hnext := not_or.1 fun hnext => hslash ⟨hc, hnext⟩
      rcases hhead with hhead | hhead
      · exact head?_unifyLineEnds_ne hnext.1 (by decide) hhead
      · exact head?_unifyLineEnds_ne hnext.2 (by decide) hhead

theorem token?_unified (x : Stretch) : x.unified.token? = x.token? := by
  unfold unified
  split <;> rfl

end Stretch

namespace Partition

variable {stretches : List Stretch}

/-- The rewritten text is cut into the rewritten stretches. -/
theorem unified (h : Partition stretches s) :
    Partition (stretches.map Stretch.unified) (unifyLineEnds s) := by
  induction stretches generalizing s with
  | nil =>
    obtain rfl : s = [] := h
    rfl
  | cons x stretches ih =>
    obtain ⟨v, rfl, hfits, hv⟩ := h
    refine ⟨unifyLineEnds v, ?_, hfits.unified, ih hv⟩
    rw [Stretch.text_unified hfits, unifyLineEnds_append (Stretch.not_splitsPair_of_fits hfits)]

/-- The rewritten stretches make the same tokens on the same lines. -/
theorem locate_unified (h : Partition stretches s) (line : Nat) :
    locate line (stretches.map Stretch.unified) = locate line stretches := by
  induction stretches generalizing s line with
  | nil => rfl
  | cons x stretches ih =>
    obtain ⟨v, rfl, hfits, hv⟩ := h
    rw [List.map_cons, locate, locate, x.token?_unified, Stretch.text_unified hfits,
      lineBreaks_unifyLineEnds, ih hv]

end Partition

theorem Position.dropByteOrderMark_unifyLineEnds (s : List Char) :
    dropByteOrderMark (unifyLineEnds s) = unifyLineEnds (dropByteOrderMark s) := by
  by_cases hmark : s.head? = some '\uFEFF'
  · obtain ⟨rest, rfl⟩ := List.head?_eq_some_iff.1 hmark
    rw [unifyLineEnds_cons (by decide)]
    rfl
  · rw [dropByteOrderMark_of_head?_ne hmark,
      dropByteOrderMark_of_head?_ne (head?_unifyLineEnds_ne hmark (by decide))]

/-- A source in which all line ends are written as line feeds has the same tokens on the same
lines. -/
theorem locatedTokens_unifyLineEnds (source : String) :
    locatedTokens (.ofList (unifyLineEnds source.toList)) = locatedTokens source := by
  obtain ⟨stretches, hcut⟩ := exists_partition (Position.ofSource source).text
  have htext : (Position.ofSource (.ofList (unifyLineEnds source.toList))).text =
      unifyLineEnds (Position.ofSource source).text := by
    rw [Position.ofSource, String.toList_ofList, Position.dropByteOrderMark_unifyLineEnds]
    rfl
  have hcut' := hcut.unified
  rw [← htext] at hcut'
  rw [locatedTokens, locatedTokens, hcut.tokens_eq, hcut'.tokens_eq, htext,
    lineBreaks_unifyLineEnds]
  exact congrArg (· ++ _) (hcut.locate_unified 1)

end BugsLang
