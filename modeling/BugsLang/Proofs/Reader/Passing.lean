import BugsLang.Proofs.Text.Partition
import BugsLang.Reader.Scanner

/-!
# Going past characters

A scanner goes past one character after the other. What it goes past altogether is the same stretch
of text that is found by counting characters ahead of a position: trivia as far as there is some, or
one lexeme. No character is cut in two on the way, and the line ends are counted as for the stretch
as a whole.

## Main definitions

* `byteLength`: the number of bytes that a text takes.
* `Scanner.past`: the scanner behind a text that lies ahead.

## Main statements

* `Scanner.restFrom_eq_some_iff`: where the source can be cut.
* `Scanner.passTrivia_eq`: trivia is gone past as far as there is some.
* `Scanner.passToken_of_fits`: a lexeme is gone past as a whole, and makes its token.
-/

namespace BugsLang

/-- The number of bytes that the text takes. -/
def byteLength (u : List Char) : Nat :=
  (String.ofList u).utf8ByteSize

theorem byteLength_append (u v : List Char) : byteLength (u ++ v) = byteLength u + byteLength v := by
  rw [byteLength, String.ofList_append, String.utf8ByteSize_append]
  rfl

theorem byteLength_singleton (c : Char) : byteLength [c] = c.utf8Size :=
  String.utf8ByteSize_singleton

@[simp] theorem byteLength_nil : byteLength [] = 0 := rfl

theorem byteLength_cons (c : Char) (u : List Char) :
    byteLength (c :: u) = c.utf8Size + byteLength u := by
  rw [← byteLength_singleton]
  exact byteLength_append [c] u

namespace Scanner

variable {x : Scanner} {n : Nat} {c : Char} {u v : List Char} {p : Char → Bool}

/-! ## Cutting the source -/

/-- Where the source can be cut, and what lies ahead then. -/
theorem restFrom_eq_some_iff :
    x.restFrom n = some v ↔
      ∃ u, x.source.toList = u ++ v ∧ n = byteLength u := by
  constructor
  · intro h
    unfold restFrom at h
    split at h
    · rename_i hvalid
      obtain ⟨before, ahead, hsource, hoffset⟩ := String.Pos.Raw.isValid_iff_exists_append.1 hvalid
      have hsplits : (x.source.pos ⟨n⟩ hvalid).Splits before ahead := ⟨hsource, hoffset⟩
      rw [hsplits.copy_sliceFrom_eq] at h
      refine ⟨before.toList, ?_, ?_⟩
      · rw [hsource, String.toList_append, Option.some.inj h]
      · rw [byteLength, String.ofList_toList]
        exact congrArg String.Pos.Raw.byteIdx hoffset
    · cases h
  · rintro ⟨u, hsource, rfl⟩
    have happend : x.source = String.ofList u ++ String.ofList v := by
      rw [← String.ofList_append, ← hsource, String.ofList_toList]
    have hvalid : (⟨byteLength u⟩ : String.Pos.Raw).IsValid x.source :=
      String.Pos.Raw.isValid_iff_exists_append.2 ⟨_, _, happend, rfl⟩
    have hsplits : (x.source.pos _ hvalid).Splits (String.ofList u) (String.ofList v) :=
      ⟨happend, rfl⟩
    rw [restFrom, dif_pos hvalid, hsplits.copy_sliceFrom_eq, String.toList_ofList]

theorem isValid_of_restFrom (h : x.restFrom n = some v) :
    (⟨n⟩ : String.Pos.Raw).IsValid x.source := by
  unfold restFrom at h
  split at h
  · assumption
  · cases h

theorem peek_eq (h : x.rest = some v) (n : Nat) : x.peek n = some v[n]? := by
  rw [peek, h, Option.map_some]

/-! ## Going past text -/

/-- The scanner behind the text, with the line ends in it counted. -/
def past (x : Scanner) (u : List Char) : Scanner :=
  { x with
    offset := x.offset + byteLength u
    line := x.line + lineBreaks u }

@[simp] theorem past_nil (x : Scanner) : x.past [] = x := rfl

theorem past_append (h : ¬ SplitsPair u v) : x.past (u ++ v) = (x.past u).past v := by
  simp only [past, lineBreaks_append h, byteLength_append, Nat.add_assoc]

theorem past_cons (hc : isLineEnd c = false) : x.past (c :: u) = (x.past [c]).past u := by
  refine past_append (u := [c]) (not_splitsPair_of_forall ?_)
  intro d hd
  rwa [List.mem_singleton.1 hd]

/-- Behind a text that lies ahead, the rest lies ahead. -/
theorem rest_past (h : x.rest = some (u ++ v)) : (x.past u).rest = some v := by
  obtain ⟨before, hsource, hoffset⟩ := restFrom_eq_some_iff.1 h
  refine restFrom_eq_some_iff.2 ⟨before ++ u, ?_, ?_⟩
  · rw [List.append_assoc]
    exact hsource
  · rw [byteLength_append, ← hoffset]
    rfl

/-- To go past a text and then past more is to go past both. -/
theorem past_past_take (h : ¬ SplitsPair u v) (n : Nat) :
    (x.past u).past (v.take n) = x.past ((u ++ v).take (u.length + n)) := by
  rw [List.take_length_add_append, past_append]
  intro hsplits
  apply h
  rw [← List.take_append_drop n v]
  exact hsplits.append _

/-- The text that has been gone past can be cut out. -/
theorem textSince_past (h : x.rest = some (u ++ v)) : (x.past u).textSince x.offset = some u := by
  have htext : (x.past u).restFrom x.offset = some (u ++ v) := h
  have hle : x.offset ≤ (x.past u).offset := Nat.le_add_right _ _
  rw [textSince, htext, rest_past h]
  simp [hle]

/-! ## One character, and all of a kind -/

/-- To go past a character is to move on by its bytes. -/
theorem bump_eq_offset (h : x.rest = some (c :: v)) :
    x.bump = some { x with offset := x.offset + c.utf8Size } := by
  rw [bump, peek_eq h]
  rfl

theorem rest_offset (h : x.rest = some (c :: v)) :
    ({ x with offset := x.offset + c.utf8Size } : Scanner).rest = some v := by
  rw [← byteLength_singleton]
  exact rest_past (u := [c]) h

theorem bump_eq (h : x.rest = some (c :: v)) (hc : isLineEnd c = false) :
    x.bump = some (x.past [c]) := by
  rw [bump_eq_offset h, past, byteLength_singleton, lineBreaks_cons hc]
  rfl

theorem bumpWhile_eq (hp : ∀ c, p c = true → isLineEnd c = false) (h : x.rest = some v) :
    x.bumpWhile p = some (x.past (v.takeWhile p)) := by
  induction v generalizing x with
  | nil =>
    rw [bumpWhile, peek_eq h]
    rfl
  | cons c v ih =>
    rw [bumpWhile, peek_eq h]
    by_cases hc : p c = true
    · rw [List.takeWhile_cons_of_pos hc, past_cons (hp c hc), ← ih (rest_past h)]
      simp [hc, bump_eq h (hp c hc)]
    · rw [List.takeWhile_cons_of_neg hc]
      simp [hc]

/-! ## Line ends -/

/-- A line end is gone past as a whole and counted once. -/
theorem passLineEnd_eq {style : LineEnd} (h : x.rest = some (style.text ++ v))
    (hfits : (Lexeme.lineEnd style).Fits v) : x.passLineEnd = some (x.past style.text) := by
  have hline : lineBreaks style.text = 1 := lineBreaks_text_lineEnd style
  cases style with
  | lf =>
    have hfirst : x.rest = some ('\n' :: v) := h
    rw [passLineEnd, peek_eq h, bump_eq_offset hfirst, past, hline]
    simp [peek_eq (rest_offset hfirst), LineEnd.text, byteLength_singleton]
  | cr =>
    have hfirst : x.rest = some ('\r' :: v) := h
    have hhead : v[0]? ≠ some '\n' := by
      rw [← List.head?_eq_getElem?]
      exact hfits
    rw [passLineEnd, peek_eq h, bump_eq_offset hfirst, past, hline]
    simp [peek_eq (rest_offset hfirst), hhead, LineEnd.text, byteLength_singleton]
  | crlf =>
    have hfirst : x.rest = some ('\r' :: '\n' :: v) := h
    have hsecond := rest_offset hfirst
    rw [passLineEnd, peek_eq h, bump_eq_offset hfirst, past, hline]
    simp [peek_eq hsecond, bump_eq_offset hsecond, LineEnd.text, byteLength_cons,
      Nat.add_assoc]

/-- At the end of a line a line end lies ahead that is a whole one. -/
theorem exists_lineEnd_fits (hc : isLineEnd c = true) (v : List Char) :
    ∃ (style : LineEnd) (w : List Char), c :: v = style.text ++ w ∧
      (Lexeme.lineEnd style).Fits w := by
  have hc' : c = '\n' ∨ c = '\r' := by simpa [isLineEnd] using hc
  rcases hc' with rfl | rfl
  · exact ⟨.lf, v, rfl, trivial⟩
  · by_cases hhead : v.head? = some '\n'
    · obtain ⟨w, rfl⟩ := List.head?_eq_some_iff.1 hhead
      exact ⟨.crlf, w, rfl, trivial⟩
    · exact ⟨.cr, v, rfl, hhead⟩

/-! ## Block comments -/

/-- A line end within a block comment belongs to it. -/
theorem blockLength_lineEnd (style : LineEnd) (v : List Char) :
    Trivia.blockLength (style.text ++ v) = style.text.length + Trivia.blockLength v := by
  have hcons : ∀ c w, c ≠ '*' → Trivia.blockLength (c :: w) = Trivia.blockLength w + 1 :=
    fun c w hc => Trivia.blockLength_cons fun h => hc h.1
  cases style with
  | lf => exact (hcons '\n' v (by decide)).trans (Nat.add_comm _ _)
  | cr => exact (hcons '\r' v (by decide)).trans (Nat.add_comm _ _)
  | crlf =>
    show Trivia.blockLength ('\r' :: '\n' :: v) = _
    rw [hcons _ _ (by decide), hcons _ _ (by decide)]
    exact Nat.add_comm _ 2

/-- A block comment is gone past up to its first closing, or up to the end of the source. -/
theorem passBlock_eq {x : Scanner} {v : List Char} (h : x.rest = some v) :
    x.passBlock = some (x.past (v.take (Trivia.blockLength v))) := by
  cases v with
  | nil =>
    rw [passBlock, peek_eq h]
    rfl
  | cons c v =>
    rw [passBlock, peek_eq h, peek_eq h]
    by_cases hcloses : c = '*' ∧ v.head? = some '/'
    · obtain ⟨rfl, hhead⟩ := hcloses
      obtain ⟨w, rfl⟩ := List.head?_eq_some_iff.1 hhead
      have hstar : x.bump = some (x.past ['*']) := bump_eq h rfl
      have hslash : (x.past ['*']).bump = some ((x.past ['*']).past ['/']) :=
        bump_eq (rest_past h) rfl
      have hboth : x.past ['*', '/'] = (x.past ['*']).past ['/'] := past_cons rfl
      simp [hstar, hslash, hboth, Trivia.blockLength]
    · have hopen : ¬ (c = '*' ∧ v[0]? = some '/') := by
        rw [← List.head?_eq_getElem?]
        exact hcloses
      by_cases hline : isLineEnd c = true
      · obtain ⟨style, w, hcut, hfits⟩ := exists_lineEnd_fits hline v
        have hshorter : w.length < (c :: v).length := by
          have hpos : 0 < style.text.length := by cases style <;> exact Nat.succ_pos _
          rw [hcut, List.length_append]
          omega
        have hsplits : ¬ SplitsPair style.text w :=
          Lexeme.not_splitsPair_of_first? (Lexeme.first?_of_fits hfits)
        rw [hcut] at h
        have hrest := passBlock_eq (rest_past h)
        rw [past_past_take hsplits, ← blockLength_lineEnd, ← hcut] at hrest
        simp [hopen, hline, passLineEnd_eq h hfits, hrest]
      · have hc : isLineEnd c = false := Bool.eq_false_iff.2 hline
        have hrest := passBlock_eq (rest_past (u := [c]) h)
        rw [Trivia.blockLength_cons hcloses, List.take_succ_cons, past_cons hc]
        simp [hopen, hline, bump_eq h hc, hrest]
termination_by v.length

/-! ## Trivia -/

theorem passTrivia_of_isBlank (h : x.rest = some (c :: v)) (hblank : isBlank c = true) :
    x.passTrivia = (x.past [c]).passTrivia := by
  rw [passTrivia, peek_eq h, peek_eq h]
  simp [hblank, bump_eq h (isLineEnd_of_isBlank hblank)]

theorem passTrivia_of_forall_isBlank (h : x.rest = some (u ++ v))
    (hu : ∀ c ∈ u, isBlank c = true) : x.passTrivia = (x.past u).passTrivia := by
  induction u generalizing x with
  | nil => rfl
  | cons c u ih =>
    have hblank := hu c List.mem_cons_self
    rw [passTrivia_of_isBlank h hblank, past_cons (u := u) (isLineEnd_of_isBlank hblank)]
    exact ih (rest_past (u := [c]) h) fun d hd => hu d (List.mem_cons_of_mem c hd)

/-- A piece of trivia is gone past as a whole. -/
theorem passTrivia_of_fits {piece : Trivia.Piece} (h : x.rest = some (piece.text ++ v))
    (hfits : piece.Fits v) : x.passTrivia = (x.past piece.text).passTrivia := by
  have hslash : isBlank '/' = false := rfl
  cases piece with
  | blanks layout => exact passTrivia_of_forall_isBlank h hfits.2.1
  | lineComment body =>
    obtain ⟨hbody, hends⟩ := hfits
    have htake : (body ++ v).takeWhile (!isLineEnd ·) = body := by
      apply takeWhile_append_of_stopsAt
      · intro c hc
        simpa using hbody c hc
      · intro c hc
        simpa using hends c hc
    have hpass : x.bumpWhile (!isLineEnd ·) = some (x.past ('/' :: '/' :: body)) := by
      rw [bumpWhile_eq (fun c hc => by simpa using hc) h, Trivia.Piece.text, List.cons_append,
        List.cons_append, List.takeWhile_cons_of_pos rfl, List.takeWhile_cons_of_pos rfl, htake]
    rw [passTrivia, peek_eq h, peek_eq h]
    simp [Trivia.Piece.text, hslash, hpass]
  | blockComment body =>
    have hopen : x.bump = some (x.past ['/']) := bump_eq h rfl
    have hrest : (x.past ['/']).rest = some ('*' :: (body ++ v)) := rest_past h
    have hstar : (x.past ['/']).bump = some ((x.past ['/']).past ['*']) := bump_eq hrest rfl
    have hbehind : ((x.past ['/']).past ['*']).rest = some (body ++ v) := rest_past hrest
    have hbody := passBlock_eq hbehind
    rw [Trivia.blockLength_of_fits hfits, List.take_left] at hbody
    have hpast : x.past ('/' :: '*' :: body) = ((x.past ['/']).past ['*']).past body := by
      rw [past_cons (u := '*' :: body) rfl, past_cons (u := body) rfl]
    rw [passTrivia, peek_eq h, peek_eq h]
    simp [Trivia.Piece.text, hslash, hopen, hstar, hbody, hpast]

/-- Trivia is gone past as far as there is some. -/
theorem passTrivia_eq {x : Scanner} {v : List Char} (h : x.rest = some v) :
    x.passTrivia = some (x.past (v.take (Trivia.length .between v))) := by
  cases hpiece : Trivia.Piece.first? v with
  | none =>
    rw [Trivia.length_of_first?_eq_none hpiece, passTrivia, peek_eq h, peek_eq h]
    cases v with
    | nil => rfl
    | cons c v =>
      obtain ⟨hblank, hslash⟩ := Trivia.Piece.first?_cons_eq_none_iff.1 hpiece
      have hline : ¬ (c = '/' ∧ v[0]? = some '/') := by
        rw [← List.head?_eq_getElem?]
        exact fun h => hslash ⟨h.1, .inl h.2⟩
      have hblock : ¬ (c = '/' ∧ v[0]? = some '*') := by
        rw [← List.head?_eq_getElem?]
        exact fun h => hslash ⟨h.1, .inr h.2⟩
      simp [hblank, hline, hblock]
  | some piece =>
    obtain ⟨w, hcut, hfits⟩ := Trivia.Piece.fits_of_first? hpiece
    have hshorter : w.length < v.length := by
      have hpos := List.length_pos_iff.2 (Trivia.Piece.text_ne_nil_of_fits hfits)
      rw [hcut, List.length_append]
      omega
    rw [hcut] at h ⊢
    rw [passTrivia_of_fits h hfits, passTrivia_eq (rest_past h),
      past_past_take (Trivia.Piece.not_splitsPair_of_fits hfits),
      Trivia.length_append_of_fits hfits]
termination_by v.length

/-! ## Lexemes -/

/-- A string is gone past to its closing quote, or to the end of the line. -/
theorem passQuoted_eq (h : x.rest = some v) :
    x.passQuoted = some (x.past (v.take (quotedLength v))) := by
  have hquote : isLineEnd '"' = false := rfl
  have hbackslash : isLineEnd '\\' = false := rfl
  fun_induction quotedLength v generalizing x with
  | case1 =>
    rw [passQuoted, peek_eq h]
    rfl
  | case2 rest =>
    rw [passQuoted, peek_eq h]
    simp [hquote, bump_eq h]
  | case3 c rest hline =>
    have hrest : (x.past ['\\']).rest = some (c :: rest) := rest_past h
    have hstop : (x.past ['\\']).passQuoted = some (x.past ['\\']) := by
      rw [passQuoted, peek_eq hrest]
      simp [hline]
    rw [passQuoted, peek_eq h]
    simp [hbackslash, bump_eq h, peek_eq hrest, hline, hstop]
  | case4 c rest hline ih =>
    have hc : isLineEnd c = false := Bool.eq_false_iff.2 hline
    have hrest : (x.past ['\\']).rest = some (c :: rest) := rest_past h
    have hpast : x.past ('\\' :: c :: rest.take (quotedLength rest)) =
        ((x.past ['\\']).past [c]).past (rest.take (quotedLength rest)) := by
      rw [past_cons (u := c :: _) hbackslash, past_cons (u := rest.take _) hc]
    rw [passQuoted, peek_eq h]
    simp [hbackslash, bump_eq h, peek_eq hrest, hc, bump_eq hrest,
      ih (rest_past (u := [c]) hrest), hpast]
  | case5 c rest _ _ hline =>
    rw [passQuoted, peek_eq h]
    simp [hline]
  | case6 c rest hclose hshield hline ih =>
    have hc : isLineEnd c = false := Bool.eq_false_iff.2 hline
    have hrest : (x.past [c]).rest = some rest := rest_past (u := [c]) h
    have hpast := past_cons (x := x) (u := rest.take (quotedLength rest)) hc
    rw [passQuoted, peek_eq h]
    by_cases hslash : c = '\\'
    · -- a backslash that shields nothing is the last character of the source
      subst hslash
      cases rest with
      | nil => simp [hc, bump_eq h hc, peek_eq hrest, ih hrest]
      | cons d rest => exact absurd rfl (hshield d rest rfl)
    · have hclose' : ¬ c = '"' := hclose
      simp [hc, hclose', hslash, bump_eq h hc, ih hrest, hpast]

theorem passNumber_eq (h : x.rest = some v) :
    x.passNumber = some (x.past (Numeral.ofStart v).text) := by
  have hrest := rest_past (u := v.takeWhile Char.isDigit) (v := v.dropWhile Char.isDigit)
    (by rwa [List.takeWhile_append_dropWhile])
  have hsplits (w : List Char) : ¬ SplitsPair (v.takeWhile Char.isDigit) w :=
    not_splitsPair_of_forall fun c hc => isLineEnd_of_isDigit (List.mem_takeWhile_imp hc)
  rw [passNumber, bumpWhile_eq (fun c => isLineEnd_of_isDigit) h]
  unfold Numeral.ofStart
  split
  · rename_i rest hpoint
    rw [hpoint] at hrest
    have hfraction := bumpWhile_eq (p := Char.isDigit) (fun c => isLineEnd_of_isDigit)
      (rest_past (u := ['.']) hrest)
    rw [Numeral.text_some, past_append (hsplits _), past_cons (u := rest.takeWhile _) rfl]
    simp [peek_eq hrest, bump_eq hrest rfl, hfraction]
  · rename_i hpoint
    have hhead : (v.dropWhile Char.isDigit)[0]? ≠ some '.' := by
      rw [← List.head?_eq_getElem?]
      intro hhead
      obtain ⟨rest, hrest⟩ := List.head?_eq_some_iff.1 hhead
      exact hpoint rest hrest
    simp [peek_eq hrest, hhead]

/-- A number that is a whole one is one by itself, too. -/
theorem ofStart_text_of_fits {n : Numeral} (h : (Lexeme.number n).Fits v) :
    Numeral.ofStart n.text = n := by
  obtain ⟨hwhole, hdigits, -, -⟩ := h
  have hself : (Lexeme.number n).Fits [] :=
    ⟨hwhole, hdigits, (fun _ h => nomatch h), (fun _ h => nomatch h)⟩
  have hofStart := Lexeme.ofStart_of_fits hself
  rwa [List.append_nil] at hofStart

/-! ## Tokens -/

/-- A lexeme is gone past as a whole, and makes its token. -/
theorem passToken_of_fits {l : Lexeme} (h : x.rest = some (l.text ++ v)) (hfits : l.Fits v) :
    x.passToken = some (l.token, x.past l.text) := by
  rw [passToken, peek_eq h]
  cases l with
  | lineEnd style =>
    have hfirst : ∃ c, (style.text ++ v)[0]? = some c ∧ isLineEnd c = true := by
      cases style <;> exact ⟨_, rfl, rfl⟩
    obtain ⟨c, hc, hline⟩ := hfirst
    simp [Lexeme.text, Lexeme.token, hc, hline, passLineEnd_eq h hfits]
  | quoted body =>
    have hquote : isLineEnd '"' = false := rfl
    have hbody := passQuoted_eq (rest_past (u := ['"']) h)
    rw [List.append_eq, Lexeme.quotedLength_of_fits hfits, List.take_left] at hbody
    simp [Lexeme.text, Lexeme.token, hquote, bump_eq h, hbody, past_cons (u := body) hquote]
  | number n =>
    obtain ⟨c, rest, htext, hc⟩ := Lexeme.exists_digit_of_fits hfits
    have hquote : c ≠ '"' := by
      rintro rfl
      cases hc
    have hpass := passNumber_eq h
    rw [Lexeme.text, Lexeme.ofStart_of_fits hfits] at hpass
    have hsince : (x.past n.text).textSince x.offset = some n.text := textSince_past h
    simp [Lexeme.text, Lexeme.token, htext, isLineEnd_of_isDigit hc, hquote, hc, hpass, hsince,
      ofStart_text_of_fits hfits]
  | word letters =>
    obtain ⟨⟨c, rest, rfl, hc, hrest⟩, hstops⟩ := hfits
    have hletters : ∀ d ∈ c :: rest, continuesWord d = true := by
      intro d hd
      rcases List.mem_cons.1 hd with rfl | hd
      · exact continuesWord_of_isAlphabetic hc
      · exact hrest d hd
    have hdigit : c.isDigit = false := by
      rw [Bool.eq_false_iff]
      intro hdigit
      rw [isAlphabetic_of_isDigit hdigit] at hc
      cases hc
    have hpass : x.bumpWhile continuesWord = some (x.past (c :: rest)) := by
      rw [bumpWhile_eq (fun c => isLineEnd_of_continuesWord) h, Lexeme.text,
        takeWhile_append_of_stopsAt hletters hstops]
    have hsince : (x.past (c :: rest)).textSince x.offset = some (c :: rest) := textSince_past h
    simp [Lexeme.text, Lexeme.token, Lexeme.isLineEnd_of_isAlphabetic hc,
      Lexeme.ne_quote_of_isAlphabetic hc, hdigit, hc, hpass, hsince]
  | mark c =>
    obtain ⟨hblank, hline, hquote, hdigit, halphabetic, -⟩ := hfits
    simp [Lexeme.text, Lexeme.token, bump_eq h hline, hline, hquote, hdigit, halphabetic]

/-- At the end of the source the token is the end of the input. -/
theorem passToken_of_rest_eq_nil (h : x.rest = some []) :
    x.passToken = some (.inputEnd, x) := by
  rw [passToken, peek_eq h]
  rfl

end Scanner

end BugsLang
