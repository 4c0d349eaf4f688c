import BugsLang.Proofs.Text.Seam

/-!
# Layout between tokens

Between two tokens, and in front of the first one, blank characters and closed block comments can be
put as one likes. It has to be a blank character that comes first: a comment put right behind a
slash would be a line comment with a slash in front. It must not be behind a string that its line
cuts short either, since that would take up the layout.

## Main definitions

* `Layout w`: a blank character, and then blank characters and closed block comments.
* `IsGap u v`: there can be layout between `u` and `v`.

## Main statements

* `IsGap.exists_tokens`: the tokens of a source with layout in a gap.
-/

namespace BugsLang

/-- Blank characters and block comments that are closed. -/
inductive Filler : List Char → Prop where
  | nil : Filler []
  | blank {c : Char} {rest : List Char} (hc : isBlank c = true) (h : Filler rest) :
      Filler (c :: rest)
  | comment {inner rest : List Char} (hinner : ¬ Trivia.closing <:+: inner ++ ['*'])
      (h : Filler rest) : Filler ('/' :: '*' :: (inner ++ Trivia.closing ++ rest))

/-- A blank character, and then blank characters and block comments that are closed. -/
def Layout (w : String) : Prop :=
  ∃ c rest, w.toList = c :: rest ∧ isBlank c = true ∧ Filler rest

/-- The lexeme is not a string that lacks its closing quote. -/
def Lexeme.IsClosed : Lexeme → Prop
  | quoted body => ∃ contents, Contents contents ∧ body = contents ++ ['"']
  | lineEnd _ | number _ | word _ | mark _ => True

/-- There is a place for layout between `u` and `v`: at the start of the source, where a byte order
mark must stay in front, or behind a lexeme that is not a string without its closing quote. -/
inductive IsGap : String → String → Prop where
  | start {v : String} (hmark : v.toList.head? ≠ some '\uFEFF') : IsGap "" v
  | byteOrderMark {v : String} : IsGap "\uFEFF" v
  | behind {u v : String} {l : Lexeme} (hcut : CutBehind l u v) (hclosed : l.IsClosed) : IsGap u v

variable {c : Char} {u v w : List Char} {p : Position}

/-! ## Layout -/

/-- In front of a blank character the same tokens are ahead as behind it. -/
theorem Position.tokens_of_isBlank (hc : isBlank c = true) (htext : p.text = c :: v) :
    p.tokens = (⟨v, p.line⟩ : Position).tokens := by
  have hblank : ∀ d ∈ [c], isBlank d = true := by
    intro d hd
    rwa [List.mem_singleton.1 hd]
  have hline : ∀ d ∈ [c], isLineEnd d = false := fun d hd => isLineEnd_of_isBlank (hblank d hd)
  rw [tokens_of_trivia (u := [c]) htext (not_splitsPair_of_forall hline)
    (Trivia.length_blanks_append hblank), lineBreaks_cons (hline c List.mem_cons_self)]
  rfl

/-- Filler is passed over, and the line ends in it are counted. -/
theorem Filler.tokens_eq (h : Filler w) (htext : p.text = w ++ v) :
    p.tokens = (⟨v, p.line + lineBreaks w⟩ : Position).tokens := by
  induction h generalizing p with
  | nil =>
    rw [List.nil_append] at htext
    rw [← htext]
    rfl
  | @blank c rest hc _ ih =>
    rw [Position.tokens_of_isBlank hc htext, ih rfl, lineBreaks_cons (isLineEnd_of_isBlank hc)]
  | @comment inner rest hinner _ ih =>
    let piece := Trivia.Piece.blockComment (inner ++ Trivia.closing)
    have hfits (after : List Char) : piece.Fits after := .inl ⟨inner, rfl, hinner⟩
    have htext' : p.text = piece.text ++ (rest ++ v) := by
      rw [htext, ← List.append_assoc]
      rfl
    have hline : lineBreaks (piece.text ++ rest) = lineBreaks piece.text + lineBreaks rest :=
      lineBreaks_append (Trivia.Piece.not_splitsPair_of_fits (hfits rest))
    rw [Position.tokens_of_stretch (x := .trivia piece) htext' (hfits _)]
    show (⟨rest ++ v, p.line + lineBreaks piece.text⟩ : Position).tokens = _
    rw [ih rfl, Nat.add_assoc, ← hline]
    rfl

/-! ## Places for layout -/

/-- A lexeme that is not cut short by its line stays a whole one if a blank character or nothing
follows. -/
theorem Lexeme.Fits.of_isBlank {l : Lexeme} (h : l.Fits v) (hclosed : l.IsClosed)
    (hw : ∀ c ∈ w.head?, isBlank c = true) : l.Fits w := by
  -- no blank character is one that could go on with the lexeme
  have hne {d : Char} (hd : isBlank d = false) : w.head? ≠ some d := by
    intro hhead
    rw [hw d hhead] at hd
    cases hd
  cases l with
  | lineEnd style =>
    cases style with
    | lf | crlf => trivial
    | cr => exact hne rfl
  | quoted body =>
    obtain ⟨contents, hcontents, hbody⟩ := hclosed
    exact ⟨contents, hcontents, .inl hbody⟩
  | number n =>
    obtain ⟨hwhole, hdigits, -, -⟩ := h
    refine ⟨hwhole, hdigits, ?_, fun _ => hne rfl⟩
    intro c hc
    rw [Bool.eq_false_iff]
    intro hdigit
    exact hne (isBlank_of_isDigit hdigit) hc
  | word letters => exact ⟨h.1, fun c hc => continuesWord_of_isBlank (hw c hc)⟩
  | mark c =>
    obtain ⟨hblank, hline, hquote, hdigit, halphabetic, -⟩ := h
    exact ⟨hblank, hline, hquote, hdigit, halphabetic,
      fun hslash => hslash.2.elim (hne rfl) (hne rfl)⟩

/-- In a gap a source may go on as it does, or with a blank character, or end. Up to the gap its
tokens are the same in each case, and behind it come the tokens ahead on that line. -/
theorem IsGap.exists_tokens {u v : String} (h : IsGap u v) :
    ∃ before line, ∀ w : String, w = v ∨ (∀ c ∈ w.toList.head?, isBlank c = true) →
      locatedTokens (u ++ w) = before ++ (⟨w.toList, line⟩ : Position).tokens := by
  cases h with
  | start hmark =>
    refine ⟨[], 1, ?_⟩
    intro w hw
    have hhead : w.toList.head? ≠ some '\uFEFF' := by
      rcases hw with rfl | hblank
      · exact hmark
      · intro hhead
        exact absurd (hblank _ hhead) (by decide)
    rw [String.empty_append, locatedTokens, Position.ofSource_of_head?_ne hhead]
    rfl
  | byteOrderMark =>
    refine ⟨[], 1, ?_⟩
    intro w _
    have hstart : Position.ofSource ("\uFEFF" ++ w) = ⟨w.toList, 1⟩ := by
      rw [Position.ofSource, String.toList_append]
      rfl
    rw [locatedTokens, hstart]
    rfl
  | @behind u v l hcut hclosed =>
    obtain ⟨hfits, before, line, -, htokens⟩ := hcut.exists_tokens
    refine ⟨before ++ [⟨line, l.token⟩], line + lineBreaks l.text, ?_⟩
    intro w hw
    have hw : l.Fits w.toList := by
      rcases hw with rfl | hblank
      · exact hfits
      · exact hfits.of_isBlank hclosed hblank
    rw [htokens w hw, List.append_assoc]
    rfl

/-- Layout in a gap leaves the tokens before it as they are and moves those behind it down by the
line ends in the layout. -/
theorem IsGap.exists_tokens_layout {u v w : String} (h : IsGap u v) (hw : Layout w) :
    ∃ before behind line, locatedTokens u = before ++ [⟨line, .inputEnd⟩] ∧
      locatedTokens (u ++ v) = before ++ behind ∧
      locatedTokens (u ++ w ++ v) =
        before ++ behind.map (Token.Located.down (lineEnds w.toList).length) := by
  obtain ⟨before, line, htokens⟩ := h.exists_tokens
  obtain ⟨c, rest, hlayout, hc, hrest⟩ := hw
  have hfiller : Filler w.toList := hlayout ▸ .blank hc hrest
  refine ⟨before, (⟨v.toList, line⟩ : Position).tokens, line, ?_, htokens v (.inl rfl), ?_⟩
  · have hnone := htokens "" (.inr fun c hc => nomatch hc)
    rw [String.append_empty] at hnone
    rw [hnone]
    exact congrArg (before ++ ·) (Position.tokens_nil line)
  · have hblank : ∀ d ∈ (w ++ v).toList.head?, isBlank d = true := by
      intro d hd
      rw [String.toList_append, hlayout] at hd
      rwa [← Option.some.inj hd]
    rw [String.append_assoc, htokens _ (.inr hblank), String.toList_append,
      hfiller.tokens_eq rfl, length_lineEnds, ← Position.tokens_down]
    rfl

end BugsLang
