import BugsLang.Proofs.Text.Layout
import BugsLang.Proofs.Text.Number

/-!
# Writing tokens down

The tokens of a source can be written down again, each with a space in front, and are read back as
they were. What is lost of the source is trivia, the contents of strings, the kinds of line ends and
the spelling of numbers, and no token depends on these.

## Main definitions

* `Token.Occurs`: there is something that makes the token.
* `respell tokens`: a text for the tokens.
* `Lexeme.respelled`: what stands in that text for a lexeme of the source.

## Main statements

* `locatedTokens_respell`: the tokens of that text are those that it was made from.
* `tokens_respell`: so a source has the tokens of the text for its tokens.
-/

namespace BugsLang

/-- Some lexeme makes the token. -/
def Token.Occurs (t : Token) : Prop :=
  ∃ (l : Lexeme) (v : List Char), l.Fits v ∧ l.token = t

/-- The characters that a token is written down with. The contents of a string are not known any
more, and nothing stands for the end of the input. -/
def Token.spelling (t : Token) : List Char :=
  match t.kind with
  | .symbol => if t.text = "\"" then ['"', '"'] else t.text.toList
  | .name | .reserved | .number => t.text.toList
  | .lineEnd => ['\n']
  | .inputEnd => []

/-- The tokens written down one after another, each behind a space. -/
def respell (tokens : List Token) : String :=
  String.ofList (tokens.flatMap fun t => if t.kind = .inputEnd then [] else ' ' :: t.spelling)

namespace Lexeme

/-- The lexeme that the token of a lexeme is written down as. -/
def respelled : Lexeme → Lexeme
  | lineEnd _ => lineEnd .lf
  | quoted _ => quoted ['"']
  | number n => number n.canonical
  | word letters => word letters
  | mark c => mark c

variable {l : Lexeme} {v w : List Char}

/-- It makes the same token. -/
theorem token_respelled (l : Lexeme) : l.respelled.token = l.token := by
  cases l with
  | number n => rw [respelled, token, token, Numeral.canonical_canonical]
  | _ => rfl

theorem text_respelled (h : l.Fits v) : l.respelled.text = l.token.spelling := by
  cases l with
  | lineEnd style => rfl
  | quoted body => rfl
  | number n => exact String.toList_ofList.symm
  | word letters =>
    rw [token, Token.ofWord, Token.spelling]
    cases isReserved (String.ofList letters) <;> exact String.toList_ofList.symm
  | mark c =>
    obtain ⟨-, -, hquote, -⟩ := h
    have hne : String.ofList [c] ≠ "\"" := by
      intro heq
      have hlist := congrArg String.toList heq
      rw [String.toList_ofList] at hlist
      exact hquote (List.cons.inj hlist).1
    exact ((if_neg hne).trans String.toList_ofList).symm

theorem isClosed_respelled (l : Lexeme) : l.respelled.IsClosed := by
  cases l with
  | quoted body => exact ⟨[], .nil, rfl⟩
  | _ => trivial

/-- It is a whole one in front of the space that comes next, and at the end. -/
theorem fits_respelled (h : l.Fits v) (hw : ∀ c ∈ w.head?, isBlank c = true) :
    l.respelled.Fits w := by
  have hfits : ∃ v, l.respelled.Fits v := by
    cases l with
    | lineEnd style => exact ⟨v, trivial⟩
    | quoted body => exact ⟨v, [], .nil, .inl rfl⟩
    | number n => exact ⟨[], (Numeral.isLiteral_canonical ⟨h.1, h.2.1⟩).fits⟩
    | word letters => exact ⟨v, h⟩
    | mark c => exact ⟨v, h⟩
  obtain ⟨v, hfits⟩ := hfits
  exact hfits.of_isBlank l.isClosed_respelled hw

end Lexeme

variable {tokens : List Token} {t : Token} {stretches : List Stretch} {s : List Char}

/-! ## Tokens that are made -/

theorem Partition.occurs (h : Partition stretches s) (ht : t ∈ stretches.filterMap Stretch.token?) :
    t.Occurs := by
  induction stretches generalizing s with
  | nil => cases ht
  | cons x stretches ih =>
    obtain ⟨v, -, hfits, hv⟩ := h
    cases x with
    | trivia p => exact ih hv ht
    | lexeme l =>
      rcases List.mem_cons.1 ht with rfl | ht
      · exact ⟨l, v, hfits, rfl⟩
      · exact ih hv ht

/-- A source has tokens that are made by lexemes, and then the end of the input. -/
theorem exists_map_token_locatedTokens (source : String) :
    ∃ tokens : List Token, (∀ t ∈ tokens, t.Occurs) ∧
      (locatedTokens source).map Token.Located.token = tokens ++ [.inputEnd] := by
  obtain ⟨stretches, h⟩ := exists_partition (Position.ofSource source).text
  exact ⟨stretches.filterMap Stretch.token?, fun t => h.occurs, h.map_token_tokens⟩

theorem Token.occurs_of_mem {source : String}
    (h : t ∈ (locatedTokens source).map Token.Located.token) (hend : t ≠ .inputEnd) :
    t.Occurs := by
  obtain ⟨tokens, hoccurs, htokens⟩ := exists_map_token_locatedTokens source
  rw [htokens] at h
  rcases List.mem_append.1 h with h | h
  · exact hoccurs t h
  · exact absurd (List.mem_singleton.1 h) hend

/-! ## The text for some tokens -/

/-- It is empty or starts with a space. -/
theorem isBlank_of_mem_head?_respell (tokens : List Token) :
    ∀ c ∈ (respell tokens).toList.head?, isBlank c = true := by
  rw [respell, String.toList_ofList]
  induction tokens with
  | nil => exact fun _ hc => nomatch hc
  | cons t tokens ih =>
    rw [List.flatMap_cons]
    split
    · exact ih
    · intro c hc
      rw [← Option.some.inj hc]
      rfl

theorem toList_respell_token (l : Lexeme) (tokens : List Token) :
    (respell (l.token :: tokens)).toList = ' ' :: l.token.spelling ++ (respell tokens).toList := by
  rw [respell, respell, String.toList_ofList, String.toList_ofList, List.flatMap_cons,
    if_neg l.kind_token_ne_inputEnd]

/-- The tokens ahead of the text are those that it was made from. -/
theorem map_token_tokens_respell (h : ∀ t ∈ tokens, t.Occurs) (line : Nat) :
    (⟨(respell (tokens ++ [.inputEnd])).toList, line⟩ : Position).tokens.map Token.Located.token =
      tokens ++ [.inputEnd] := by
  induction tokens generalizing line with
  | nil =>
    have hend : (respell [.inputEnd]).toList = [] := rfl
    rw [List.nil_append, hend, Position.tokens_nil]
    rfl
  | cons t tokens ih =>
    obtain ⟨⟨l, v, hfits, rfl⟩, hrest⟩ := List.forall_mem_cons.1 h
    have hblank := isBlank_of_mem_head?_respell (tokens ++ [.inputEnd])
    rw [List.cons_append, toList_respell_token, ← Lexeme.text_respelled hfits, List.cons_append,
      Position.tokens_of_isBlank rfl rfl,
      Position.tokens_of_lexeme rfl (Lexeme.fits_respelled hfits hblank), List.map_cons, ih hrest,
      l.token_respelled]

/-- The tokens of the text are those that it was made from. -/
theorem locatedTokens_respell (h : ∀ t ∈ tokens, t.Occurs) :
    (locatedTokens (respell (tokens ++ [.inputEnd]))).map Token.Located.token =
      tokens ++ [.inputEnd] := by
  -- a space is no byte order mark
  have hmark : (respell (tokens ++ [.inputEnd])).toList.head? ≠ some '\uFEFF' := by
    intro hhead
    exact absurd (isBlank_of_mem_head?_respell _ _ hhead) (by decide)
  rw [locatedTokens, Position.ofSource_of_head?_ne hmark]
  exact map_token_tokens_respell h 1

/-- The tokens of a source are read back from where they are written down: none is lost, split,
joined with another or changed. -/
theorem tokens_respell (source : String) :
    (locatedTokens (respell ((locatedTokens source).map Token.Located.token))).map
        Token.Located.token =
      (locatedTokens source).map Token.Located.token := by
  obtain ⟨tokens, hoccurs, htokens⟩ := exists_map_token_locatedTokens source
  rw [htokens]
  exact locatedTokens_respell hoccurs

/-- A comment that is left out separates the two words in front of it and behind it, and what looks
like a comment in a string is none. -/
example : respell ((locatedTokens "if/**/x\"//\"1.\r\n").map Token.Located.token) =
    " if x \"\" 1.0 \n" := by
  decide +kernel

end BugsLang
