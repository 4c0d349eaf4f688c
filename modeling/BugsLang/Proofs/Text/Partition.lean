import BugsLang.Proofs.Text.Lexeme
import BugsLang.Reader

/-!
# A source cut into trivia and lexemes

There is one way to cut a source into pieces of trivia and lexemes, each of them a whole one in
front of what follows. Reading hands out the tokens of these lexemes and then the end of the input.

## Main definitions

* `Stretch`: a piece of trivia or a lexeme.
* `Partition stretches s`: the text is cut into these stretches.
* `locate line stretches`: the tokens of stretches with their lines.

## Main statements

* `Partition.eq`, `exists_partition`: a text is cut in one way only, and in some way.
* `Partition.tokens_append`, `Partition.tokens_eq`: the tokens ahead are those of the stretches.
* `source_has_one_partition`: both, for every source.
-/

namespace BugsLang

namespace Trivia.Piece

/-- A piece of trivia does not end within a pair. -/
theorem not_splitsPair_of_fits {p : Trivia.Piece} {v : List Char} (h : p.Fits v) :
    ¬ SplitsPair p.text v := by
  cases p with
  | blanks layout => exact not_splitsPair_of_forall fun c hc => isLineEnd_of_isBlank (h.2.1 c hc)
  | lineComment body =>
    exact not_splitsPair_cons (by decide)
      (not_splitsPair_cons (by decide) (not_splitsPair_of_forall h.1))
  | blockComment body =>
    obtain ⟨inner, rfl, -⟩ | ⟨-, rfl⟩ := h
    · -- a comment that is closed ends with a slash
      rintro ⟨hlast, -⟩
      rw [text, ← List.cons_append, ← List.cons_append, List.getLast?_append] at hlast
      cases hlast
    · exact not_splitsPair_nil_right _

end Trivia.Piece

/-- A stretch of a source. -/
inductive Stretch where
  /-- A piece of trivia, which makes no token. -/
  | trivia (p : Trivia.Piece)
  /-- A lexeme, which makes one token. -/
  | lexeme (l : Lexeme)
deriving DecidableEq, Repr

namespace Stretch

/-- The characters of the stretch as they stand in the source. -/
def text : Stretch → List Char
  | trivia p => p.text
  | lexeme l => l.text

/-- The stretch is a whole one in front of the text. -/
def Fits (after : List Char) : Stretch → Prop
  | trivia p => p.Fits after
  | lexeme l => l.Fits after

/-- The token that the stretch makes, if it makes one. -/
def token? : Stretch → Option Token
  | trivia _ => none
  | lexeme l => some l.token

/-- The stretch that the text starts with, or `none` at its end. -/
def first? (s : List Char) : Option Stretch :=
  match Trivia.Piece.first? s with
  | some p => some (trivia p)
  | none => (Lexeme.first? s).map lexeme

variable {x : Stretch} {s v : List Char}

/-- The stretch that fits is the first one. -/
theorem first?_of_fits (h : x.Fits v) : first? (x.text ++ v) = some x := by
  cases x with
  | trivia p => rw [first?, text, Trivia.Piece.first?_of_fits h]
  | lexeme l =>
    rw [first?, text, Lexeme.piece_first?_of_fits h, Lexeme.first?_of_fits h]
    rfl

/-- A text that is not empty starts with a stretch that fits. -/
theorem exists_fits (h : s ≠ []) : ∃ (x : Stretch) (v : List Char), s = x.text ++ v ∧ x.Fits v := by
  cases hpiece : Trivia.Piece.first? s with
  | some p =>
    obtain ⟨v, hs, hfits⟩ := Trivia.Piece.fits_of_first? hpiece
    exact ⟨trivia p, v, hs, hfits⟩
  | none =>
    cases hlexeme : Lexeme.first? s with
    | none => exact absurd (Lexeme.first?_eq_none_iff.1 hlexeme) h
    | some l =>
      obtain ⟨v, hs, hfits⟩ := Lexeme.fits_of_first? hpiece hlexeme
      exact ⟨lexeme l, v, hs, hfits⟩

/-- A stretch fits where it is the first one. -/
theorem fits_iff : x.Fits v ↔ first? (x.text ++ v) = some x := by
  refine ⟨first?_of_fits, ?_⟩
  intro h
  cases hpiece : Trivia.Piece.first? (x.text ++ v) with
  | some p =>
    rw [first?, hpiece] at h
    obtain rfl : trivia p = x := Option.some.inj h
    obtain ⟨w, hw, hfits⟩ := Trivia.Piece.fits_of_first? hpiece
    rwa [← List.append_cancel_left hw] at hfits
  | none =>
    rw [first?, hpiece] at h
    obtain ⟨l, hlexeme, rfl⟩ := Option.map_eq_some_iff.1 h
    obtain ⟨w, hw, hfits⟩ := Lexeme.fits_of_first? hpiece hlexeme
    rwa [← List.append_cancel_left hw] at hfits

instance : Decidable (x.Fits v) :=
  decidable_of_iff _ fits_iff.symm

theorem text_ne_nil_of_fits (h : x.Fits v) : x.text ≠ [] := by
  cases x with
  | trivia p => exact Trivia.Piece.text_ne_nil_of_fits h
  | lexeme l =>
    have hfirst : Lexeme.first? (l.text ++ v) = some l := Lexeme.first?_of_fits h
    exact Lexeme.text_ne_nil_of_first? hfirst

/-- A stretch does not end within a pair. -/
theorem not_splitsPair_of_fits (h : x.Fits v) : ¬ SplitsPair x.text v := by
  cases x with
  | trivia p => exact Trivia.Piece.not_splitsPair_of_fits h
  | lexeme l => exact Lexeme.not_splitsPair_of_first? (Lexeme.first?_of_fits h)

end Stretch

/-- The text is cut into the stretches. Each of them is a whole one in front of what follows. -/
def Partition : List Stretch → List Char → Prop
  | [], s => s = []
  | x :: stretches, s => ∃ v, s = x.text ++ v ∧ x.Fits v ∧ Partition stretches v

variable {stretches others : List Stretch} {s : List Char} {p q : Position}

theorem partition_cons_iff {x : Stretch} :
    Partition (x :: stretches) s ↔ x.text <+: s ∧ x.Fits (s.drop x.text.length) ∧
      Partition stretches (s.drop x.text.length) := by
  constructor
  · intro h
    obtain ⟨v, rfl, hfits, hv⟩ := h
    rw [List.drop_left]
    exact ⟨List.prefix_append _ _, hfits, hv⟩
  · intro h
    obtain ⟨⟨v, rfl⟩, hfits, hv⟩ := h
    rw [List.drop_left] at hfits hv
    exact ⟨v, rfl, hfits, hv⟩

instance Partition.decidable : (stretches : List Stretch) → (s : List Char) →
    Decidable (Partition stretches s)
  | [], s => inferInstanceAs (Decidable (s = []))
  | x :: stretches, s =>
    have := Partition.decidable stretches (s.drop x.text.length)
    decidable_of_iff _ partition_cons_iff.symm

/-- Nothing of the text is lost and nothing is used twice. -/
theorem Partition.flatMap_text (h : Partition stretches s) :
    stretches.flatMap Stretch.text = s := by
  induction stretches generalizing s with
  | nil => exact h.symm
  | cons x stretches ih =>
    obtain ⟨v, rfl, -, hv⟩ := h
    rw [List.flatMap_cons, ih hv]

/-- A text is cut in one way only. -/
theorem Partition.eq (h : Partition stretches s) (h' : Partition others s) :
    stretches = others := by
  induction stretches generalizing others s with
  | nil =>
    cases others with
    | nil => rfl
    | cons x others =>
      obtain ⟨v, hs, hfits, -⟩ := h'
      rw [h] at hs
      exact absurd (List.append_eq_nil_iff.1 hs.symm).1 (Stretch.text_ne_nil_of_fits hfits)
  | cons x stretches ih =>
    obtain ⟨v, rfl, hfits, hv⟩ := h
    have hfirst := Stretch.first?_of_fits hfits
    cases others with
    | nil => exact absurd (List.append_eq_nil_iff.1 h').1 (Stretch.text_ne_nil_of_fits hfits)
    | cons y others =>
      -- both begin with the first stretch of the text, so the same text lies behind
      obtain ⟨w, hs, hfits', hw⟩ := h'
      rw [hs, Stretch.first?_of_fits hfits'] at hfirst
      obtain rfl := Option.some.inj hfirst
      obtain rfl := List.append_cancel_left hs
      rw [ih hv hw]

/-- Every text is cut in some way. -/
theorem exists_partition (s : List Char) : ∃ stretches, Partition stretches s := by
  by_cases hs : s = []
  · exact ⟨[], hs⟩
  · obtain ⟨x, v, hcut, hfits⟩ := Stretch.exists_fits hs
    -- every stretch has a character, so what lies behind is shorter
    have hpos := List.length_pos_iff.2 (Stretch.text_ne_nil_of_fits hfits)
    have hlength : v.length < s.length := by
      rw [hcut, List.length_append]
      omega
    obtain ⟨stretches, hv⟩ := exists_partition v
    exact ⟨x :: stretches, v, hcut, hfits, hv⟩
termination_by s.length

/-- First comes all the trivia at the start of the text, and then the other stretches. -/
theorem Partition.exists_trivia (h : Partition stretches s) :
    ∃ (pieces : List Trivia.Piece) (others : List Stretch) (v : List Char),
      stretches = pieces.map .trivia ++ others ∧ s = pieces.flatMap Trivia.Piece.text ++ v ∧
        Trivia.length .between s = (pieces.flatMap Trivia.Piece.text).length ∧
        Partition others v := by
  induction stretches generalizing s with
  | nil =>
    obtain rfl : s = [] := h
    exact ⟨[], [], [], rfl, rfl, rfl, rfl⟩
  | cons x stretches ih =>
    obtain ⟨w, rfl, hfits, hw⟩ := h
    cases x with
    | trivia piece =>
      obtain ⟨pieces, others, v, rfl, rfl, hlength, hv⟩ := ih hw
      refine ⟨piece :: pieces, others, v, rfl, ?_, ?_, hv⟩
      · rw [List.flatMap_cons, List.append_assoc]
        rfl
      · have htrivia : piece.Fits (pieces.flatMap Trivia.Piece.text ++ v) := hfits
        rw [Stretch.text, Trivia.length_append_of_fits htrivia, hlength, List.flatMap_cons,
          List.length_append]
    | lexeme l =>
      have hlexeme : l.Fits w := hfits
      exact ⟨[], _, _, rfl, rfl,
        Trivia.length_of_first?_eq_none (Lexeme.piece_first?_of_fits hlexeme), w, rfl, hfits, hw⟩

/-! ## Tokens -/

variable {u v : List Char}

namespace Position

/-- To move on past a text and further is to move on from behind the text. -/
theorem advance_append (htext : p.text = u ++ v) (hsplits : ¬ SplitsPair u v) (k : Nat) :
    p.advance (u.length + k) = (⟨v, p.line + lineBreaks u⟩ : Position).advance k := by
  have htake : (u ++ v).take (u.length + k) = u ++ v.take k := List.take_length_add_append k
  have hdrop : (u ++ v).drop (u.length + k) = v.drop k := List.drop_length_add_append k
  have hsplits' : ¬ SplitsPair u (v.take k) := by
    intro h
    apply hsplits
    rw [← List.take_append_drop k v]
    exact h.append _
  rw [advance, advance, htext, htake, hdrop, lineBreaks_append hsplits', ← Nat.add_assoc]

/-- In front of trivia the same tokens are ahead as behind it. -/
theorem tokens_of_trivia (htext : p.text = u ++ v) (hsplits : ¬ SplitsPair u v)
    (hlength : Trivia.length .between (u ++ v) = u.length + Trivia.length .between v) :
    p.tokens = (⟨v, p.line + lineBreaks u⟩ : Position).tokens := by
  rw [← tokens_passTrivia p, ← tokens_passTrivia ⟨v, _⟩, passTrivia, htext, hlength,
    advance_append htext hsplits]
  rfl

/-- In front of a lexeme the token of the lexeme is ahead, and then come those behind it. -/
theorem tokens_of_lexeme {l : Lexeme} (htext : p.text = l.text ++ v) (hfits : l.Fits v) :
    p.tokens = ⟨p.line, l.token⟩ :: (⟨v, p.line + lineBreaks l.text⟩ : Position).tokens := by
  have hfirst : Lexeme.first? p.text = some l := by
    rw [htext]
    exact Lexeme.first?_of_fits hfits
  have hpass : p.passTrivia = p := by
    rw [passTrivia, htext,
      Trivia.length_of_first?_eq_none (Lexeme.piece_first?_of_fits hfits), advance_zero]
  have hne : p.passTrivia.text ≠ [] := by
    rw [hpass]
    intro hnil
    rw [hnil] at hfirst
    cases hfirst
  have hpast : p.advance l.text.length = ⟨v, p.line + lineBreaks l.text⟩ := by
    have hsplits := Lexeme.not_splitsPair_of_first? (Lexeme.first?_of_fits hfits)
    rw [← Nat.add_zero l.text.length, advance_append htext hsplits, advance_zero]
  rw [tokens_of_text_ne_nil hne, hpass, token, pastToken, hfirst, ← hpast]

/-- At the end of the text only the end of the input is ahead. -/
theorem tokens_nil (line : Nat) : (⟨[], line⟩ : Position).tokens = [⟨line, .inputEnd⟩] :=
  tokens_of_text_eq_nil rfl

/-- In front of a stretch the token of the stretch is ahead, if it makes one, and then come those
behind it. -/
theorem tokens_of_stretch {x : Stretch} (htext : p.text = x.text ++ v) (hfits : x.Fits v) :
    p.tokens = (x.token?.map (⟨p.line, ·⟩)).toList ++
      (⟨v, p.line + lineBreaks x.text⟩ : Position).tokens := by
  cases x with
  | trivia x =>
    exact tokens_of_trivia htext (Trivia.Piece.not_splitsPair_of_fits hfits)
      (Trivia.length_append_of_fits hfits)
  | lexeme l => exact tokens_of_lexeme htext hfits

end Position

/-- The tokens of the stretches, the first of which starts on the given line. -/
def locate : Nat → List Stretch → List Token.Located
  | _, [] => []
  | line, x :: stretches =>
    (x.token?.map (⟨line, ·⟩)).toList ++ locate (line + lineBreaks x.text) stretches

theorem map_token_locate (line : Nat) (stretches : List Stretch) :
    (locate line stretches).map Token.Located.token = stretches.filterMap Stretch.token? := by
  induction stretches generalizing line with
  | nil => rfl
  | cons x stretches ih =>
    rw [locate, List.map_append, ih]
    cases hx : x.token? with
    | none =>
      rw [List.filterMap_cons_none hx]
      rfl
    | some t =>
      rw [List.filterMap_cons_some hx]
      rfl

/-- The tokens ahead are those of some stretches and then those ahead behind them. -/
theorem Partition.tokens_append (h : Partition (stretches ++ others) p.text)
    (hv : Partition others v) :
    p.tokens = locate p.line stretches ++
      (⟨v, p.line + lineBreaks (stretches.flatMap Stretch.text)⟩ : Position).tokens := by
  induction stretches generalizing p with
  | nil =>
    obtain rfl : p.text = v := h.flatMap_text.symm.trans hv.flatMap_text
    rfl
  | cons x stretches ih =>
    obtain ⟨w, htext, hfits, hw⟩ := h
    change Partition (stretches ++ others) w at hw
    have hsplits : ¬ SplitsPair x.text (stretches.flatMap Stretch.text) := by
      intro hsplits
      apply Stretch.not_splitsPair_of_fits hfits
      rw [← hw.flatMap_text, List.flatMap_append]
      exact hsplits.append _
    rw [Position.tokens_of_stretch htext hfits,
      ih (p := ⟨w, p.line + lineBreaks x.text⟩) hw, locate, List.flatMap_cons,
      lineBreaks_append hsplits, List.append_assoc, Nat.add_assoc]

/-- The tokens ahead are those of all stretches and then the end of the input. -/
theorem Partition.tokens_eq (h : Partition stretches p.text) :
    p.tokens = locate p.line stretches ++ [⟨p.line + lineBreaks p.text, .inputEnd⟩] := by
  have htext := h.flatMap_text
  rw [← List.append_nil stretches] at h
  rw [h.tokens_append (v := []) rfl, Position.tokens_nil, htext]

/-- The tokens ahead are those of the lexemes and then the end of the input. -/
theorem Partition.map_token_tokens (h : Partition stretches p.text) :
    p.tokens.map Token.Located.token = stretches.filterMap Stretch.token? ++ [.inputEnd] := by
  rw [h.tokens_eq, List.map_append, map_token_locate]
  rfl

/-- Behind a byte order mark, a source can be cut into trivia and lexemes in just one way. All of it
is used, and reading hands out the tokens of the lexemes in their order and then the end of the
input. -/
theorem source_has_one_partition (source : String) :
    ∃ stretches,
      (∀ others,
        Partition others (Position.dropByteOrderMark source.toList) ↔ others = stretches) ∧
      stretches.flatMap Stretch.text = Position.dropByteOrderMark source.toList ∧
      (Reader.ofSource source).readAll.1.map Token.Located.token =
        stretches.filterMap Stretch.token? ++ [.inputEnd] := by
  obtain ⟨stretches, h⟩ := exists_partition (Position.dropByteOrderMark source.toList)
  refine ⟨stretches, ?_, h.flatMap_text, ?_⟩
  · intro others
    constructor
    · exact fun h' => h'.eq h
    · rintro rfl
      exact h
  · have hstart : (Reader.ofSource source).here.text =
        Position.dropByteOrderMark source.toList := rfl
    rw [Reader.readAll_fst, Reader.unread]
    rw [← hstart] at h
    exact h.map_token_tokens

/-- A slash behind the opening of a comment does not close it, a second point ends a number, and a
shielded backslash does not shield a quote. A line end closes a string, and only the first byte
order mark is dropped. -/
example : (locatedTokens "\uFEFF/*/\r**/1.2.3\"\\\\\"\"\\\n\uFEFF").map Token.Located.token =
    [⟨.number, "1.2"⟩, ⟨.symbol, "."⟩, ⟨.number, "3.0"⟩, ⟨.symbol, "\""⟩, ⟨.symbol, "\""⟩, .lineEnd,
      ⟨.symbol, "\uFEFF"⟩, .inputEnd] := by decide +kernel

end BugsLang
