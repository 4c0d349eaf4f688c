import BugsLang.Text.Lexeme
import BugsLang.Text.Trivia

/-!
# Positions in a source

A position is what lies ahead in the source, and the number of the line it is on. `passTrivia` and
`pastToken` move it forward, and the tokens that lie ahead depend on nothing else.

## Main definitions

* `Position.token`: the token that starts at a position.
* `Position.tokens`: all tokens ahead.
* `locatedTokens`: the tokens of a source.

## Main statements

* `Position.tokens_of_text_ne_nil`, `Position.tokens_of_text_eq_nil`: the tokens ahead are the next
  one and those past it, down to the end of the input, which is the last.
* `Position.tokens_passTrivia`: trivia makes no difference to the tokens ahead.
-/

namespace BugsLang

/-- A place in a source. -/
structure Position where
  /-- The text ahead. -/
  text : List Char
  /-- The number of the line, counted from 1. -/
  line : Nat
deriving DecidableEq, Repr

namespace Position

/-- The text without the byte order mark it may start with. -/
def dropByteOrderMark : List Char → List Char
  | '\uFEFF' :: rest => rest
  | s => s

/-- The start of a source. -/
def ofSource (source : String) : Position :=
  ⟨dropByteOrderMark source.toList, 1⟩

/-- Moves on by `n` characters and counts the line ends among them. -/
def advance (p : Position) (n : Nat) : Position :=
  ⟨p.text.drop n, p.line + lineBreaks (p.text.take n)⟩

/-- Moves on to the next lexeme or to the end of the text. -/
def passTrivia (p : Position) : Position :=
  p.advance (Trivia.length .between p.text)

/-- The token that starts here, for a position without trivia ahead. -/
def token (p : Position) : Token.Located :=
  match Lexeme.first? p.text with
  | none => ⟨p.line, .inputEnd⟩
  | some l => ⟨p.line, l.token⟩

/-- Moves on past the token that starts here. At the end of the text there is nowhere to go. -/
def pastToken (p : Position) : Position :=
  match Lexeme.first? p.text with
  | none => p
  | some l => p.advance l.text.length

theorem advance_zero (p : Position) : p.advance 0 = p := by
  simp [advance]

/-- Behind trivia there is none. -/
@[simp] theorem passTrivia_passTrivia (p : Position) : p.passTrivia.passTrivia = p.passTrivia := by
  have h : Trivia.length .between p.passTrivia.text = 0 := Trivia.length_drop_length ..
  rw [passTrivia, h, advance_zero]

theorem length_text_passTrivia_le (p : Position) : p.passTrivia.text.length ≤ p.text.length := by
  simp [passTrivia, advance]

/-- Only at the end of the text is the next token the end of the input. -/
theorem kind_token_eq_inputEnd_iff {p : Position} :
    p.token.token.kind = .inputEnd ↔ p.text = [] := by
  cases hl : Lexeme.first? p.text with
  | none => simp [token, Lexeme.first?_eq_none_iff.1 hl, Lexeme.first?, Token.inputEnd]
  | some l =>
    have hne : p.text ≠ [] := fun hnil => by simp [hnil, Lexeme.first?] at hl
    simp [token, hl, hne, Lexeme.kind_token_ne_inputEnd l]

/-- At the end of the text the position stays. -/
theorem pastToken_of_text_eq_nil {p : Position} (h : p.text = []) : p.pastToken = p := by
  simp [pastToken, h, Lexeme.first?]

/-- A token takes at least one character. -/
theorem length_text_pastToken_lt {p : Position} (h : p.text ≠ []) :
    p.pastToken.text.length < p.text.length := by
  cases hl : Lexeme.first? p.text with
  | none => exact absurd (Lexeme.first?_eq_none_iff.1 hl) h
  | some l =>
    have hlexeme : 0 < l.text.length := List.length_pos_iff.2 (Lexeme.text_ne_nil_of_first? hl)
    have htext : 0 < p.text.length := List.length_pos_iff.2 h
    simp only [pastToken, hl, advance, List.length_drop]
    omega

/-! ## The tokens ahead -/

/-- The tokens ahead with their lines, the end of the input last. -/
def tokens (p : Position) : List Token.Located :=
  if _h : p.passTrivia.text = [] then
    [p.passTrivia.token]
  else
    p.passTrivia.token :: p.passTrivia.pastToken.tokens
termination_by p.text.length
decreasing_by
  exact Nat.lt_of_lt_of_le (length_text_pastToken_lt _h) p.length_text_passTrivia_le

theorem tokens_of_text_eq_nil {p : Position} (h : p.passTrivia.text = []) :
    p.tokens = [p.passTrivia.token] := by
  rw [tokens, dif_pos h]

theorem tokens_of_text_ne_nil {p : Position} (h : p.passTrivia.text ≠ []) :
    p.tokens = p.passTrivia.token :: p.passTrivia.pastToken.tokens := by
  rw [tokens, dif_neg h]

@[simp] theorem head?_tokens (p : Position) : p.tokens.head? = some p.passTrivia.token := by
  by_cases h : p.passTrivia.text = []
  · rw [tokens_of_text_eq_nil h, List.head?_cons]
  · rw [tokens_of_text_ne_nil h, List.head?_cons]

/-- Trivia makes no difference to the tokens ahead. -/
@[simp] theorem tokens_passTrivia (p : Position) : p.passTrivia.tokens = p.tokens := by
  by_cases h : p.passTrivia.text = []
  · rw [tokens_of_text_eq_nil h, tokens_of_text_eq_nil (by rwa [passTrivia_passTrivia]),
      passTrivia_passTrivia]
  · rw [tokens_of_text_ne_nil h, tokens_of_text_ne_nil (by rwa [passTrivia_passTrivia]),
      passTrivia_passTrivia]

end Position

/-- The tokens of the source with their lines, the end of the input last. -/
def locatedTokens (source : String) : List Token.Located :=
  (Position.ofSource source).tokens

end BugsLang
