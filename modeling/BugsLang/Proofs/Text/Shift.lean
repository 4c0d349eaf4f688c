import BugsLang.Text.Position

/-!
# Counting lines from elsewhere

What lies ahead of a position depends on the text ahead alone. The line of the position is only
added to: if it is `n` higher, so are the lines of all tokens ahead.

## Main statements

* `Position.tokens_down`: the tokens ahead of a position that is `n` lines further down.
* `Position.ofSource_of_head?_ne`: where a source starts that has no byte order mark.
-/

namespace BugsLang

/-- The same token, `n` lines further down. -/
def Token.Located.down (n : Nat) (t : Token.Located) : Token.Located :=
  { t with line := t.line + n }

@[simp] theorem Token.Located.token_down (n : Nat) (t : Token.Located) :
    (t.down n).token = t.token := rfl

theorem map_token_map_down (n : Nat) (w : List Token.Located) :
    (w.map (Token.Located.down n)).map Token.Located.token = w.map Token.Located.token := by
  rw [List.map_map]
  rfl

namespace Position

variable {p : Position} {n : Nat}

/-- The same text ahead, `n` lines further down. -/
def down (n : Nat) (p : Position) : Position :=
  { p with line := p.line + n }

@[simp] theorem text_down : (p.down n).text = p.text := rfl

theorem advance_down (k : Nat) : (p.down n).advance k = (p.advance k).down n := by
  simp only [advance, down, Position.mk.injEq, true_and]
  omega

theorem passTrivia_down : (p.down n).passTrivia = p.passTrivia.down n :=
  advance_down _

theorem token_down : (p.down n).token = p.token.down n := by
  unfold token
  rw [text_down]
  cases Lexeme.first? p.text <;> rfl

theorem pastToken_down : (p.down n).pastToken = p.pastToken.down n := by
  unfold pastToken
  rw [text_down]
  cases Lexeme.first? p.text with
  | none => rfl
  | some l => exact advance_down l.text.length

/-- Further down, the tokens ahead are the same and all of them are as far down. -/
theorem tokens_down : (p.down n).tokens = p.tokens.map (Token.Located.down n) := by
  fun_induction tokens p with
  | case1 p h =>
    have hend : (p.down n).passTrivia.text = [] := by rwa [passTrivia_down, text_down]
    rw [tokens_of_text_eq_nil hend, passTrivia_down, token_down]
    rfl
  | case2 p h ih =>
    have hmore : (p.down n).passTrivia.text ≠ [] := by rwa [passTrivia_down, text_down]
    rw [tokens_of_text_ne_nil hmore, passTrivia_down, token_down, pastToken_down, ih]
    rfl

theorem dropByteOrderMark_of_head?_ne {s : List Char} (h : s.head? ≠ some '\uFEFF') :
    dropByteOrderMark s = s := by
  unfold dropByteOrderMark
  split
  · exact absurd rfl h
  · rfl

/-- A source without a byte order mark starts with its first character. -/
theorem ofSource_of_head?_ne {source : String} (h : source.toList.head? ≠ some '\uFEFF') :
    ofSource source = ⟨source.toList, 1⟩ := by
  rw [ofSource, dropByteOrderMark_of_head?_ne h]

/-- A text without a byte order mark has the tokens further down that it has as a source. -/
theorem tokens_eq_map_down {w : String} (h : w.toList.head? ≠ some '\uFEFF') (n : Nat) :
    (⟨w.toList, 1 + n⟩ : Position).tokens = (locatedTokens w).map (Token.Located.down n) := by
  rw [locatedTokens, ofSource_of_head?_ne h, ← tokens_down]
  rfl

end Position

end BugsLang
