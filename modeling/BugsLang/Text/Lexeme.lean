import BugsLang.Numeral.Canonical
import BugsLang.Text.LineEnd
import BugsLang.Text.Token
import BugsLang.Unicode.Alphabetic
import BugsLang.Unicode.Numeric

/-!
# Lexemes

A lexeme is a stretch of source that makes one token. It is kept with the characters it was
written in, so that `Lexeme.text` gives the source back and `Lexeme.token` what becomes of it.
`Lexeme.first?` finds the lexeme that a text without leading trivia starts with; each kind of
lexeme takes as many characters as it can.
-/

namespace BugsLang

/-- Whether the character may continue a word. -/
def continuesWord (c : Char) : Bool :=
  Unicode.isAlphabetic c || Unicode.isNumeric c

/-- The number of characters that belong to a string after its opening quote, the closing quote
included. A backslash shields the character after it; the string stops short of a line end. -/
def quotedLength : List Char → Nat
  | [] => 0
  | '"' :: _ => 1
  | '\\' :: c :: rest => if isLineEnd c then 1 else quotedLength rest + 2
  | c :: rest => if isLineEnd c then 0 else quotedLength rest + 1

/-- A stretch of source that makes one token. -/
inductive Lexeme where
  /-- A line end. -/
  | lineEnd (style : LineEnd)
  /-- A string, with what follows its opening quote. -/
  | quoted (body : List Char)
  /-- A number. -/
  | number (numeral : Numeral)
  /-- A word. -/
  | word (letters : List Char)
  /-- Any other character. -/
  | mark (c : Char)
deriving DecidableEq, Repr

namespace Lexeme

/-- The characters of the lexeme as they stand in the source. -/
def text : Lexeme → List Char
  | lineEnd style => style.text
  | quoted body => '"' :: body
  | number numeral => numeral.text
  | word letters => letters
  | mark c => [c]

/-- The token that the lexeme makes. The contents of a string do not reach it. -/
def token : Lexeme → Token
  | lineEnd _ => .lineEnd
  | quoted _ => ⟨.symbol, "\""⟩
  | number numeral => ⟨.number, String.ofList numeral.canonical.text⟩
  | word letters => .ofWord (String.ofList letters)
  | mark c => ⟨.symbol, String.ofList [c]⟩

/-- The lexeme that the text starts with, or `none` at its end. -/
def first? : List Char → Option Lexeme
  | [] => none
  | c :: rest =>
    some <|
      if c = '\n' then lineEnd .lf
      else if c = '\r' then lineEnd (if rest.head? = some '\n' then .crlf else .cr)
      else if c = '"' then quoted (rest.take (quotedLength rest))
      else if c.isDigit then number (.ofStart (c :: rest))
      else if Unicode.isAlphabetic c then word ((c :: rest).takeWhile continuesWord)
      else mark c

theorem first?_eq_none_iff {s : List Char} : first? s = none ↔ s = [] := by
  cases s <;> simp [first?]

/-- No lexeme makes the end of the input. -/
theorem kind_token_ne_inputEnd (l : Lexeme) : l.token.kind ≠ .inputEnd := by
  cases l with
  | word letters =>
    simp only [token, Token.ofWord]
    split <;> decide
  | _ => simp [token, Token.lineEnd]

/-- A lexeme has at least one character. -/
theorem text_ne_nil_of_first? {s : List Char} {l : Lexeme} (h : first? s = some l) :
    l.text ≠ [] := by
  cases s with
  | nil => simp [first?] at h
  | cons c rest =>
    simp only [first?, Option.some.injEq] at h
    subst h
    split
    · simp [text, LineEnd.text]
    · split
      · split <;> simp [text, LineEnd.text]
      · split
        · simp [text]
        · split
          · rename_i hc
            simp [text, Numeral.text_ofStart_ne_nil hc]
          · split
            · rename_i hc
              simp [text, continuesWord, hc]
            · simp [text]

end Lexeme

end BugsLang
