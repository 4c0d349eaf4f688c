import BugsLang.Vocabulary

/-!
# Tokens

What a Bugs source is read as: words, numbers, symbols and the ends of lines. A token is a kind and
a text. The end of the input is a token too, so that reading always yields one.
-/

namespace BugsLang

namespace Token

/-- The lexical classes of tokens. -/
inductive Kind where
  /-- A word that is not reserved. -/
  | name
  /-- A reserved word. -/
  | reserved
  /-- A number, with its text in canonical form. -/
  | number
  /-- Any other single character, and a quoted string as a whole. -/
  | symbol
  /-- The end of a line. -/
  | lineEnd
  /-- The end of the input. -/
  | inputEnd
deriving DecidableEq, Repr

end Token

/-- A lexical unit: its class and its text. -/
structure Token where
  /-- The lexical class. -/
  kind : Token.Kind
  /-- The characters, in the form that tokens are compared in. -/
  text : String
deriving DecidableEq, Repr

namespace Token

/-- The end of a line, whichever characters ended it. -/
def lineEnd : Token := ⟨.lineEnd, "\n"⟩

/-- The end of the input. -/
def inputEnd : Token := ⟨.inputEnd, "EOF"⟩

/-- The token of a word, which is a name unless the word is reserved. -/
def ofWord (text : String) : Token :=
  ⟨if isReserved text then .reserved else .name, text⟩

/-- How messages show the token. -/
def describe (t : Token) : String :=
  match t.kind with
  | .lineEnd => "end of line"
  | .inputEnd => "end of input"
  | .name | .reserved | .number | .symbol => "'" ++ t.text ++ "'"

/-- A token and the line it starts on. -/
structure Located where
  /-- The number of the line, counted from 1. -/
  line : Nat
  /-- The token. -/
  token : Token
deriving DecidableEq, Repr

@[simp] theorem text_ofWord {text : String} : (ofWord text).text = text := rfl

theorem kind_ofWord_eq_reserved_iff {text : String} :
    (ofWord text).kind = .reserved ↔ isReserved text = true := by
  by_cases h : isReserved text <;> simp [ofWord, h]

theorem kind_ofWord_eq_name_iff {text : String} :
    (ofWord text).kind = .name ↔ isReserved text = false := by
  by_cases h : isReserved text <;> simp [ofWord, h]

end Token

end BugsLang
