/-!
# Line ends

A line ends with a line feed, a carriage return, or the two as a pair, which counts once.
`lineBreaks` counts them in a stretch of text.
-/

namespace BugsLang

/-- Whether the character ends a line, alone or as part of a pair. -/
def isLineEnd (c : Char) : Bool :=
  c == '\n' || c == '\r'

/-- The ways in which a line can end. -/
inductive LineEnd where
  /-- A line feed. -/
  | lf
  /-- A carriage return that no line feed follows. -/
  | cr
  /-- A carriage return and a line feed. -/
  | crlf
deriving DecidableEq, Repr

/-- The characters of the line end. -/
def LineEnd.text : LineEnd → List Char
  | .lf => ['\n']
  | .cr => ['\r']
  | .crlf => ['\r', '\n']

/-- The number of line ends in the text. Of a pair, the line feed is the one counted. -/
def lineBreaks : List Char → Nat
  | [] => 0
  | c :: rest =>
    if c = '\n' ∨ c = '\r' ∧ rest.head? ≠ some '\n' then lineBreaks rest + 1 else lineBreaks rest

@[simp] theorem lineBreaks_nil : lineBreaks [] = 0 := rfl

@[simp] theorem lineBreaks_text_lineEnd (e : LineEnd) : lineBreaks e.text = 1 := by
  cases e <;> decide

end BugsLang
