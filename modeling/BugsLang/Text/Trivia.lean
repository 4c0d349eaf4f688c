import BugsLang.Text.LineEnd
import BugsLang.Unicode.Blank

/-!
# Trivia

What lies between the lexemes of a source: blank characters, line comments from two slashes to
before the end of the line, and block comments from a slash and a star to the next star and slash.
A block comment that is never closed runs to the end of the text. The end of a line is no trivia,
except inside a block comment.
-/

namespace BugsLang

/-- Whether the character is layout within a line: white space or a control character, and no
line end. -/
def isBlank (c : Char) : Bool :=
  (Unicode.isWhiteSpace c || Unicode.isControl c) && !isLineEnd c

namespace Trivia

/-- What surrounds a position in trivia. -/
inductive Context where
  /-- No comment is open. -/
  | between
  /-- A line comment is open. -/
  | lineComment
  /-- A block comment is open. -/
  | blockComment
deriving DecidableEq, Repr

/-- The number of characters of trivia at the start of the text. -/
def length : Context → List Char → Nat
  | _, [] => 0
  | .between, '/' :: '/' :: rest => length .lineComment rest + 2
  | .between, '/' :: '*' :: rest => length .blockComment rest + 2
  | .between, c :: rest => if isBlank c then length .between rest + 1 else 0
  | .lineComment, c :: rest => if isLineEnd c then 0 else length .lineComment rest + 1
  | .blockComment, '*' :: '/' :: rest => length .between rest + 2
  | .blockComment, _ :: rest => length .blockComment rest + 1

/-- What follows trivia does not start with more of it. -/
theorem length_drop_length (context : Context) (s : List Char) :
    length .between (s.drop (length context s)) = 0 := by
  fun_induction length context s with
  | case1 => simp [length]
  | case2 rest ih => simpa using ih
  | case3 rest ih => simpa using ih
  | case4 c rest _ _ h ih => simpa using ih
  | case5 c rest _ _ h => simp [length, h]
  | case6 c rest h =>
    have hc : c = '\n' ∨ c = '\r' := by simpa [isLineEnd] using h
    rcases hc with rfl | rfl <;> simp [length, isBlank, isLineEnd]
  | case7 c rest h ih => simpa using ih
  | case8 rest ih => simpa using ih
  | case9 c rest h ih => simpa using ih

end Trivia

end BugsLang
