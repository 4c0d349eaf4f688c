import BugsLang.Reader.Call

/-!
# Reading in place

A scanner reads tokens as a reader does, but it keeps the source as a whole and counts the bytes
that it has gone past. The token read last stays in a buffer. To put it back is to mark it, so that
it is handed out once more, and the place in the source does not change. So there are three lines to
keep: the one that is told, the one where the last token starts, and the one to go on from when that
token has been handed out again.

The source can only be cut between two characters. An operation that would cut it elsewhere has no
result, and neither has one that does not end.

## Main definitions

* `Scanner.rest`: the source from the place of the scanner on.
* `Scanner.read`, `Scanner.putBack`, `Scanner.lineOfNext`: the operations of a reader.
-/

namespace BugsLang

/-- A reader that works in place. -/
structure Scanner where
  /-- The source. -/
  source : String
  /-- The number of bytes in front of the place that the scanner has come to. -/
  offset : Nat
  /-- The line that is told. -/
  line : Nat
  /-- The token read last. -/
  last : Option Token
  /-- Whether that token was put back. -/
  isPutBack : Bool
  /-- The line where that token starts. -/
  tokenLine : Nat
  /-- The line to go on from when that token has been handed out again. -/
  resumeLine : Nat
deriving DecidableEq, Repr

namespace Scanner

/-- The scanner at the start of a source, or behind the byte order mark that it starts with. -/
def ofSource (source : String) : Scanner where
  source
  offset := if source.toList.head? = some '\uFEFF' then '\uFEFF'.utf8Size else 0
  line := 1
  last := none
  isPutBack := false
  tokenLine := 1
  resumeLine := 1

/-- The source from the offset on, or `none` where it cannot be cut. -/
def restFrom (x : Scanner) (offset : Nat) : Option (List Char) :=
  if h : (⟨offset⟩ : String.Pos.Raw).IsValid x.source then
    some (x.source.sliceFrom (x.source.pos ⟨offset⟩ h)).copy.toList
  else
    none

/-- The source from the place of the scanner on. -/
def rest (x : Scanner) : Option (List Char) :=
  x.restFrom x.offset

/-- The source from the offset up to the place of the scanner. -/
def textSince (x : Scanner) (offset : Nat) : Option (List Char) := do
  let text ← x.restFrom offset
  let rest ← x.rest
  if offset ≤ x.offset then some (text.take (text.length - rest.length)) else none

/-- The character `n` characters ahead, if there is one. -/
def peek (x : Scanner) (n : Nat) : Option (Option Char) :=
  x.rest.map (·[n]?)

/-! ## Going past characters -/

/-- Goes past one character. -/
def bump (x : Scanner) : Option Scanner := do
  match ← x.peek 0 with
  | some c => return { x with offset := x.offset + c.utf8Size }
  | none => return x

/-- Goes past all characters that come next and are of one kind. -/
def bumpWhile (p : Char → Bool) (x : Scanner) : Option Scanner := do
  match ← x.peek 0 with
  | some c => if p c then (← x.bump) |>.bumpWhile p else return x
  | none => return x
partial_fixpoint

/-- Goes past a line end, and counts it. -/
def passLineEnd (x : Scanner) : Option Scanner := do
  let first ← x.peek 0
  let x ← x.bump
  let second ← x.peek 0
  let x ← if first = some '\r' ∧ second = some '\n' then x.bump else pure x
  return { x with line := x.line + 1 }

/-- Goes past the rest of a block comment, the closing included. -/
def passBlock (x : Scanner) : Option Scanner := do
  match ← x.peek 0 with
  | some c =>
    if c = '*' ∧ (← x.peek 1) = some '/' then (← x.bump).bump
    else if isLineEnd c then (← x.passLineEnd) |>.passBlock
    else (← x.bump) |>.passBlock
  | none => return x
partial_fixpoint

/-- Goes past trivia. -/
def passTrivia (x : Scanner) : Option Scanner := do
  match ← x.peek 0 with
  | some c =>
    if isBlank c then (← x.bump) |>.passTrivia
    else if c = '/' ∧ (← x.peek 1) = some '/' then (← x.bumpWhile (!isLineEnd ·)) |>.passTrivia
    else if c = '/' ∧ (← x.peek 1) = some '*' then (← (← (← x.bump).bump).passBlock) |>.passTrivia
    else return x
  | none => return x
partial_fixpoint

/-- Goes past the rest of a string, the closing quote included. -/
def passQuoted (x : Scanner) : Option Scanner := do
  match ← x.peek 0 with
  | some c =>
    if isLineEnd c then return x
    else if c = '"' then x.bump
    else if c = '\\' then
      let x ← x.bump
      match ← x.peek 0 with
      | some d => if isLineEnd d then x |>.passQuoted else (← x.bump) |>.passQuoted
      | none => x |>.passQuoted
    else (← x.bump) |>.passQuoted
  | none => return x
partial_fixpoint

/-- Goes past the digits of a number and its point. -/
def passNumber (x : Scanner) : Option Scanner := do
  let x ← x.bumpWhile Char.isDigit
  if (← x.peek 0) = some '.' then (← x.bump).bumpWhile Char.isDigit else return x

/-! ## Tokens -/

/-- Goes past the token that starts here. -/
def passToken (x : Scanner) : Option (Token × Scanner) := do
  match ← x.peek 0 with
  | some c =>
    if isLineEnd c then
      return (.lineEnd, ← x.passLineEnd)
    else if c = '"' then
      return (⟨.symbol, "\""⟩, ← (← x.bump).passQuoted)
    else if c.isDigit then
      let y ← x.passNumber
      let text ← y.textSince x.offset
      return (⟨.number, String.ofList (Numeral.ofStart text).canonical.text⟩, y)
    else if Unicode.isAlphabetic c then
      let y ← x.bumpWhile continuesWord
      let text ← y.textSince x.offset
      return (.ofWord (String.ofList text), y)
    else
      return (⟨.symbol, String.ofList [c]⟩, ← x.bump)
  | none => return (.inputEnd, x)

/-- Takes the next token out of the source, and keeps the line where it starts. -/
def scan (x : Scanner) : Option (Token × Scanner) := do
  let x ← x.passTrivia
  passToken { x with tokenLine := x.line }

/-- Hands out the token in the buffer if it was put back, and else the next one. -/
def read (x : Scanner) : Option (Token × Scanner) := do
  match x.isPutBack, x.last with
  | true, some t => return (t, { x with isPutBack := false, line := x.resumeLine })
  | _, _ =>
    let (t, x) ← scan { x with isPutBack := false }
    return (t, { x with last := some t })

/-- Marks the token in the buffer as put back. Where there is none, or it was put back already,
nothing happens. -/
def putBack (x : Scanner) : Scanner :=
  if x.isPutBack || x.last.isNone then x
  else { x with resumeLine := x.line, line := x.tokenLine, isPutBack := true }

/-- The line of the next token. -/
def lineOfNext (x : Scanner) : Option (Nat × Scanner) := do
  let x ← if x.isPutBack then pure x else x.passTrivia
  return (x.line, x)

/-- Carries out one operation of a reader. -/
def perform (x : Scanner) : Reader.Call → Option (Reader.Reply × Scanner)
  | .read => x.read.map fun step => (.token step.1, step.2)
  | .putBack => some (.nothing, x.putBack)
  | .lineOfNext => x.lineOfNext.map fun step => (.line step.1, step.2)

end Scanner

end BugsLang
