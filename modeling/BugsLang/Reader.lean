import BugsLang.Text.Position

/-!
# Reading tokens

Tokens are read on demand, one at a time, and the last one can be put back once. A reader is the
position that it has come to, and a mark where the last token starts. To put the token back is to
go back to the mark; what lies ahead of a position does not change, so the same token comes again.

## Main definitions

* `Reader.read`: the next token with its line.
* `Reader.putBack`: un-reads the last token.
* `Reader.lineOfNext`: the line of the token that comes next.
* `Reader.unread`: the tokens that are still to come.

## Main statements

* `Reader.unread_read`, `Reader.unread_read_at_end`, `Reader.unread_putBack_read`,
  `Reader.unread_lineOfNext`: what each operation does to the tokens still to come.
-/

namespace BugsLang

/-- A reader of tokens. -/
structure Reader where
  /-- How far the reader has come. -/
  here : Position
  /-- Where the token read last starts, unless it was put back. -/
  mark : Option Position
deriving DecidableEq, Repr

namespace Reader

/-- The reader at the start of a source. -/
def ofSource (source : String) : Reader :=
  ⟨.ofSource source, none⟩

/-- Hands out the next token. The end of the input is handed out again and again. -/
def read (r : Reader) : Token.Located × Reader :=
  let start := r.here.passTrivia
  (start.token, ⟨start.pastToken, some start⟩)

/-- Un-reads the token handed out last. Where there is none, or it was put back already, nothing
happens. -/
def putBack (r : Reader) : Reader :=
  match r.mark with
  | some start => ⟨start, none⟩
  | none => r

/-- The line of the next token. Trivia in front of the token is passed over on the way. -/
def lineOfNext (r : Reader) : Nat × Reader :=
  let start := r.here.passTrivia
  (start.line, { r with here := start })

/-- The tokens that are still to come, with their lines. -/
def unread (r : Reader) : List Token.Located :=
  r.here.tokens

@[simp] theorem head?_unread (r : Reader) : r.unread.head? = some r.read.1 :=
  r.here.head?_tokens

/-- Reading takes the first of the tokens still to come. -/
theorem unread_read {r : Reader} (h : r.read.1.token.kind ≠ .inputEnd) :
    r.unread = r.read.1 :: r.read.2.unread :=
  Position.tokens_of_text_ne_nil fun hnil => h (Position.kind_token_eq_inputEnd_iff.2 hnil)

/-- At the end of the input the end of the input is still to come, however often it is read. -/
theorem unread_read_at_end {r : Reader} (h : r.read.1.token.kind = .inputEnd) :
    r.unread = [r.read.1] ∧ r.read.2.unread = [r.read.1] := by
  have hnil : r.here.passTrivia.text = [] := Position.kind_token_eq_inputEnd_iff.1 h
  have hunread : r.unread = [r.read.1] := Position.tokens_of_text_eq_nil hnil
  refine ⟨hunread, ?_⟩
  rw [← hunread]
  simp [read, unread, Position.pastToken_of_text_eq_nil hnil]

/-- A token that was read and put back is still to come. -/
@[simp] theorem unread_putBack_read (r : Reader) : r.read.2.putBack.unread = r.unread :=
  r.here.tokens_passTrivia

/-- Asking for the line leaves the tokens still to come. -/
@[simp] theorem unread_lineOfNext (r : Reader) : r.lineOfNext.2.unread = r.unread :=
  r.here.tokens_passTrivia

/-- The line asked for is the line of the token that is read next. -/
theorem lineOfNext_eq_line_read (r : Reader) : r.lineOfNext.1 = r.read.1.line := by
  simp only [lineOfNext, read, Position.token]
  split <;> rfl

/-! ## Reading to the end -/

/-- Reading a token other than the end of the input uses up some of the text. -/
theorem length_text_read_lt {r : Reader} (h : r.read.1.token.kind ≠ .inputEnd) :
    r.read.2.here.text.length < r.here.text.length :=
  Nat.lt_of_lt_of_le
    (Position.length_text_pastToken_lt fun hnil => h (Position.kind_token_eq_inputEnd_iff.2 hnil))
    r.here.length_text_passTrivia_le

/-- Reads all tokens up to the end of the input, which is the last of them. -/
def readAll (r : Reader) : List Token.Located × Reader :=
  let step := r.read
  if _h : step.1.token.kind = .inputEnd then
    ([step.1], step.2)
  else
    let others := step.2.readAll
    (step.1 :: others.1, others.2)
termination_by r.here.text.length
decreasing_by exact length_text_read_lt _h

/-- Reading to the end hands out the tokens that were still to come. -/
theorem readAll_fst (r : Reader) : r.readAll.1 = r.unread := by
  fun_induction readAll r with
  | case1 r step h => exact (unread_read_at_end h).1.symm
  | case2 r step h others ih => rw [unread_read h, ← ih]

end Reader

end BugsLang
