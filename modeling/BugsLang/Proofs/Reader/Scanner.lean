import BugsLang.Proofs.Reader.History
import BugsLang.Proofs.Reader.Passing
import BugsLang.Proofs.Text.Shift

/-!
# A scanner does what a reader does

A reader that puts a token back goes back in the source. A scanner does not: it keeps the token and
stays behind it, and if it is asked for a line before it puts the token back, then it has passed
over the trivia behind the token as well. In spite of this the two answer all calls alike, and the
scanner always has an answer.

## Main definitions

* `Scanner.StandsAt source x p`: the scanner has come to the position in the source.
* `Scanner.HasRead x start`: the token read last is the one that starts at the position.
* `Scanner.Mirrors source x r`: what a scanner and a reader have in common.

## Main statements

* `Scanner.StandsAt.passTrivia`, `Scanner.StandsAt.scan`: a scanner moves as a position does.
* `Scanner.Mirrors.perform`, `Scanner.Mirrors.performAll`: calls are answered alike.
-/

namespace BugsLang

/-! ## Positions -/

namespace Position

variable {p q : Position}

/-- What is ahead of a position behind trivia: a lexeme, or nothing more. -/
inductive IsAhead (p : Position) : Prop where
  | lexeme {l : Lexeme} (htext : p.text = l.text ++ p.pastToken.text)
      (hfits : l.Fits p.pastToken.text) (htoken : p.token.token = l.token)
      (hpast : p.pastToken = p.advance l.text.length)
  | inputEnd (htext : p.text = []) (htoken : p.token.token = .inputEnd) (hpast : p.pastToken = p)

theorem isAhead_of_passTrivia_eq (h : p.passTrivia = p) : p.IsAhead := by
  have hlength : Trivia.length .between p.passTrivia.text = 0 := Trivia.length_drop_length ..
  rw [h] at hlength
  by_cases hnil : p.text = []
  · refine .inputEnd hnil ?_ (pastToken_of_text_eq_nil hnil)
    rw [token, hnil]
    rfl
  · obtain ⟨x, v, htext, hfits⟩ := Stretch.exists_fits hnil
    cases x with
    | lexeme l =>
      have htext : p.text = l.text ++ v := htext
      have hfirst : Lexeme.first? p.text = some l := by
        rw [htext]
        exact Lexeme.first?_of_fits hfits
      have hpast : p.pastToken = p.advance l.text.length := by rw [pastToken, hfirst]
      obtain rfl : p.pastToken.text = v := by
        rw [hpast, advance, htext, List.drop_left]
      refine .lexeme htext hfits ?_ hpast
      rw [token, hfirst]
    | trivia piece =>
      have htrivia : piece.Fits v := hfits
      have hpos := List.length_pos_iff.2 (Trivia.Piece.text_ne_nil_of_fits htrivia)
      rw [htext, Stretch.text, Trivia.length_append_of_fits htrivia] at hlength
      omega

/-- The other position is the same one, or the one behind the trivia that follows. -/
def Reaches (p q : Position) : Prop :=
  q = p ∨ q = p.passTrivia

theorem Reaches.passTrivia_eq (h : p.Reaches q) : q.passTrivia = p.passTrivia := by
  rcases h with rfl | rfl
  · rfl
  · exact passTrivia_passTrivia p

theorem Reaches.passTrivia (h : p.Reaches q) : p.Reaches q.passTrivia :=
  .inr h.passTrivia_eq

end Position

namespace Scanner

variable {source : String} {x y : Scanner} {p : Position} {r : Reader}

/-! ## Where a scanner stands -/

/-- The line on which the scanner is in the source. While a token is put back another one is
told. -/
def lineHere (x : Scanner) : Nat :=
  if x.isPutBack then x.resumeLine else x.line

/-- The scanner has come to the position in the source. -/
structure StandsAt (source : String) (x : Scanner) (p : Position) : Prop where
  source_eq : x.source = source
  rest : x.rest = some p.text
  line : x.lineHere = p.line

theorem lineHere_of_not_isPutBack (hback : x.isPutBack = false) : x.lineHere = x.line := by
  rw [lineHere, hback]
  rfl

/-- To go past characters is to move on by as many. -/
theorem StandsAt.past (h : x.StandsAt source p) (hback : x.isPutBack = false) (n : Nat) :
    (x.past (p.text.take n)).StandsAt source (p.advance n) := by
  refine ⟨h.source_eq, ?_, ?_⟩
  · apply rest_past
    rw [h.rest]
    exact congrArg some (List.take_append_drop n p.text).symm
  · have hback' : (x.past (p.text.take n)).isPutBack = false := hback
    rw [lineHere_of_not_isPutBack hback', Position.advance, ← h.line,
      lineHere_of_not_isPutBack hback]
    rfl

/-- To pass over trivia changes nothing but the place and the line. -/
theorem StandsAt.passTrivia (h : x.StandsAt source p) (hback : x.isPutBack = false) :
    ∃ y, x.passTrivia = some y ∧ y.StandsAt source p.passTrivia ∧ y.last = x.last ∧
      y.isPutBack = false ∧ y.tokenLine = x.tokenLine :=
  ⟨_, passTrivia_eq h.rest, h.past hback _, rfl, hback, rfl⟩

/-- The token that starts at the position is taken, and the scanner moves on past it. -/
theorem StandsAt.passToken (h : x.StandsAt source p) (hback : x.isPutBack = false)
    (htrivia : p.passTrivia = p) :
    ∃ y, x.passToken = some (p.token.token, y) ∧ y.StandsAt source p.pastToken ∧
      y.isPutBack = false ∧ y.tokenLine = x.tokenLine := by
  cases Position.isAhead_of_passTrivia_eq htrivia with
  | @lexeme l htext hfits htoken hpast =>
    have hrest : x.rest = some (l.text ++ p.pastToken.text) := by rw [h.rest, ← htext]
    have hmoved := h.past hback l.text.length
    rw [← hpast, htext, List.take_left] at hmoved
    rw [htoken]
    exact ⟨x.past l.text, passToken_of_fits hrest hfits, hmoved, hback, rfl⟩
  | inputEnd htext htoken hpast =>
    have hrest : x.rest = some [] := by rw [h.rest, htext]
    rw [htoken, hpast]
    exact ⟨x, passToken_of_rest_eq_nil hrest, h, hback, rfl⟩

/-- The token behind the trivia is taken, and the line where it starts is kept. -/
theorem StandsAt.scan (h : x.StandsAt source p) (hback : x.isPutBack = false) :
    ∃ y, x.scan = some (p.passTrivia.token.token, y) ∧ y.StandsAt source p.passTrivia.pastToken ∧
      y.isPutBack = false ∧ y.tokenLine = p.passTrivia.line := by
  obtain ⟨z, hpass, hz, -, hzback, -⟩ := h.passTrivia hback
  have hz' : ({ z with tokenLine := z.line } : Scanner).StandsAt source p.passTrivia :=
    ⟨hz.source_eq, hz.rest, hz.line⟩
  obtain ⟨y, htoken, hy, hyback, hline⟩ :=
    hz'.passToken hzback (Position.passTrivia_passTrivia p)
  refine ⟨y, ?_, hy, hyback, ?_⟩
  · rw [Scanner.scan, hpass]
    exact htoken
  · rw [hline, ← hz.line, lineHere_of_not_isPutBack hzback]

/-- The token read last is the one that starts at the position, where no trivia is ahead. -/
structure HasRead (x : Scanner) (start : Position) : Prop where
  last : x.last = some start.token.token
  line : x.tokenLine = start.line
  trivia : start.passTrivia = start

/-- Where no token is put back the next one is taken out of the source. -/
theorem StandsAt.read (h : x.StandsAt source p) (hback : x.isPutBack = false) :
    ∃ y, x.read = some (p.passTrivia.token.token, y) ∧
      y.StandsAt source p.passTrivia.pastToken ∧ y.HasRead p.passTrivia ∧ y.isPutBack = false := by
  have hsame : ({ x with isPutBack := false } : Scanner) = x := by rw [← hback]
  obtain ⟨y, hscan, hy, hyback, hline⟩ := h.scan hback
  refine ⟨{ y with last := some p.passTrivia.token.token }, ?_, ⟨hy.source_eq, hy.rest, hy.line⟩,
    ⟨rfl, hline, Position.passTrivia_passTrivia p⟩, hyback⟩
  rw [Scanner.read, hsame, hscan, hback]
  rfl

theorem lineOfNext_of_not_isPutBack (hback : x.isPutBack = false) (hpass : x.passTrivia = some y) :
    x.lineOfNext = some (y.line, y) := by
  rw [Scanner.lineOfNext, hback, if_neg Bool.false_ne_true, hpass]
  rfl

/-- A token that was put back is handed out again. -/
theorem read_of_isPutBack {t : Token} (hback : x.isPutBack = true) (hlast : x.last = some t) :
    x.read = some (t, { x with isPutBack := false, line := x.resumeLine }) := by
  simp [Scanner.read, hback, hlast]

/-- A token that was not put back is put back. -/
theorem putBack_of_last {t : Token} (hback : x.isPutBack = false) (hlast : x.last = some t) :
    x.putBack = { x with resumeLine := x.line, line := x.tokenLine, isPutBack := true } := by
  simp [Scanner.putBack, hback, hlast]

/-! ## Scanners and readers -/

/-- The scanner and the reader have come equally far in the source, up to trivia, and have the same
token to put back. To put it back the reader goes back to where the token starts, but the scanner
stays behind it. -/
inductive Mirrors (source : String) : Scanner → Reader → Prop where
  /-- No token has been read. -/
  | fresh {x : Scanner} {p : Position} (hat : x.StandsAt source p) (hlast : x.last = none)
      (hback : x.isPutBack = false) : Mirrors source x ⟨p, none⟩
  /-- The token read last could be put back. -/
  | behind {x : Scanner} {p q start : Position} (hat : x.StandsAt source q)
      (hread : x.HasRead start) (hback : x.isPutBack = false)
      (hreaches : start.pastToken.Reaches q) (hhere : p.passTrivia = q.passTrivia) :
      Mirrors source x ⟨p, some start⟩
  /-- That token was put back. -/
  | holding {x : Scanner} {q start : Position} (hat : x.StandsAt source q)
      (hread : x.HasRead start) (hback : x.isPutBack = true) (hline : x.line = start.line)
      (hreaches : start.pastToken.Reaches q) : Mirrors source x ⟨start, none⟩

theorem mirrors_ofSource (source : String) :
    Mirrors source (ofSource source) (Reader.ofSource source) := by
  refine .fresh ⟨rfl, ?_, rfl⟩ rfl rfl
  refine restFrom_eq_some_iff.2 ?_
  by_cases hmark : source.toList.head? = some '\uFEFF'
  · obtain ⟨rest, hrest⟩ := List.head?_eq_some_iff.1 hmark
    refine ⟨['\uFEFF'], ?_, ?_⟩
    · rw [Position.ofSource, hrest]
      exact hrest
    · rw [byteLength_singleton, ofSource, if_pos hmark]
  · refine ⟨[], ?_, ?_⟩
    · rw [Position.ofSource_of_head?_ne hmark]
      rfl
    · rw [ofSource, if_neg hmark]
      rfl

theorem Mirrors.read (h : Mirrors source x r) :
    ∃ y, x.read = some (r.read.1.token, y) ∧ Mirrors source y r.read.2 := by
  cases h with
  | fresh hat hlast hback =>
    obtain ⟨y, hread, hy, hstart, hyback⟩ := hat.read hback
    exact ⟨y, hread, .behind hy hstart hyback (.inl rfl) rfl⟩
  | @behind p q start hat hread hback hreaches hhere =>
    obtain ⟨y, hread, hy, hstart, hyback⟩ := hat.read hback
    rw [← hhere] at hread hy hstart
    exact ⟨y, hread, .behind hy hstart hyback (.inl rfl) rfl⟩
  | @holding q start hat hread hback hline hreaches =>
    obtain ⟨hlast, htokenLine, htrivia⟩ := hread
    have hhere : x.resumeLine = q.line := by
      have hline := hat.line
      rwa [lineHere, hback] at hline
    refine ⟨{ x with isPutBack := false, line := x.resumeLine }, ?_, ?_⟩
    · rw [read_of_isPutBack hback hlast, Reader.read, htrivia]
    · rw [Reader.read, htrivia]
      exact .behind ⟨hat.source_eq, hat.rest, hhere⟩ ⟨hlast, htokenLine, htrivia⟩ rfl hreaches
        hreaches.passTrivia_eq.symm

theorem Mirrors.putBack (h : Mirrors source x r) : Mirrors source x.putBack r.putBack := by
  cases h with
  | fresh hat hlast hback =>
    rw [Scanner.putBack, hback, hlast]
    exact .fresh hat hlast hback
  | @behind p q start hat hread hback hreaches hhere =>
    obtain ⟨hlast, htokenLine, htrivia⟩ := hread
    have hline := hat.line
    rw [lineHere_of_not_isPutBack hback] at hline
    rw [putBack_of_last hback hlast]
    exact .holding ⟨hat.source_eq, hat.rest, hline⟩ ⟨hlast, htokenLine, htrivia⟩ rfl htokenLine
      hreaches
  | holding hat hread hback hline hreaches =>
    rw [Scanner.putBack, hback]
    exact .holding hat hread hback hline hreaches

theorem Mirrors.lineOfNext (h : Mirrors source x r) :
    ∃ y, x.lineOfNext = some (r.lineOfNext.1, y) ∧ Mirrors source y r.lineOfNext.2 := by
  cases h with
  | @fresh p hat hlast hback =>
    obtain ⟨y, hpass, hy, hylast, hyback, -⟩ := hat.passTrivia hback
    refine ⟨y, ?_, .fresh hy (hylast.trans hlast) hyback⟩
    rw [lineOfNext_of_not_isPutBack hback hpass, ← lineHere_of_not_isPutBack hyback, hy.line]
    rfl
  | @behind p q start hat hread hback hreaches hhere =>
    obtain ⟨y, hpass, hy, hylast, hyback, hytokenLine⟩ := hat.passTrivia hback
    refine ⟨y, ?_, ?_⟩
    · rw [lineOfNext_of_not_isPutBack hback hpass, ← lineHere_of_not_isPutBack hyback, hy.line,
        ← hhere]
      rfl
    · exact .behind hy ⟨hylast.trans hread.last, hytokenLine.trans hread.line, hread.trivia⟩ hyback
        hreaches.passTrivia (congrArg Position.passTrivia hhere)
  | @holding q start hat hread hback hline hreaches =>
    refine ⟨x, ?_, ?_⟩
    · rw [Scanner.lineOfNext, hback, Reader.lineOfNext, hread.trivia, ← hline]
      rfl
    · rw [Reader.lineOfNext, hread.trivia]
      exact .holding hat hread hback hline hreaches

/-- One call is answered alike, and afterwards the scanner still mirrors the reader. -/
theorem Mirrors.perform (h : Mirrors source x r) (call : Reader.Call) :
    ∃ y, x.perform call = some ((r.perform call).1, y) ∧ Mirrors source y (r.perform call).2 := by
  cases call with
  | read =>
    obtain ⟨y, hread, hy⟩ := h.read
    refine ⟨y, ?_, hy⟩
    rw [Scanner.perform, hread]
    rfl
  | putBack => exact ⟨x.putBack, rfl, h.putBack⟩
  | lineOfNext =>
    obtain ⟨y, hline, hy⟩ := h.lineOfNext
    refine ⟨y, ?_, hy⟩
    rw [Scanner.perform, hline]
    rfl

/-! ## Histories of use -/

/-- Carries out the calls, one after the other, and gives the answers. -/
def performAll (x : Scanner) : List Reader.Call → Option (List Reader.Reply × Scanner)
  | [] => some ([], x)
  | call :: calls => do
    let (reply, y) ← x.perform call
    let (replies, z) ← y.performAll calls
    return (reply :: replies, z)

/-- All calls are answered alike. -/
theorem Mirrors.performAll (h : Mirrors source x r) (calls : List Reader.Call) :
    ∃ y, x.performAll calls = some (r.replies calls, y) ∧ Mirrors source y (r.after calls) := by
  induction calls generalizing x r with
  | nil => exact ⟨x, rfl, h⟩
  | cons call calls ih =>
    obtain ⟨y, hcall, hy⟩ := h.perform call
    obtain ⟨z, hcalls, hz⟩ := ih hy
    refine ⟨z, ?_, hz⟩
    rw [Scanner.performAll, hcall, Option.bind_eq_bind, Option.bind_some]
    dsimp only
    rw [hcalls]
    rfl

end Scanner

end BugsLang
