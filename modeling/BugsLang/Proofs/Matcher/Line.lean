import BugsLang.Proofs.Matcher.History
import BugsLang.Proofs.Text.LineEnd

/-!
# Lines are true to the source

Whatever has been read, put back or matched, the line that is told is that of the next lexeme in the
source: one more than the number of line ends in front of it. The reader has never counted the
source as a whole. But it only ever stands at places in the source, and so does its mark.

## Main definitions

* `Reader.IsOver s r`: the reader and its mark stand at places in `s`.
* `Reader.ReadsFrom r s`: `s` begins with the lexeme that is read next, or there is none.
* `Reader.TellsLine source r`: the line told is that of the next lexeme in the source.

## Main statements

* `Reader.kept_isOver`: every call to a reader keeps it in the source.
* `line_told_is_line_in_source`: the line told after any calls.
-/

namespace BugsLang

namespace Reader

variable {r : Reader} {s : List Char}

/-- The reader goes over the text: where it is and where it would go back to are places in it. -/
structure IsOver (s : List Char) (r : Reader) : Prop where
  here : r.here.IsIn s
  mark : ∀ start ∈ r.mark, start.IsIn s

/-- The text begins with the lexeme that is read next, or it is empty and there is none. It is what
lies ahead once trivia has been passed over, and after reading what is left of it lies ahead. -/
inductive ReadsFrom (r : Reader) : List Char → Prop where
  | lexeme {l : Lexeme} {after : List Char} (hahead : r.lineOfNext.2.here.text = l.text ++ after)
      (hfirst : Lexeme.first? (l.text ++ after) = some l) (htoken : r.read.1.token = l.token)
      (hafter : r.read.2.here.text = after) : ReadsFrom r (l.text ++ after)
  | inputEnd (hahead : r.lineOfNext.2.here.text = []) (htoken : r.read.1.token = .inputEnd) :
      ReadsFrom r []

/-- The line told is one more than the number of line ends in the source before the next lexeme, or
before the end of the source if there is none. No line end is partly before and partly behind. -/
def TellsLine (source : String) (r : Reader) : Prop :=
  ∃ before ahead, source.toList = before ++ ahead ∧ r.ReadsFrom ahead ∧
    lineEnds source.toList = lineEnds before ++ lineEnds ahead ∧
    r.lineOfNext.1 = 1 + (lineEnds before).length

theorem isOver_ofSource (source : String) : (ofSource source).IsOver source.toList :=
  ⟨Position.isIn_ofSource source, fun _ h => nomatch h⟩

/-- Every call to a reader keeps it in the text. -/
theorem kept_isOver (s : List Char) : Kept (IsOver s) := by
  have hmoves (p : Position) (h : p.IsIn s) : p.passTrivia.IsIn s ∧ p.passTrivia.pastToken.IsIn s :=
    ⟨h.passTrivia, h.passTrivia.pastToken⟩
  intro r call h
  obtain ⟨hhere, hmark⟩ := kept_within hmoves r call ⟨h.here, h.mark⟩
  exact ⟨hhere, hmark⟩

/-- What lies ahead once trivia has been passed over begins with the lexeme that is read next. -/
theorem readsFrom_passTrivia (r : Reader) : r.ReadsFrom r.here.passTrivia.text := by
  have hahead : r.lineOfNext.2.here.text = r.here.passTrivia.text := rfl
  have htoken : r.read.1 = r.here.passTrivia.token := rfl
  have hafter : r.read.2.here = r.here.passTrivia.pastToken := rfl
  cases hfirst : Lexeme.first? r.here.passTrivia.text with
  | none =>
    rw [Position.token, hfirst] at htoken
    rw [Lexeme.first?_eq_none_iff] at hfirst
    rw [hfirst] at hahead ⊢
    exact .inputEnd hahead (congrArg Token.Located.token htoken)
  | some l =>
    obtain ⟨after, htext⟩ := Lexeme.text_prefix_of_first? hfirst
    rw [Position.token, hfirst] at htoken
    rw [Position.pastToken, hfirst] at hafter
    rw [← htext] at hahead hfirst ⊢
    refine .lexeme hahead hfirst (congrArg Token.Located.token htoken) ?_
    rw [hafter]
    show r.here.passTrivia.text.drop l.text.length = after
    rw [← htext, List.drop_left]

theorem IsOver.tellsLine {source : String} (h : r.IsOver source.toList) : r.TellsLine source := by
  obtain ⟨before, heq, hsplits, hline⟩ := h.here.passTrivia
  refine ⟨before, r.here.passTrivia.text, heq, r.readsFrom_passTrivia, ?_, hline⟩
  rw [heq, lineEnds_append hsplits]

end Reader

/-- After any calls to a reader or a matcher, the line told is one more than the number of line ends
in the source before the next lexeme, or before the end of the source if there is none. -/
theorem line_told_is_line_in_source (source : String) :
    (∀ calls, ((Reader.ofSource source).after calls).TellsLine source) ∧
      ∀ calls, ((Matcher.ofSource source).after calls).reader.TellsLine source := by
  have hstart := Reader.isOver_ofSource source
  have hkept := Reader.kept_isOver source.toList
  constructor
  · intro calls
    exact (hkept.after hstart calls).tellsLine
  · intro calls
    exact (Matcher.reader_after hkept hstart calls).tellsLine

/-- Going back over a comment and a line end, and forward again, leaves the count as it is. -/
example :
    let calls : List Reader.Call := [.read, .read, .lineOfNext, .putBack, .lineOfNext, .read]
    ((Reader.ofSource "x\r\n/*\n\r*/ y").after calls).lineOfNext.1 = 4 := by
  decide +kernel

end BugsLang
