import BugsLang.Proofs.Matcher.Alike
import BugsLang.Proofs.Matcher.Line
import BugsLang.Proofs.Text.Shift

/-!
# Starting again in the middle

A matcher that has been used is no different from a new one over the rest of the source. What was
read, put back or matched before has left no trace: no bracket is open, and the tokens ahead depend
on the text ahead alone. Only the lines are counted from elsewhere.

## Main definitions

* `Outcome.down n`: the outcome with its fault found `n` lines further down.

## Main statements

* `unread_eq_map_down`: what is unread in the middle of a source.
* `used_matcher_equals_new`: every rule after any calls.
-/

namespace BugsLang

/-- The outcome, with its fault found `n` lines further down. -/
def Outcome.down (n : Nat) (o : Outcome) : Outcome :=
  o.mapFound (Token.Located.down n)

theorem tokensOf_map_down (n : Nat) (w : List Token.Located) :
    tokensOf (w.map (Token.Located.down n)) = tokensOf w :=
  map_token_map_down n w

/-- Only the text that begins with the lexeme read next lies ahead behind trivia. -/
theorem Reader.ReadsFrom.text_eq {r : Reader} {s : List Char} (h : r.ReadsFrom s) :
    r.lineOfNext.2.here.text = s := by
  cases h with
  | lexeme hahead => exact hahead
  | inputEnd hahead => exact hahead

namespace Matcher

variable {m : Matcher} {n : Nat} {ahead : String}

/-- In the middle of a source the same tokens are unread as in a source of what lies ahead, each as
many lines further down as there are in front. -/
theorem unread_eq_map_down (htext : m.reader.here.passTrivia.text = ahead.toList)
    (hline : m.reader.here.passTrivia.line = 1 + n) (hmark : ahead.toList.head? ≠ some '\uFEFF') :
    m.unread = (ofSource ahead).unread.map (Token.Located.down n) := by
  have hstart : m.reader.here.passTrivia = ⟨ahead.toList, 1 + n⟩ := by rw [← htext, ← hline]
  show m.reader.here.tokens = (locatedTokens ahead).map (Token.Located.down n)
  rw [← Position.tokens_passTrivia, hstart, Position.tokens_eq_map_down hmark]

/-- A matcher with the tokens of a source unread, but `n` lines further down, matches every rule
as a new matcher of the source does. -/
theorem attempt_of_unread_eq_map_down (hm : m.Reachable)
    (hunread : m.unread = (ofSource ahead).unread.map (Token.Located.down n)) (rule : Rule) :
    (m.attempt rule).1 = ((ofSource ahead).attempt rule).1.down n ∧
      (m.attempt rule).2.unread =
        ((ofSource ahead).attempt rule).2.unread.map (Token.Located.down n) := by
  have hnew := reachable_ofSource ahead
  obtain ⟨w, t, rest, hall, hleft⟩ := hnew.exists_unread rule
  have hdepth : m.depth = (ofSource ahead).depth := hm.depth_eq_zero
  rw [hall, List.map_append, List.map_cons] at hunread
  obtain ⟨houtcome, hleft'⟩ := attempt_of_tokensOf_eq rule (hnew.hasRoom_iff.2 (Nat.zero_le _))
    hdepth hall hunread (tokensOf_map_down n w) rfl hleft
  rw [(hnew.justified rule).mapFound_eq (next_of_unread hleft)] at houtcome
  rw [hleft', hleft]
  exact ⟨houtcome, rfl⟩

/-- After any calls a matcher is as good as a new one over the source from the next lexeme on, or
over nothing at the end of the source, unless that text starts with a byte order mark. Every rule
comes out in the same way and leaves the same tokens unread, only as many lines further down as
there are line ends before that lexeme. -/
theorem used_matcher_equals_new (source : String) (calls : List Call) :
    let m := (ofSource source).after calls
    ∃ (before ahead : String) (n : Nat), source = before ++ ahead ∧
      m.reader.ReadsFrom ahead.toList ∧ m.reader.lineOfNext.1 = n + 1 ∧
      (ahead.toList.head? ≠ some '\uFEFF' → ∀ rule : Rule,
        (m.attempt rule).1 = ((ofSource ahead).attempt rule).1.down n ∧
          (m.attempt rule).2.unread =
            ((ofSource ahead).attempt rule).2.unread.map (Token.Located.down n)) := by
  intro m
  have hm : m.Reachable := ⟨source, calls, rfl⟩
  have hover : m.reader.IsOver source.toList :=
    reader_after (Reader.kept_isOver _) (Reader.isOver_ofSource source) calls
  obtain ⟨before, hsource, -, hline⟩ := hover.here.passTrivia
  refine ⟨.ofList before, .ofList m.reader.here.passTrivia.text, (lineEnds before).length,
    ?_, ?_, ?_, ?_⟩
  · rw [← String.ofList_append, ← hsource, String.ofList_toList]
  · rw [String.toList_ofList]
    exact m.reader.readsFrom_passTrivia
  · show m.reader.here.passTrivia.line = _
    omega
  · intro hmark rule
    refine attempt_of_unread_eq_map_down hm ?_ rule
    exact unread_eq_map_down String.toList_ofList.symm hline hmark

/-- Behind a fault in brackets that stay open the brackets are read past and a sign is put back. A
factor then fails as it does at the start of a source, only one line further down. -/
theorem used_matcher_equals_new_behind_fault :
    let m := (ofSource "turn f((2 - /*\n*/ )) + x . /*\n*/ 5").after
      [.attempt .turn, .reader .read, .reader .read, .reader .read, .reader .putBack]
    let ahead := "+ x . /*\n*/ 5"
    let d : Diagnostic := ⟨.operand, .nameAfterDot, ⟨2, .number, "5.0"⟩⟩
    ((ofSource ahead).attempt .factor).1 = .fault d ∧
      (m.attempt .factor).1 = (Outcome.fault d).down 1 := by
  intro m ahead d
  have hnew : ((ofSource ahead).attempt .factor).1 = .fault d := by decide +kernel
  have htext : m.reader.lineOfNext.2.here.text = ahead.toList := by decide +kernel
  have hline : m.reader.lineOfNext.1 = 2 := by decide +kernel
  obtain ⟨-, ahead', n, -, hreads, hn, hsame⟩ := used_matcher_equals_new
    "turn f((2 - /*\n*/ )) + x . /*\n*/ 5"
    [.attempt .turn, .reader .read, .reader .read, .reader .read, .reader .putBack]
  obtain rfl : ahead' = ahead := String.toList_inj.1 (hreads.text_eq.symm.trans htext)
  obtain rfl : n = 1 := Nat.succ.inj (hn.symm.trans hline)
  refine ⟨hnew, ?_⟩
  rw [← hnew]
  exact (hsame (by decide) .factor).1

end Matcher

end BugsLang
