import BugsLang.Proofs.Validation

/-!
# After a fault

A fault is found at the bottom of many calls and is passed up through all of them. What it reports
is still true at the top: the token found is the first one unread, it comes next with the line
reported, and no bracket is left open. So tokens can be read past the fault and rules tried again. A
rejection reports the first token that the program left unread.

## Main statements

* `Reachable.perform`: a matcher stays one that calls lead to.
* `found_is_first_unread`: what is reported after faults and rejections.
-/

namespace BugsLang

namespace Matcher

variable {m : Matcher} {rule : Rule} {d : Diagnostic} {t : Token.Located}
  {rest : List Token.Located}

theorem after_append (m : Matcher) (calls others : List Call) :
    m.after (calls ++ others) = (m.after calls).after others := by
  induction calls generalizing m with
  | nil => rfl
  | cons call calls ih => exact ih (m.perform call).2

/-- One more call can be made, whatever came of the calls before. -/
theorem Reachable.perform (h : m.Reachable) (call : Call) : (m.perform call).2.Reachable := by
  obtain ⟨source, calls, rfl⟩ := h
  exact ⟨source, calls ++ [call], after_append _ calls [call]⟩

/-! ## The next token -/

/-- The first token unread is the one that is handed out next. -/
theorem reply_read_of_unread (h : m.unread = t :: rest) :
    (m.perform (.reader .read)).1 = .reader (.token t.token) := by
  obtain rfl : t = m.next := (next_of_unread h).symm
  rfl

/-- The line of the first token unread is the one that is told. -/
theorem reply_lineOfNext_of_unread (h : m.unread = t :: rest) :
    (m.perform (.reader .lineOfNext)).1 = .reader (.line t.line) := by
  obtain rfl : t = m.next := (next_of_unread h).symm
  have hline : m.reader.lineOfNext.1 = m.next.line := m.reader.lineOfNext_eq_line_read
  rw [← hline]
  rfl

/-! ## Faults and rejections -/

/-- At a fault some tokens have been read, and the token found comes next. -/
theorem exists_unread_of_fault (hm : m.Reachable) (hfault : (m.attempt rule).1 = .fault d) :
    ∃ w rest, m.unread = w ++ d.found :: rest ∧ (m.attempt rule).2.unread = d.found :: rest := by
  have hjust := hm.justified rule
  rw [hfault] at hjust
  obtain ⟨w, rest, hread, hrest, -⟩ := hjust.exists_unread
  exact ⟨w, rest, by rw [hread.unread, hrest], hrest⟩

end Matcher

open Matcher

/-- At a rejection the token found is the first one that the program left unread. -/
theorem exists_unread_of_rejection {source : String} {rejection : Rejection}
    (h : validate source = .error rejection) :
    ∃ w rest, locatedTokens source = w ++ rejection.found :: rest ∧
      ((ofSource source).attempt .program).2.unread = rejection.found :: rest := by
  have hm := reachable_ofSource source
  rw [← unread_ofSource]
  rcases outcome_of_rejection h with ⟨d, hfault, rfl⟩ | ⟨hnone, hnext⟩ | ⟨hmatched, hnext⟩
  · exact exists_unread_of_fault hm hfault
  · obtain ⟨rest, hunread, -⟩ := breaksAt_of_unmatched hm hnone
    have hjust := hm.justified .program
    rw [hnone] at hjust
    have hpeeked : ((ofSource source).attempt .program).2.unread = (ofSource source).unread := by
      rw [hjust.eq_peeked, unread_peeked]
    rw [hnext]
    exact ⟨[], rest, hunread, hpeeked.trans hunread⟩
  · obtain ⟨w, hunread, -⟩ := exists_endsBefore_of_matched hm hmatched
    obtain ⟨rest, hrest⟩ := ((ofSource source).attempt .program).2.unread_eq_cons
    rw [hrest] at hunread
    rw [hnext]
    exact ⟨w, rest, hunread, hrest⟩

/-- After a fault the token found is the first one unread. It has the line reported and is handed
out next, and as many brackets are open as before. A rejection is about the first token that the
program left unread. -/
theorem found_is_first_unread :
    (∀ (m : Matcher) (rule : Rule) (d : Diagnostic), m.Reachable →
      (m.attempt rule).1 = .fault d →
      let m' := (m.attempt rule).2
      (∃ w rest, m.unread = w ++ m'.unread ∧ m'.unread = d.found :: rest) ∧
        (m'.perform (.reader .lineOfNext)).1 = .reader (.line d.found.line) ∧
        (m'.perform (.reader .read)).1 = .reader (.token d.found.token) ∧
        m'.depth = m.depth ∧ m'.Reachable) ∧
    (∀ (source : String) (rejection : Rejection), validate source = .error rejection →
      ∃ w rest, locatedTokens source = w ++ rejection.found :: rest ∧
        ((ofSource source).attempt .program).2.unread = rejection.found :: rest) := by
  refine ⟨?_, fun _ _ => exists_unread_of_rejection⟩
  intro m rule d hm hfault m'
  obtain ⟨w, rest, hunread, hrest⟩ := exists_unread_of_fault hm hfault
  have hdepth : m'.depth = m.depth := (hm.justified rule).depth_eq
  refine ⟨⟨w, rest, by rw [hunread, hrest], hrest⟩, ?_, ?_, hdepth, hm.perform (.attempt rule)⟩
  · exact reply_lineOfNext_of_unread hrest
  · exact reply_read_of_unread hrest

/-- Behind a fault in brackets that stay unclosed another rule is tried, and that is a fault too: a
line ends where a name has to follow. A rejection is about a bracket that follows the program. -/
theorem found_behind_fault :
    let m := (ofSource "turn f(2, (3 - )) x . /* \n */ \n").after
      [.attempt .turn, .reader .read, .reader .read]
    let d : Diagnostic := ⟨.operand, .nameAfterDot, ⟨2, .lineEnd⟩⟩
    let source := "Bug b \x7b\n move 1 \r\n\x7d /* \n */ \n ) Bug"
    let rejection : Rejection := .leftover ⟨5, .symbol, ")"⟩
    (m.attempt .operand).1 = .fault d ∧ validate source = .error rejection ∧
      ((m.attempt .operand).2.perform (.reader .read)).1 = .reader (.token .lineEnd) ∧
      ∃ rest, ((ofSource source).attempt .program).2.unread = rejection.found :: rest := by
  intro m d source rejection
  have hfault : (m.attempt .operand).1 = .fault d := by decide +kernel
  have hmatched : ((ofSource source).attempt .program).1 = .matched := by decide +kernel
  have hleft : ((ofSource source).attempt .program).2.next = ⟨5, .symbol, ")"⟩ := by
    decide +kernel
  have hrejected : validate source = .error rejection := by
    rw [validate_eq, hmatched, hleft]
    rfl
  obtain ⟨hrule, hprogram⟩ := found_is_first_unread
  obtain ⟨-, -, hnext, -⟩ := hrule m .operand d ⟨_, _, rfl⟩ hfault
  obtain ⟨w, rest, -, hrest⟩ := hprogram source rejection hrejected
  exact ⟨hfault, hrejected, hnext, rest, hrest⟩

end BugsLang
