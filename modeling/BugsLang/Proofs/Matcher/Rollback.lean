import BugsLang.Proofs.Matcher.History

/-!
# Calls that do not match

A call that does not match may have tried many alternatives, but all it has done in the end is to
look at the next token. The matcher is not the one it was: trivia has been passed over, and the
token read last can no longer be put back. None of this can be observed. Every later call gets the
answer that it would have got without the failed one, as long as no token is put back before a new
one has been looked at.

## Main statements

* `replies_eq_of_peeked_eq`: matchers that look at the same next token answer alike.
* `declined_call_leaves_no_trace`: a call that does not match makes no difference.
-/

namespace BugsLang.Matcher

variable {m m' : Matcher} {limit : Option Nat} {fuel : Nat} {within : Rule} {p : Phrase}

/-- Whether the answer says that nothing was matched. -/
def Reply.declines : Reply → Bool
  | .taken yes => !yes
  | .outcome o => o = .unmatched
  | .reader _ => false

/-- Whether the calls look at a token before they put one back. -/
def looksFirst : List Call → Bool
  | [] => true
  | .reader .putBack :: _ => false
  | .reader .lineOfNext :: calls => looksFirst calls
  | .reader .read :: _ | .take _ :: _ | .attempt _ :: _ => true

/-! ## Looking at a token that has been looked at -/

theorem take_peeked (pattern : Pattern) : m.peeked.take pattern = m.take pattern := by
  unfold take
  rw [read_peeked]
  rfl

/-- A run does not depend on whether the next token has been looked at. -/
theorem run_peeked : run limit fuel within p m.peeked = run limit fuel within p m := by
  induction fuel generalizing within p m with
  | zero => rfl
  | succ fuel ih =>
    cases p with
    | token pattern => rw [run, run, take_peeked]
    | rule r => rw [run, run, ih]
    | seq p q | choice p q | optional p | repeated p | required p expected => rw [run, run, ih]
    | bracketed p =>
      have hdeeper : ({ m.peeked with depth := m.peeked.depth + 1 } : Matcher) =
          ({ m with depth := m.depth + 1 } : Matcher).peeked := rfl
      have hfull : m.peeked.isFull limit = m.isFull limit := rfl
      rw [run, run, hdeeper, ih, hfull, refuse_eq, refuse_eq, peeked_peeked, next_peeked]

theorem attempt_peeked (rule : Rule) (hroom : m.HasRoom (some nestingLimit) 0) :
    m.peeked.attempt rule = m.attempt rule := by
  have hpeeked := run_eq_attempt (m := m.peeked) rule (m.reads_peeked.hasRoom_iff.2 hroom)
    (Nat.le_max_left m.peeked.fuel m.fuel)
  have hrun := run_eq_attempt rule hroom (Nat.le_max_right m.peeked.fuel m.fuel)
  rw [run_peeked] at hpeeked
  exact Option.some.inj (hpeeked.symm.trans hrun)

/-! ## Matchers that look at the same token -/

/-- Matchers that look at the same next token read it alike. -/
theorem read_eq_of_peeked_eq (h : m.peeked = m'.peeked) : m.reader.read = m'.reader.read := by
  rw [← m.read_peeked, h, read_peeked]

theorem lineOfNext_eq_of_peeked_eq (h : m.peeked = m'.peeked) :
    m.reader.lineOfNext.1 = m'.reader.lineOfNext.1 := by
  rw [Reader.lineOfNext_eq_line_read, Reader.lineOfNext_eq_line_read, read_eq_of_peeked_eq h]

/-- To ask for the line makes no difference to what is looked at. -/
theorem peeked_lineOfNext (m : Matcher) :
    ({ m with reader := m.reader.lineOfNext.2 } : Matcher).peeked = m.peeked := by
  simp only [peeked, Reader.lineOfNext, Reader.read, Reader.putBack,
    Position.passTrivia_passTrivia]

/-- Matchers that look at the same next token answer alike, unless a token is put back before one
has been looked at. -/
theorem replies_eq_of_peeked_eq {calls : List Call} (h : m.peeked = m'.peeked)
    (hroom : m.HasRoom (some nestingLimit) 0) (hlooks : looksFirst calls = true) :
    m.replies calls = m'.replies calls := by
  have hdepth : m.depth = m'.depth := by rw [← m.depth_peeked, h, depth_peeked]
  have hread := read_eq_of_peeked_eq h
  induction calls generalizing m m' with
  | nil => rfl
  | cons call calls ih =>
    -- whatever looks at the token makes the two matchers one
    have hsame : m.perform call = m'.perform call →
        m.replies (call :: calls) = m'.replies (call :: calls) := by
      intro heq
      rw [replies, replies, heq]
    cases call with
    | take pattern =>
      apply hsame
      rw [perform, perform, ← m.take_peeked, h, take_peeked]
    | attempt rule =>
      have hroom' : m'.HasRoom (some nestingLimit) 0 := by
        unfold HasRoom at hroom ⊢
        rwa [← hdepth]
      apply hsame
      rw [perform, perform, ← attempt_peeked rule hroom, h, attempt_peeked rule hroom']
    | reader call =>
      cases call with
      | read =>
        apply hsame
        show (Reply.reader (.token m.reader.read.1.token), Matcher.mk m.reader.read.2 m.depth) =
          (Reply.reader (.token m'.reader.read.1.token), Matcher.mk m'.reader.read.2 m'.depth)
        rw [hread, hdepth]
      | putBack => exact absurd hlooks Bool.false_ne_true
      | lineOfNext =>
        have hline := lineOfNext_eq_of_peeked_eq h
        show Reply.reader (.line m.reader.lineOfNext.1) ::
            replies { m with reader := m.reader.lineOfNext.2 } calls =
          Reply.reader (.line m'.reader.lineOfNext.1) ::
            replies { m' with reader := m'.reader.lineOfNext.2 } calls
        rw [hline]
        congr 1
        have hpeeked := m.peeked_lineOfNext.trans (h.trans m'.peeked_lineOfNext.symm)
        exact ih hpeeked hroom hlooks hdepth (read_eq_of_peeked_eq hpeeked)

/-! ## Calls that do not match -/

/-- A call that does not match has looked at the next token and done nothing else. -/
theorem perform_eq_peeked_of_declines {call : Call} (hroom : m.HasRoom (some nestingLimit) 0)
    (h : (m.perform call).1.declines = true) : (m.perform call).2 = m.peeked := by
  cases call with
  | reader call => exact absurd h Bool.false_ne_true
  | take pattern =>
    by_cases haccepts : pattern.accepts m.next.token = true
    · rw [perform, take_of_accepts haccepts] at h
      exact absurd h Bool.false_ne_true
    · rw [perform, take_of_not_accepts haccepts]
  | attempt rule =>
    have hunmatched : (m.attempt rule).1 = .unmatched := of_decide_eq_true h
    have hjust := justified_attempt rule hroom
    rw [hunmatched] at hjust
    exact hjust.eq_peeked

/-- A call that does not match makes no difference. The tokens still to come with their lines, the
line of the next token and the number of open brackets are what they were, and so are the answers to
all later calls, unless a token is put back before one has been looked at. -/
theorem declined_call_leaves_no_trace {call : Call} (hm : m.Reachable)
    (hdeclines : (m.perform call).1.declines = true) :
    (m.perform call).2.unread = m.unread ∧
      (m.perform call).2.reader.lineOfNext.1 = m.reader.lineOfNext.1 ∧
      (m.perform call).2.depth = m.depth ∧
      ∀ later, looksFirst later = true → (m.perform call).2.replies later = m.replies later := by
  have hroom : m.HasRoom (some nestingLimit) 0 := hm.hasRoom_iff.2 (Nat.zero_le _)
  rw [perform_eq_peeked_of_declines hroom hdeclines]
  refine ⟨m.unread_peeked, lineOfNext_eq_of_peeked_eq m.peeked_peeked, m.depth_peeked, ?_⟩
  intro later hlooks
  exact replies_eq_of_peeked_eq m.peeked_peeked (m.reads_peeked.hasRoom_iff.2 hroom) hlooks

/-- After a name, a program is tried in front of a comment that goes over two lines and an action.
The line is asked for and the action is read as if it had not been tried. -/
theorem declined_program_leaves_no_trace :
    let m := (ofSource "x /* a\n b */ move 1\n").after [.reader .read]
    let later : List Call := [.reader .lineOfNext, .attempt .move, .reader .putBack]
    m.Reachable ∧ (m.perform (.attempt .program)).1.declines = true ∧ looksFirst later = true ∧
      (m.perform (.attempt .program)).2.unread = m.unread ∧
      (m.perform (.attempt .program)).2.replies later =
        [.reader (.line 2), .outcome .matched, .reader .nothing] := by
  intro m later
  have hreachable : m.Reachable := ⟨_, _, rfl⟩
  have hdeclines : (m.perform (.attempt .program)).1.declines = true := by decide +kernel
  obtain ⟨hunread, -, -, hreplies⟩ := declined_call_leaves_no_trace hreachable hdeclines
  refine ⟨hreachable, hdeclines, rfl, hunread, ?_⟩
  rw [hreplies later rfl]
  decide +kernel

end BugsLang.Matcher
