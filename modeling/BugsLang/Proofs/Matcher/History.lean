import BugsLang.Proofs.Matcher.Compound
import BugsLang.Proofs.Matcher.Fuel
import BugsLang.Proofs.Reader.History

/-!
# Histories of use

A matcher is used by a sequence of calls. Whatever the calls were, between two of them no bracket is
open, so each rule has the whole limit to itself.

## Main definitions

* `Matcher.replies`, `Matcher.after`: the answers to a list of calls, and the matcher after them.
* `Matcher.Reachable`: some source and some calls lead to the matcher.

## Main statements

* `Reachable.depth_eq_zero`: between calls no bracket is open.
* `Reachable.justified`: after any calls the outcome of every rule is justified.
* `Reachable.exists_unread`: a rule reads some tokens and leaves one after them.
* `reader_after`: what every call to a reader keeps is kept by every call to a matcher.
-/

namespace BugsLang.Matcher

variable {m : Matcher}

/-- The answers to the calls, one after the other. -/
def replies (m : Matcher) : List Call → List Reply
  | [] => []
  | call :: calls => (m.perform call).1 :: (m.perform call).2.replies calls

/-- The matcher after the calls. -/
def after (m : Matcher) : List Call → Matcher
  | [] => m
  | call :: calls => (m.perform call).2.after calls

/-- Some source and some calls lead to the matcher. -/
def Reachable (m : Matcher) : Prop :=
  ∃ source calls, (ofSource source).after calls = m

/-- The start of a source is reached without a call. -/
theorem reachable_ofSource (source : String) : (ofSource source).Reachable :=
  ⟨source, [], rfl⟩

/-! ## Between calls -/

/-- Where no bracket is open there is room for one. -/
theorem hasRoom_of_depth_eq_zero (hdepth : m.depth = 0) : m.HasRoom (some nestingLimit) 0 := by
  intro bound _
  rw [hdepth]
  exact Nat.zero_le bound

theorem depth_perform {call : Call} (hdepth : m.depth = 0) : (m.perform call).2.depth = 0 := by
  cases call with
  | reader call => exact hdepth
  | take pattern =>
    rw [perform, depth_take]
    exact hdepth
  | attempt rule =>
    rw [perform, (justified_attempt rule (hasRoom_of_depth_eq_zero hdepth)).depth_eq]
    exact hdepth

theorem depth_after (hdepth : m.depth = 0) (calls : List Call) : (m.after calls).depth = 0 := by
  induction calls generalizing m with
  | nil => exact hdepth
  | cons call calls ih => exact ih (depth_perform hdepth)

/-- Between calls no bracket is open. -/
theorem Reachable.depth_eq_zero (h : m.Reachable) : m.depth = 0 := by
  obtain ⟨source, calls, rfl⟩ := h
  exact depth_after rfl calls

/-- Between calls a rule has all the room that the limit leaves. -/
theorem Reachable.hasRoom_iff (h : m.Reachable) {n : Nat} :
    m.HasRoom (some nestingLimit) n ↔ n ≤ nestingLimit := by
  unfold HasRoom
  rw [h.depth_eq_zero]
  simp

/-- After any calls the outcome of a rule is justified. -/
theorem Reachable.justified (h : m.Reachable) (rule : Rule) :
    Justified (some nestingLimit) (.rule rule) m (m.attempt rule).1 (m.attempt rule).2 :=
  justified_attempt rule (h.hasRoom_iff.2 (Nat.zero_le _))

/-- After any calls a rule reads some tokens and leaves the one after them unread. -/
theorem Reachable.exists_unread (h : m.Reachable) (rule : Rule) :
    ∃ w t rest, m.unread = w ++ t :: rest ∧ (m.attempt rule).2.unread = t :: rest := by
  obtain ⟨w, hread⟩ := (h.justified rule).exists_reads
  obtain ⟨rest, hrest⟩ := (m.attempt rule).2.unread_eq_cons
  exact ⟨w, _, rest, by rw [hread.unread, hrest], hrest⟩

/-! ## The reader underneath -/

section

variable {P : Reader → Prop} {limit : Option Nat} {fuel : Nat} {within : Rule} {p : Phrase}
  {m' : Matcher} {outcome : Outcome}

theorem reader_take (hkept : Reader.Kept P) (h : P m.reader) (pattern : Pattern) :
    P (m.take pattern).2.reader := by
  by_cases haccepts : pattern.accepts m.next.token = true
  · rw [take_of_accepts haccepts]
    exact hkept.read h
  · rw [take_of_not_accepts haccepts]
    exact hkept.putBack (hkept.read h)

theorem reader_refuse (hkept : Reader.Kept P) (h : P m.reader) (rule : Rule)
    (expected : Expectation) : P (m.refuse rule expected).2.reader :=
  hkept.putBack (hkept.read h)

/-- What every call to a reader keeps is kept by every run. -/
theorem reader_run (hkept : Reader.Kept P) (h : P m.reader)
    (hrun : run limit fuel within p m = some (outcome, m')) : P m'.reader := by
  induction fuel generalizing within p m outcome m' with
  | zero => cases hrun
  | succ fuel ih =>
    cases hlead : p.lead with
    | some q =>
      rw [run_of_lead hlead] at hrun
      obtain ⟨⟨o, m₁⟩, hfirst, hrun⟩ := Option.bind_eq_some_iff.1 hrun
      have h₁ : P m₁.reader := ih h hfirst
      cases hsequel : p.sequel o with
      | phrase q' =>
        rw [hsequel] at hrun
        exact ih h₁ hrun
      | outcome known =>
        rw [hsequel] at hrun
        obtain ⟨-, rfl⟩ := Prod.mk.inj (Option.some.inj hrun)
        exact h₁
      | refusal expected =>
        rw [hsequel] at hrun
        obtain ⟨-, rfl⟩ := Prod.mk.inj (Option.some.inj hrun)
        exact reader_refuse hkept h₁ within expected
    | none =>
      cases p with
      | token pattern =>
        obtain ⟨-, rfl⟩ := Prod.mk.inj (Option.some.inj hrun)
        exact reader_take hkept h pattern
      | rule r => exact ih h hrun
      | bracketed p =>
        rw [run] at hrun
        split at hrun
        · obtain ⟨-, rfl⟩ := Prod.mk.inj (Option.some.inj hrun)
          exact reader_refuse hkept h within .lessNesting
        · split at hrun
          · rename_i outcome' m₁ hbody
            have hdeeper : P m₁.reader := ih (m := { m with depth := m.depth + 1 }) h hbody
            obtain ⟨-, rfl⟩ := Prod.mk.inj (Option.some.inj hrun)
            exact hdeeper
          · cases hrun
      | seq | choice | optional | repeated | required => cases hlead

theorem reader_attempt (hkept : Reader.Kept P) (h : P m.reader) (rule : Rule) :
    P (m.attempt rule).2.reader := by
  cases hrun : run (some nestingLimit) m.fuel rule rule.phrase m with
  | none =>
    rw [attempt, hrun]
    exact h
  | some result =>
    rw [attempt, hrun]
    exact reader_run hkept h hrun

theorem reader_perform (hkept : Reader.Kept P) (h : P m.reader) (call : Call) :
    P (m.perform call).2.reader := by
  cases call with
  | reader call => exact hkept m.reader call h
  | take pattern => exact reader_take hkept h pattern
  | attempt rule => exact reader_attempt hkept h rule

/-- What every call to a reader keeps is kept by all calls to a matcher. -/
theorem reader_after (hkept : Reader.Kept P) (h : P m.reader) (calls : List Call) :
    P (m.after calls).reader := by
  induction calls generalizing m with
  | nil => exact h
  | cons call calls ih => exact ih (reader_perform hkept h call)

end

end BugsLang.Matcher
