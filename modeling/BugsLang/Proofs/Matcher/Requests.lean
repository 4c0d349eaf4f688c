import BugsLang.Proofs.Matcher.History

/-!
# What a matcher asks of its reader

A matcher goes over the source with the calls to a reader and in no other way. Here the calls are
listed that it makes while it tries rules, in their order. They lead its reader to where the matcher
has it afterwards, so any reader that answers them alike will do.

## Main definitions

* `Matcher.runRequests`, `Matcher.requests`: the calls to the reader in the course of a run, and in
  the course of some calls to a matcher.

## Main statements

* `Matcher.reader_run_eq`, `Matcher.reader_after_eq`: the reader afterwards.
-/

namespace BugsLang.Matcher

/-- The calls of `take`. A token that is not in the set is put back. -/
def takeRequests (m : Matcher) (pattern : Pattern) : List Reader.Call :=
  if pattern.accepts m.reader.read.1.token then [.read] else [.read, .putBack]

/-- The calls of `refuse`. The token is read only to be reported, with its line. -/
def refuseRequests : List Reader.Call :=
  [.read, .putBack, .lineOfNext]

/-- The calls of `run`. -/
def runRequests (limit : Option Nat) :
    (fuel : Nat) → (within : Rule) → Phrase → Matcher → List Reader.Call
  | 0, _, _, _ => []
  | fuel + 1, within, p, m =>
    match p with
    | .token pattern => m.takeRequests pattern
    | .rule rule => runRequests limit fuel rule rule.phrase m
    | .bracketed q =>
      if m.isFull limit then refuseRequests
      else runRequests limit fuel within q { m with depth := m.depth + 1 }
    | .seq q _ | .choice q _ | .optional q | .repeated q | .required q _ =>
      runRequests limit fuel within q m ++
        match run limit fuel within q m with
        | none => []
        | some (o, m) =>
          match p.sequel o with
          | .phrase q => runRequests limit fuel within q m
          | .outcome _ => []
          | .refusal _ => refuseRequests

/-- The calls to the reader that one call to a matcher makes. -/
def callRequests (m : Matcher) : Call → List Reader.Call
  | .reader call => [call]
  | .take pattern => m.takeRequests pattern
  | .attempt rule => runRequests (some nestingLimit) m.fuel rule rule.phrase m

/-- The calls to the reader that some calls to a matcher make. -/
def requests (m : Matcher) : List Call → List Reader.Call
  | [] => []
  | call :: calls => m.callRequests call ++ (m.perform call).2.requests calls

variable {m m' : Matcher} {limit : Option Nat} {fuel : Nat} {within : Rule} {p q : Phrase}
  {outcome : Outcome}

theorem reader_take_eq (m : Matcher) (pattern : Pattern) :
    (m.take pattern).2.reader = m.reader.after (m.takeRequests pattern) := by
  by_cases haccepts : pattern.accepts m.reader.read.1.token = true
  · rw [take_of_accepts haccepts, takeRequests, if_pos haccepts]
    rfl
  · rw [take_of_not_accepts haccepts, takeRequests, if_neg haccepts]
    rfl

/-- Behind the token that was put back the line is that of the token. -/
theorem reader_refuse_eq (m : Matcher) (rule : Rule) (expected : Expectation) :
    (m.refuse rule expected).2.reader = m.reader.after refuseRequests := by
  have hstart : m.reader.here.passTrivia.passTrivia = m.reader.here.passTrivia :=
    Position.passTrivia_passTrivia _
  show (⟨m.reader.here.passTrivia, none⟩ : Reader) = ⟨m.reader.here.passTrivia.passTrivia, none⟩
  rw [hstart]

theorem runRequests_bracketed :
    runRequests limit (fuel + 1) within (.bracketed p) m =
      if m.isFull limit then refuseRequests
      else runRequests limit fuel within p { m with depth := m.depth + 1 } := rfl

/-- The first part of a compound phrase makes the first calls. -/
theorem runRequests_of_lead (hlead : p.lead = some q) {o : Outcome} {m₁ : Matcher}
    (hrun : run limit fuel within q m = some (o, m₁)) :
    runRequests limit (fuel + 1) within p m =
      runRequests limit fuel within q m ++
        match p.sequel o with
        | .phrase q => runRequests limit fuel within q m₁
        | .outcome _ => []
        | .refusal _ => refuseRequests := by
  cases p with
  | token | rule | bracketed => cases hlead
  | seq p _ | choice p _ | optional p | repeated p | required p _ =>
    obtain rfl := Option.some.inj hlead
    rw [runRequests, hrun]

/-- The calls of a run lead the reader to where it is after the run. -/
theorem reader_run_eq (hrun : run limit fuel within p m = some (outcome, m')) :
    m'.reader = m.reader.after (runRequests limit fuel within p m) := by
  induction fuel generalizing within p m outcome m' with
  | zero => cases hrun
  | succ fuel ih =>
    cases hlead : p.lead with
    | some q =>
      rw [run_of_lead hlead] at hrun
      obtain ⟨⟨o, m₁⟩, hfirst, hrun⟩ := Option.bind_eq_some_iff.1 hrun
      rw [runRequests_of_lead hlead hfirst, Reader.after_append, ← ih hfirst]
      cases hsequel : p.sequel o with
      | phrase q' =>
        rw [hsequel] at hrun
        exact ih hrun
      | outcome known =>
        rw [hsequel] at hrun
        obtain ⟨-, rfl⟩ := Prod.mk.inj (Option.some.inj hrun)
        rfl
      | refusal expected =>
        rw [hsequel] at hrun
        obtain ⟨-, rfl⟩ := Prod.mk.inj (Option.some.inj hrun)
        exact reader_refuse_eq m₁ within expected
    | none =>
      cases p with
      | token pattern =>
        obtain ⟨-, rfl⟩ := Prod.mk.inj (Option.some.inj hrun)
        exact reader_take_eq m pattern
      | rule r => exact ih hrun
      | bracketed p =>
        rw [run] at hrun
        rw [runRequests_bracketed]
        split at hrun
        · rename_i hfull
          obtain ⟨-, rfl⟩ := Prod.mk.inj (Option.some.inj hrun)
          rw [if_pos hfull]
          exact reader_refuse_eq m within .lessNesting
        · rename_i hfull
          rw [if_neg hfull]
          split at hrun
          · rename_i outcome' m₁ hbody
            obtain ⟨-, rfl⟩ := Prod.mk.inj (Option.some.inj hrun)
            have hdeeper := ih hbody
            exact hdeeper
          · cases hrun
      | seq | choice | optional | repeated | required => cases hlead

/-- Between calls no bracket is open, and then matching a rule ends. -/
theorem reader_perform_eq (hdepth : m.depth = 0) (call : Call) :
    (m.perform call).2.reader = m.reader.after (m.callRequests call) := by
  cases call with
  | reader call => rfl
  | take pattern => exact reader_take_eq m pattern
  | attempt rule =>
    have hroom := hasRoom_of_depth_eq_zero hdepth
    exact reader_run_eq (run_eq_attempt rule hroom (Nat.le_refl _))

/-- The calls that a matcher makes lead the reader to where it is afterwards. -/
theorem reader_after_eq (hdepth : m.depth = 0) (calls : List Call) :
    (m.after calls).reader = m.reader.after (m.requests calls) := by
  induction calls generalizing m with
  | nil => rfl
  | cons call calls ih =>
    rw [requests, Reader.after_append, ← reader_perform_eq hdepth]
    exact ih (depth_perform hdepth)

end BugsLang.Matcher
