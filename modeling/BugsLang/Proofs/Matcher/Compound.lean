import BugsLang.Matcher
import BugsLang.Proofs.Grammar.Lookahead

/-!
# Compound phrases

A sequence, a choice, an option, a repetition and a phrase that is required are matched in one
manner: some part is tried first, and its outcome tells how to go on. There are only three ways to
go on. Another phrase is matched, or the outcome is known, or something else was expected.

## Main definitions

* `Phrase.lead`: the part of a compound phrase that is tried first.
* `Phrase.sequel`: how to go on after it.

## Main statements

* `Matcher.run_of_lead`: matching a compound phrase.
-/

namespace BugsLang

namespace Phrase

/-- How matching a compound phrase goes on when its first part has been tried. -/
inductive Sequel where
  /-- Another phrase is matched. -/
  | phrase (next : Phrase)
  /-- The outcome is known. -/
  | outcome (known : Outcome)
  /-- Something else was expected. -/
  | refusal (expected : Expectation)
deriving DecidableEq, Repr

/-- The part of a compound phrase that is tried first. -/
def lead : Phrase → Option Phrase
  | token _ | rule _ | bracketed _ => none
  | seq p _ | choice p _ | optional p | repeated p | required p _ => some p

/-- How matching a compound phrase goes on when its first part has come out so. -/
def sequel : Phrase → Outcome → Sequel
  | seq _ q, .matched => .phrase q
  | choice _ q, .unmatched => .phrase q
  | optional _, .unmatched => .outcome .matched
  | repeated p, .matched => .phrase (repeated p)
  | repeated _, .unmatched => .outcome .matched
  | required _ e, .unmatched => .refusal e
  | _, o => .outcome o

variable {p q : Phrase} {o : Outcome}

/-- A fault of the first part is a fault of the phrase. -/
theorem sequel_fault (p : Phrase) (d : Diagnostic) :
    p.sequel (.fault d) = .outcome (.fault d) := by
  cases p <;> rfl

theorem predictive_of_lead (hpred : p.predictive = true) (hlead : p.lead = some q) :
    q.predictive = true := by
  cases p with
  | token | rule | bracketed => cases hlead
  | seq p _ =>
    rw [← Option.some.inj hlead]
    exact (predictive_seq.1 hpred).1
  | choice p _ =>
    rw [← Option.some.inj hlead]
    exact (predictive_choice.1 hpred).1
  | optional p =>
    rw [← Option.some.inj hlead]
    exact (predictive_optional.1 hpred).1
  | repeated p =>
    rw [← Option.some.inj hlead]
    exact (predictive_repeated.1 hpred).1
  | required p _ =>
    rw [← Option.some.inj hlead]
    exact (predictive_required.1 hpred).1

/-- The phrase that a compound phrase goes on with is a part of it, or it is the repetition. -/
theorem predictive_of_sequel (hpred : p.predictive = true) (hsequel : p.sequel o = .phrase q) :
    q.predictive = true := by
  unfold sequel at hsequel
  split at hsequel
  · rw [← Sequel.phrase.inj hsequel]
    exact (predictive_seq.1 hpred).2.1
  · rw [← Sequel.phrase.inj hsequel]
    exact (predictive_choice.1 hpred).2.1
  · cases hsequel
  · rwa [← Sequel.phrase.inj hsequel]
  · cases hsequel
  · cases hsequel
  · cases hsequel

end Phrase

namespace Matcher

variable {limit : Option Nat} {fuel : Nat} {within : Rule} {p q : Phrase} {m : Matcher}

/-- Goes on with matching a compound phrase. -/
def resume (limit : Option Nat) (fuel : Nat) (within : Rule) :
    Phrase.Sequel → Matcher → Option (Outcome × Matcher)
  | .phrase q, m => run limit fuel within q m
  | .outcome o, m => some (o, m)
  | .refusal expected, m => some (m.refuse within expected)

/-- A compound phrase is matched by trying its first part and going on. -/
theorem run_of_lead (hlead : p.lead = some q) :
    run limit (fuel + 1) within p m =
      (run limit fuel within q m).bind fun first =>
        resume limit fuel within (p.sequel first.1) first.2 := by
  cases p with
  | token | rule | bracketed => cases hlead
  | seq p _ | choice p _ | optional p | repeated p | required p _ =>
    obtain rfl := Option.some.inj hlead
    rw [run]
    cases run limit fuel within p m with
    | none => rfl
    | some first =>
      obtain ⟨o, m₁⟩ := first
      cases o <;> rfl

end Matcher

end BugsLang
