import BugsLang.Proofs.Matcher.Compound
import BugsLang.Proofs.Matcher.Fuel

/-!
# Runs without fuel

With enough fuel every run ends, and then more fuel changes nothing. So one can say how matching a
phrase ends, and leave the fuel out of it.

## Main definitions

* `Matcher.Ends limit within p m outcome m'`: matching `p` ends with that outcome, at `m'`.
* `Matcher.Resumes limit within s m outcome m'`: the same for the rest of a compound phrase.

## Main statements

* `Ends.unique`: matching a phrase ends in one way only.
* `ends_attempt`: how matching a rule ends.
* `ends_iff_of_lead`: how matching a compound phrase ends.
* `exists_ends_lineEnd`: the ends of lines are read all at once.
-/

namespace BugsLang

/-- The tokens from the first one on that is not the end of a line. -/
def dropLineEnds (ts : List Token.Located) : List Token.Located :=
  ts.dropWhile fun t => t.token.kind = .lineEnd

namespace Matcher

/-- Matching the phrase ends with this outcome, and then the matcher is `m'`. -/
def Ends (limit : Option Nat) (within : Rule) (p : Phrase) (m : Matcher) (outcome : Outcome)
    (m' : Matcher) : Prop :=
  ∃ fuel, run limit fuel within p m = some (outcome, m')

/-- Going on with a compound phrase ends with this outcome, and then the matcher is `m'`. -/
def Resumes (limit : Option Nat) (within : Rule) (s : Phrase.Sequel) (m : Matcher)
    (outcome : Outcome) (m' : Matcher) : Prop :=
  ∃ fuel, resume limit fuel within s m = some (outcome, m')

variable {limit : Option Nat} {fuel more : Nat} {within : Rule} {p q : Phrase}
  {m m₁ m₁' : Matcher} {outcome outcome' : Outcome} {s : Phrase.Sequel}

/-- Matching a phrase ends in one way only. -/
theorem Ends.unique (h : Ends limit within p m outcome m₁)
    (h' : Ends limit within p m outcome' m₁') : outcome = outcome' ∧ m₁ = m₁' := by
  obtain ⟨fuel, hrun⟩ := h
  obtain ⟨more, hrun'⟩ := h'
  have hfuel := run_mono hrun (Nat.le_max_left fuel more)
  have hmore := run_mono hrun' (Nat.le_max_right fuel more)
  exact Prod.mk.inj (Option.some.inj (hfuel.symm.trans hmore))

/-- Matching a rule ends as `attempt` says. -/
theorem ends_attempt (rule : Rule) (hroom : m.HasRoom (some nestingLimit) 0) :
    Ends (some nestingLimit) rule rule.phrase m (m.attempt rule).1 (m.attempt rule).2 :=
  ⟨m.fuel, run_eq_attempt rule hroom (Nat.le_refl _)⟩

theorem Ends.justified (h : Ends limit within p m outcome m₁) (hpred : p.predictive = true)
    (hroom : m.HasRoom limit 0) : Justified limit p m outcome m₁ := by
  obtain ⟨fuel, hrun⟩ := h
  exact justified_of_run hpred hroom hrun

theorem unread_read_of_cons {t : Token.Located} {ts : List Token.Located}
    (hunread : m.unread = t :: ts) (hend : t.token.kind ≠ .inputEnd) :
    ({ m with reader := m.reader.read.2 } : Matcher).unread = ts := by
  obtain rfl : m.next = t := next_of_unread hunread
  have hread := (reads_next fun heq => hend (congrArg Token.kind heq)).unread
  rw [hunread] at hread
  exact (List.cons.inj hread).2.symm

/-! ## Phrase by phrase -/

theorem ends_token_of_accepts {pattern : Pattern} (h : pattern.accepts m.next.token = true) :
    Ends limit within (.token pattern) m .matched { m with reader := m.reader.read.2 } := by
  refine ⟨1, ?_⟩
  rw [run, take_of_accepts h]
  rfl

theorem ends_token_of_not_accepts {pattern : Pattern}
    (h : ¬ pattern.accepts m.next.token = true) :
    Ends limit within (.token pattern) m .unmatched m.peeked := by
  refine ⟨1, ?_⟩
  rw [run, take_of_not_accepts h]
  rfl

theorem ends_rule_iff {rule : Rule} :
    Ends limit within (.rule rule) m outcome m₁ ↔ Ends limit rule rule.phrase m outcome m₁ := by
  constructor
  · intro h
    obtain ⟨fuel, hrun⟩ := h
    cases fuel with
    | zero => cases hrun
    | succ fuel => exact ⟨fuel, hrun⟩
  · intro h
    obtain ⟨fuel, hrun⟩ := h
    exact ⟨fuel + 1, hrun⟩

theorem ends_bracketed_of_isFull (hfull : m.isFull limit = true) :
    Ends limit within (.bracketed p) m (m.refuse within .lessNesting).1
      (m.refuse within .lessNesting).2 :=
  ⟨1, if_pos hfull⟩

theorem Ends.bracketed (h : Ends limit within p { m with depth := m.depth + 1 } outcome m₁)
    (hfull : ¬ m.isFull limit = true) :
    Ends limit within (.bracketed p) m outcome { m₁ with depth := m₁.depth - 1 } := by
  obtain ⟨fuel, hrun⟩ := h
  refine ⟨fuel + 1, ?_⟩
  rw [run, if_neg hfull, hrun]

/-! ## Compound phrases -/

/-- With more fuel the rest of a compound phrase ends in the same way. -/
theorem resume_mono {result : Outcome × Matcher}
    (h : resume limit fuel within s m = some result) (hle : fuel ≤ more) :
    resume limit more within s m = some result := by
  cases s with
  | phrase q => exact run_mono h hle
  | outcome known => exact h
  | refusal expected => exact h

theorem resumes_outcome_iff :
    Resumes limit within (.outcome outcome') m outcome m₁ ↔ outcome = outcome' ∧ m₁ = m := by
  constructor
  · intro h
    obtain ⟨fuel, hresume⟩ := h
    obtain ⟨rfl, rfl⟩ := Prod.mk.inj (Option.some.inj hresume)
    exact ⟨rfl, rfl⟩
  · intro h
    obtain ⟨rfl, rfl⟩ := h
    exact ⟨0, rfl⟩

/-- A compound phrase ends as its first part does and what comes after that. -/
theorem ends_iff_of_lead (hlead : p.lead = some q) :
    Ends limit within p m outcome m₁ ↔
      ∃ o m', Ends limit within q m o m' ∧ Resumes limit within (p.sequel o) m' outcome m₁ := by
  constructor
  · intro h
    obtain ⟨fuel, hrun⟩ := h
    cases fuel with
    | zero => cases hrun
    | succ fuel =>
      rw [run_of_lead hlead] at hrun
      obtain ⟨⟨o, m'⟩, hfirst, hresume⟩ := Option.bind_eq_some_iff.1 hrun
      exact ⟨o, m', ⟨fuel, hfirst⟩, fuel, hresume⟩
  · intro h
    obtain ⟨o, m', ⟨fuel, hfirst⟩, more, hresume⟩ := h
    refine ⟨max fuel more + 1, ?_⟩
    rw [run_of_lead hlead, run_mono hfirst (Nat.le_max_left fuel more), Option.bind_some]
    exact resume_mono hresume (Nat.le_max_right fuel more)

/-! ## The ends of lines -/

/-- Whether the token is the end of a line is told by its kind. -/
theorem accepts_lineEnd_iff {t : Token} :
    (Pattern.kind .lineEnd).accepts t = true ↔ t.kind = .lineEnd :=
  decide_eq_true_iff

theorem dropLineEnds_cons_of_eq {t : Token.Located} {ts : List Token.Located}
    (h : t.token.kind = .lineEnd) : dropLineEnds (t :: ts) = dropLineEnds ts :=
  List.dropWhile_cons_of_pos (decide_eq_true h)

theorem dropLineEnds_cons_of_ne {t : Token.Located} {ts : List Token.Located}
    (h : t.token.kind ≠ .lineEnd) : dropLineEnds (t :: ts) = t :: ts :=
  List.dropWhile_cons_of_neg fun heq => h (of_decide_eq_true heq)

/-- All ends of lines are read that come next. -/
theorem exists_ends_lineEnds (limit : Option Nat) (within : Rule) (m : Matcher) :
    ∃ m₁, Ends limit within (.repeated Phrase.oneLineEnd) m .matched m₁ ∧
      m₁.unread = dropLineEnds m.unread ∧ m₁.depth = m.depth := by
  generalize hunread : m.unread = ts
  induction ts generalizing m with
  | nil =>
    obtain ⟨rest, hcons⟩ := m.unread_eq_cons
    rw [hunread] at hcons
    cases hcons
  | cons t ts ih =>
    obtain rfl : m.next = t := next_of_unread hunread
    by_cases hkind : m.next.token.kind = .lineEnd
    · have hbehind := unread_read_of_cons hunread (by rw [hkind]; decide)
      obtain ⟨m₁, hends, hleft, hdepth⟩ := ih _ hbehind
      refine ⟨m₁, ?_, by rw [hleft, dropLineEnds_cons_of_eq hkind], hdepth⟩
      refine (ends_iff_of_lead rfl).2 ⟨_, _, ends_token_of_accepts ?_, hends⟩
      exact accepts_lineEnd_iff.2 hkind
    · refine ⟨m.peeked, ?_, by rw [unread_peeked, hunread, dropLineEnds_cons_of_ne hkind], rfl⟩
      refine (ends_iff_of_lead rfl).2
        ⟨_, _, ends_token_of_not_accepts ?_, resumes_outcome_iff.2 ⟨rfl, rfl⟩⟩
      exact mt accepts_lineEnd_iff.1 hkind

/-- The rule for the end of a line reads all ends of lines that come next, and it does not match
where there is none. -/
theorem exists_ends_lineEnd (limit : Option Nat) (within : Rule) (m : Matcher) :
    ∃ m₁, Ends limit within (.rule .lineEnd) m
        (if m.next.token.kind = .lineEnd then .matched else .unmatched) m₁ ∧
      m₁.unread = dropLineEnds m.unread ∧ m₁.depth = m.depth := by
  obtain ⟨rest, hunread⟩ := m.unread_eq_cons
  by_cases hkind : m.next.token.kind = .lineEnd
  · have hbehind := unread_read_of_cons hunread (by rw [hkind]; decide)
    obtain ⟨m₁, hends, hleft, hdepth⟩ :=
      exists_ends_lineEnds limit .lineEnd { m with reader := m.reader.read.2 }
    refine ⟨m₁, ?_, by rw [hleft, hbehind, hunread, dropLineEnds_cons_of_eq hkind], hdepth⟩
    rw [if_pos hkind, ends_rule_iff]
    refine (ends_iff_of_lead rfl).2 ⟨_, _, ends_token_of_accepts ?_, hends⟩
    exact accepts_lineEnd_iff.2 hkind
  · refine ⟨m.peeked, ?_, by rw [unread_peeked, hunread, dropLineEnds_cons_of_ne hkind], rfl⟩
    rw [if_neg hkind, ends_rule_iff]
    refine (ends_iff_of_lead rfl).2
      ⟨_, _, ends_token_of_not_accepts ?_, resumes_outcome_iff.2 ⟨rfl, rfl⟩⟩
    exact mt accepts_lineEnd_iff.1 hkind

end Matcher

end BugsLang
