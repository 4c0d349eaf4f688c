import BugsLang.Proofs.Matcher.Justified

/-!
# The bound on recursion

A run goes down the grammar until it reads a token, and the grammar has no left recursion. So the
number of nested steps before the next token is bounded by the height of the phrase, and a bound
linear in the number of unread tokens is enough for the whole run. More than enough changes nothing.

## Main statements

* `run_isSome`: a run with enough fuel ends.
* `run_mono`: a run that ends has the same result with more fuel.
* `justified_attempt`: matching a rule ends, and its outcome is justified.
-/

namespace BugsLang

namespace Phrase

/-- How many steps may be nested before a token is read, given the same of the rules. -/
def heightGiven (ofRule : Rule → Nat) : Phrase → Nat
  | token _ => 1
  | rule r => ofRule r + 1
  | seq p q => max (p.heightGiven ofRule) (if p.nullable then q.heightGiven ofRule else 0) + 1
  | choice p q => max (p.heightGiven ofRule) (q.heightGiven ofRule) + 1
  | optional p | repeated p | required p _ | bracketed p => p.heightGiven ofRule + 1

end Phrase

/-- The height of the rule, found by going down at most `n` rules. -/
def Rule.heightWithin : Nat → Rule → Nat
  | 0, _ => 0
  | n + 1, r => r.phrase.heightGiven (heightWithin n)

/-- How many steps may be nested within the rule before a token is read. -/
def Rule.height : Rule → Nat :=
  heightWithin 7

namespace Phrase

/-- How many steps may be nested before a token is read. -/
def height (p : Phrase) : Nat :=
  p.heightGiven Rule.height

/-- Whether every phrase that comes after another one within this phrase is at most 100 high. -/
def shallow : Phrase → Bool
  | token _ | rule _ => true
  | seq p q => p.shallow && q.shallow && q.height ≤ 100
  | choice p q => p.shallow && q.shallow
  | optional p | repeated p | required p _ | bracketed p => p.shallow

variable {p q : Phrase}

theorem height_seq :
    (seq p q).height = max p.height (if p.nullable then q.height else 0) + 1 := rfl

theorem height_choice : (choice p q).height = max p.height q.height + 1 := rfl

theorem height_optional : (optional p).height = p.height + 1 := rfl

theorem height_repeated : (repeated p).height = p.height + 1 := rfl

theorem height_required {expected : Expectation} :
    (required p expected).height = p.height + 1 := rfl

theorem height_bracketed : (bracketed p).height = p.height + 1 := rfl

theorem height_pos : 0 < p.height := by
  cases p <;> exact Nat.succ_pos _

end Phrase

theorem Rule.height_phrase (r : Rule) : r.phrase.height = r.height := by
  have hall : ∀ r ∈ Rule.all, r.phrase.height = r.height := by decide +kernel
  exact hall r r.mem_all

theorem Rule.height_le (r : Rule) : r.phrase.height ≤ 100 := by
  cases r <;> decide

theorem Rule.shallow_phrase (r : Rule) : r.phrase.shallow = true := by
  cases r <;> rfl

namespace Matcher

variable {limit : Option Nat} {fuel more : Nat} {within : Rule} {p : Phrase} {m m' : Matcher}
  {outcome : Outcome}

theorem length_unread_pos (m : Matcher) : 0 < m.unread.length := by
  obtain ⟨rest, hunread⟩ := m.unread_eq_cons
  rw [hunread]
  exact Nat.succ_pos _

/-! ## Enough fuel -/

/-- A run leaves no more tokens to be read than there were. -/
theorem Justified.length_unread_le (h : Justified limit p m outcome m') :
    m'.unread.length ≤ m.unread.length := by
  cases h with
  | matched hread | fault hread =>
    rw [hread.unread, List.length_append]
    exact Nat.le_add_left _ _
  | unmatched => exact Nat.le_of_eq (congrArg List.length m.unread_peeked)

/-- A match of a phrase that does not derive the empty list has read a token. -/
theorem Justified.length_unread_lt (h : Justified limit p m .matched m')
    (hnull : p.nullable = false) : m'.unread.length < m.unread.length := by
  cases h with
  | matched hread _ hderives =>
    apply hread.length_lt
    rintro rfl
    rw [hderives.nullable] at hnull
    exact Bool.false_ne_true hnull.symm

/-- A run ends if it has fuel for the height of the phrase and for 100 more steps with each unread
token but the last, which is never read. -/
theorem run_isSome (hpred : p.predictive = true) (hshallow : p.shallow = true)
    (hroom : m.HasRoom limit 0) (hfuel : p.height + 100 * m.unread.length ≤ fuel + 100) :
    (run limit fuel within p m).isSome := by
  induction fuel generalizing within p m with
  | zero =>
    have hheight := p.height_pos
    have hlength := m.length_unread_pos
    omega
  | succ fuel ih =>
    cases p with
    | token pattern => rfl
    | rule r =>
      apply ih r.predictive_phrase r.shallow_phrase hroom
      rw [r.height_phrase]
      have hrule : (Phrase.rule r).height = r.height + 1 := rfl
      omega
    | seq p q =>
      obtain ⟨hp, hq, -⟩ := Phrase.predictive_seq.1 hpred
      simp only [Phrase.shallow, Bool.and_eq_true, decide_eq_true_eq] at hshallow
      obtain ⟨⟨hsp, hsq⟩, hle⟩ := hshallow
      rw [Phrase.height_seq] at hfuel
      have hfirst : (run limit fuel within p m).isSome := ih hp hsp hroom (by omega)
      obtain ⟨⟨outcome, m₁⟩, hrun⟩ := Option.isSome_iff_exists.1 hfirst
      have hjust := justified_of_run hp hroom hrun
      rw [run, hrun]
      cases outcome with
      | unmatched | fault => rfl
      | matched =>
        apply ih hq hsq (hjust.hasRoom_iff.2 hroom)
        cases hnull : p.nullable with
        | true =>
          have hlength := hjust.length_unread_le
          rw [hnull, if_pos rfl] at hfuel
          omega
        | false =>
          have hlength := hjust.length_unread_lt hnull
          omega
    | choice p q =>
      obtain ⟨hp, hq, -⟩ := Phrase.predictive_choice.1 hpred
      rw [Phrase.shallow, Bool.and_eq_true] at hshallow
      rw [Phrase.height_choice] at hfuel
      have hfirst : (run limit fuel within p m).isSome := ih hp hshallow.1 hroom (by omega)
      obtain ⟨⟨outcome, m₁⟩, hrun⟩ := Option.isSome_iff_exists.1 hfirst
      have hjust := justified_of_run hp hroom hrun
      rw [run, hrun]
      cases outcome with
      | matched | fault => rfl
      | unmatched =>
        apply ih hq hshallow.2 (hjust.hasRoom_iff.2 hroom)
        have hlength := hjust.length_unread_le
        omega
    | optional p =>
      rw [Phrase.height_optional] at hfuel
      have hp := (Phrase.predictive_optional.1 hpred).1
      have hbody : (run limit fuel within p m).isSome := ih hp hshallow hroom (by omega)
      obtain ⟨⟨outcome, m₁⟩, hrun⟩ := Option.isSome_iff_exists.1 hbody
      rw [run, hrun]
      cases outcome <;> rfl
    | repeated p =>
      rw [Phrase.height_repeated] at hfuel
      obtain ⟨hp, hsoft, -⟩ := Phrase.predictive_repeated.1 hpred
      have hbody : (run limit fuel within p m).isSome := ih hp hshallow hroom (by omega)
      obtain ⟨⟨outcome, m₁⟩, hrun⟩ := Option.isSome_iff_exists.1 hbody
      have hjust := justified_of_run hp hroom hrun
      rw [run, hrun]
      cases outcome with
      | unmatched | fault => rfl
      | matched =>
        apply ih hpred hshallow (hjust.hasRoom_iff.2 hroom)
        have hlength := hjust.length_unread_lt (Phrase.nullable_eq_false_of_soft hp hsoft)
        rw [Phrase.height_repeated]
        omega
    | required p expected =>
      rw [Phrase.height_required] at hfuel
      have hp := (Phrase.predictive_required.1 hpred).1
      have hbody : (run limit fuel within p m).isSome := ih hp hshallow hroom (by omega)
      obtain ⟨⟨outcome, m₁⟩, hrun⟩ := Option.isSome_iff_exists.1 hbody
      rw [run, hrun]
      cases outcome <;> rfl
    | bracketed p =>
      rw [Phrase.height_bracketed] at hfuel
      have hp := (Phrase.predictive_bracketed.1 hpred).1
      rw [run]
      split
      · rfl
      · rename_i hfull
        have hdeeper : ({ m with depth := m.depth + 1 } : Matcher).HasRoom limit 0 :=
          hasRoom_deeper_iff.2 (hasRoom_one_of_not_isFull hfull)
        have hbody : (run limit fuel within p { m with depth := m.depth + 1 }).isSome :=
          ih hp hshallow hdeeper (by
            show p.height + 100 * m.unread.length ≤ fuel + 100
            omega)
        obtain ⟨⟨outcome, m₁⟩, hrun⟩ := Option.isSome_iff_exists.1 hbody
        rw [hrun]
        rfl

/-! ## More fuel -/

/-- A run that ends has the same result with more fuel. -/
theorem run_mono {result : Outcome × Matcher} (h : run limit fuel within p m = some result)
    (hle : fuel ≤ more) : run limit more within p m = some result := by
  induction fuel generalizing more within p m result with
  | zero => cases h
  | succ fuel ih =>
    obtain ⟨more, rfl⟩ := Nat.exists_eq_add_of_le' (Nat.le_of_add_left_le hle)
    have hle' : fuel ≤ more := by omega
    cases p with
    | token pattern => exact h
    | rule r =>
      rw [run] at h ⊢
      exact ih h hle'
    | seq p q | choice p q | optional p | repeated p | required p expected =>
      rw [run] at h ⊢
      cases hfirst : run limit fuel within p m with
      | none =>
        rw [hfirst] at h
        cases h
      | some first =>
        rw [ih hfirst hle']
        rw [hfirst] at h
        obtain ⟨outcome, m₁⟩ := first
        cases outcome <;> first | exact h | exact ih h hle'
    | bracketed p =>
      rw [run] at h ⊢
      split at h
      · rename_i hfull
        rw [if_pos hfull]
        exact h
      · rename_i hfull
        rw [if_neg hfull]
        cases hbody : run limit fuel within p { m with depth := m.depth + 1 } with
        | none =>
          rw [hbody] at h
          cases h
        | some body =>
          rw [ih hbody hle']
          rw [hbody] at h
          exact h

/-! ## Matching a rule -/

/-- The fuel of a matcher is enough for every rule. -/
theorem run_fuel_isSome (rule : Rule) (hroom : m.HasRoom limit 0) :
    (run limit m.fuel rule rule.phrase m).isSome := by
  have hlength : m.unread.length ≤ m.reader.here.text.length + 1 :=
    m.reader.here.length_tokens_le
  apply run_isSome rule.predictive_phrase rule.shallow_phrase hroom
  have hheight := rule.height_le
  rw [fuel]
  omega

/-- Matching a rule ends, with the result of any run that ends. -/
theorem run_eq_attempt (rule : Rule) (hroom : m.HasRoom (some nestingLimit) 0)
    (hle : m.fuel ≤ more) :
    run (some nestingLimit) more rule rule.phrase m = some (m.attempt rule) := by
  obtain ⟨result, hrun⟩ := Option.isSome_iff_exists.1 (run_fuel_isSome rule hroom)
  rw [attempt, hrun]
  exact run_mono hrun hle

/-- The outcome of matching a rule is justified. -/
theorem justified_attempt (rule : Rule) (hroom : m.HasRoom (some nestingLimit) 0) :
    Justified (some nestingLimit) (.rule rule) m (m.attempt rule).1 (m.attempt rule).2 :=
  (justified_of_run rule.predictive_phrase hroom
    (run_eq_attempt rule hroom (Nat.le_refl _))).rule

end Matcher

end BugsLang
