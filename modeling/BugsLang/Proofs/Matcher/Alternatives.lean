import BugsLang.Proofs.Matcher.Ending
import BugsLang.Proofs.Matcher.Outcome
import BugsLang.Proofs.Matcher.Rollback
import BugsLang.Proofs.Matcher.Trace

/-!
# The alternatives of a command

A command is one of twelve things, and they are tried one after the other. No token begins two of
them. So at most one has an outcome, and since those that have none leave no trace, they can be
tried in any order. This holds between calls, and it holds wherever a command is tried while a rule
is being matched, however deep in blocks.

## Main definitions

* `Rule.alternatives`: the twelve rules.
* `Matcher.attemptFirst`: tries rules one after the other.
* `Matcher.Met`: the matcher is met in use.

## Main statements

* `Rule.eq_of_viable_alternatives`: no token begins two alternatives.
* `attemptFirst_perm`: where at most one rule has an outcome, the order makes no difference.
* `alternatives_in_any_order`: the alternatives of a command at every matcher met in use.
-/

namespace BugsLang

/-- The actions in the order in which they are tried. -/
def Rule.actions : List Rule :=
  [move, moveTo, turn, turnTo, line]

/-- The statements in the order in which they are tried. -/
def Rule.statements : List Rule :=
  [assignment, loop, exitIf, switch, returnValue, invocation, color]

/-- What a command can be, in the order in which it is tried. -/
def Rule.alternatives : List Rule :=
  actions ++ statements

/-- No token begins two alternatives. -/
theorem Rule.eq_of_viable_alternatives {r r' : Rule} {t : Token} (hr : r ∈ alternatives)
    (hr' : r' ∈ alternatives) (h : Viable Rule.phrase (.rule r) [t])
    (h' : Viable Rule.phrase (.rule r') [t]) : r = r' := by
  have hall : ∀ r ∈ alternatives, ∀ r' ∈ alternatives, r ≠ r' → apart r.starts r'.starts = true := by
    decide
  refine not_not.1 fun hne => ?_
  exact false_of_apart (hall r hr r' hr' hne) h.admits_starts h'.admits_starts

namespace Phrase

/-- One of the rules, which are tried in this order. -/
def oneOf (r : Rule) : List Rule → Phrase
  | [] => rule r
  | r' :: rules => choice (rule r) (oneOf r' rules)

end Phrase

namespace Matcher

variable {m m' : Matcher} {rule : Rule} {rules order : List Rule} {within : Rule}

/-- Tries the rules one after the other, up to the first that is matched or fails for good. -/
def attemptFirst (m : Matcher) : List Rule → Outcome × Matcher
  | [] => (.unmatched, m)
  | rule :: rules =>
    match m.attempt rule with
    | (.unmatched, m) => m.attemptFirst rules
    | other => other

/-- The matcher is met in use: between two calls, or where a phrase starts while a rule is being
matched. -/
inductive Met : Matcher → Prop where
  | between {m : Matcher} (h : m.Reachable) : m.Met
  | during {m : Matcher} {rule : Rule} {f : Frame} (h : m.Reachable)
      (hf : f ∈ traceOf (some nestingLimit) m rule) : f.matcher.Met

/-- A matcher that is met in use has not gone over the limit. -/
theorem Met.hasRoom (h : m.Met) : m.HasRoom (some nestingLimit) 0 := by
  cases h with
  | between h => exact h.hasRoom_iff.2 (Nat.zero_le _)
  | during h hf =>
    have hroom := h.hasRoom_iff.2 (Nat.zero_le nestingLimit)
    exact ((Frame.Sound.start h.depth_eq_zero hroom _).of_mem_trace hf).hasRoom

/-! ## One after the other -/

theorem attempt_eq_of_unmatched (hroom : m.HasRoom (some nestingLimit) 0)
    (h : (m.attempt rule).1 = .unmatched) : m.attempt rule = (.unmatched, m.peeked) := by
  have hjust := justified_attempt rule hroom
  rw [h] at hjust
  exact Prod.ext h hjust.eq_peeked

theorem attemptFirst_nil : m.attemptFirst [] = (.unmatched, m) := rfl

theorem attemptFirst_cons :
    m.attemptFirst (rule :: rules) =
      match m.attempt rule with
      | (.unmatched, m) => m.attemptFirst rules
      | other => other := rfl

/-- After a rule that is not matched the others are tried. -/
theorem attemptFirst_cons_of_eq (h : (m.attempt rule).1 = .unmatched) :
    m.attemptFirst (rule :: rules) = (m.attempt rule).2.attemptFirst rules := by
  have hattempt : m.attempt rule = (.unmatched, (m.attempt rule).2) := Prod.ext h rfl
  rw [attemptFirst_cons, hattempt]

theorem attemptFirst_cons_of_unmatched (hroom : m.HasRoom (some nestingLimit) 0)
    (h : (m.attempt rule).1 = .unmatched) :
    m.attemptFirst (rule :: rules) = m.peeked.attemptFirst rules := by
  rw [attemptFirst_cons_of_eq h, attempt_eq_of_unmatched hroom h]

/-- A rule that has an outcome is the last that is tried. -/
theorem attemptFirst_cons_of_ne (h : (m.attempt rule).1 ≠ .unmatched) :
    m.attemptFirst (rule :: rules) = m.attempt rule := by
  rw [attemptFirst_cons]
  split
  · rename_i hattempt
    rw [hattempt] at h
    exact absurd rfl h
  · rfl

theorem attemptFirst_singleton (hroom : m.HasRoom (some nestingLimit) 0) (rule : Rule) :
    m.attemptFirst [rule] = m.attempt rule := by
  by_cases h : (m.attempt rule).1 = .unmatched
  · rw [attemptFirst_cons_of_unmatched hroom h, attempt_eq_of_unmatched hroom h, attemptFirst_nil]
  · exact attemptFirst_cons_of_ne h

/-- A rule that is not matched need not be tried, if others follow. -/
theorem attemptFirst_cons_of_ne_nil (hroom : m.HasRoom (some nestingLimit) 0)
    (h : (m.attempt rule).1 = .unmatched) (hne : rules ≠ []) :
    m.attemptFirst (rule :: rules) = m.attemptFirst rules := by
  rw [attemptFirst_cons_of_unmatched hroom h]
  cases rules with
  | nil => exact absurd rfl hne
  | cons r rules => rw [attemptFirst_cons, attemptFirst_cons, attempt_peeked r hroom]

/-- If no rule is matched, the next token has been looked at, and nothing else has happened. -/
theorem attemptFirst_of_forall_unmatched (hroom : m.HasRoom (some nestingLimit) 0)
    (hne : rules ≠ []) (h : ∀ r ∈ rules, (m.attempt r).1 = .unmatched) :
    m.attemptFirst rules = (.unmatched, m.peeked) := by
  induction rules with
  | nil => exact absurd rfl hne
  | cons r rules ih =>
    have hr := h r List.mem_cons_self
    cases rules with
    | nil => rw [attemptFirst_singleton hroom, attempt_eq_of_unmatched hroom hr]
    | cons r' rules =>
      rw [attemptFirst_cons_of_ne_nil hroom hr (List.cons_ne_nil _ _)]
      exact ih (List.cons_ne_nil _ _) fun s hs => h s (List.mem_cons_of_mem _ hs)

/-- If just one rule has an outcome, that is the outcome. -/
theorem attemptFirst_of_only (hroom : m.HasRoom (some nestingLimit) 0) (hr : rule ∈ rules)
    (h : (m.attempt rule).1 ≠ .unmatched)
    (honly : ∀ r ∈ rules, (m.attempt r).1 ≠ .unmatched → r = rule) :
    m.attemptFirst rules = m.attempt rule := by
  induction rules with
  | nil => cases hr
  | cons r rules ih =>
    by_cases hfirst : (m.attempt r).1 = .unmatched
    · have hmem : rule ∈ rules := by
        rcases List.mem_cons.1 hr with rfl | hmem
        · exact absurd hfirst h
        · exact hmem
      rw [attemptFirst_cons_of_ne_nil hroom hfirst (List.ne_nil_of_mem hmem)]
      exact ih hmem fun s hs => honly s (List.mem_cons_of_mem _ hs)
    · rw [attemptFirst_cons_of_ne hfirst, honly r List.mem_cons_self hfirst]

/-- At most one of the rules has an outcome. -/
def Exclusive (m : Matcher) (rules : List Rule) : Prop :=
  ∀ r ∈ rules, ∀ r' ∈ rules,
    (m.attempt r).1 ≠ .unmatched → (m.attempt r').1 ≠ .unmatched → r = r'

/-- Where at most one of the rules has an outcome, the order in which they are tried makes no
difference. -/
theorem attemptFirst_perm (hroom : m.HasRoom (some nestingLimit) 0)
    (hexclusive : m.Exclusive rules) (hperm : order.Perm rules) :
    m.attemptFirst order = m.attemptFirst rules := by
  by_cases hsome : ∃ r ∈ rules, (m.attempt r).1 ≠ .unmatched
  · obtain ⟨r, hr, hne⟩ := hsome
    have honly : ∀ s ∈ rules, (m.attempt s).1 ≠ .unmatched → s = r :=
      fun s hs hs' => hexclusive s hs r hr hs' hne
    rw [attemptFirst_of_only hroom hr hne honly]
    exact attemptFirst_of_only hroom (hperm.mem_iff.2 hr) hne fun s hs =>
      honly s (hperm.mem_iff.1 hs)
  · have hnone : ∀ r ∈ rules, (m.attempt r).1 = .unmatched :=
      fun r hr => not_not.1 fun hne => hsome ⟨r, hr, hne⟩
    cases rules with
    | nil => rw [hperm.eq_nil]
    | cons r rules =>
      have hne : order ≠ [] := List.ne_nil_of_mem (hperm.mem_iff.2 List.mem_cons_self)
      rw [attemptFirst_of_forall_unmatched hroom (List.cons_ne_nil _ _) hnone]
      exact attemptFirst_of_forall_unmatched hroom hne fun s hs => hnone s (hperm.mem_iff.1 hs)

/-! ## Choices among rules -/

/-- A choice among rules is matched by trying them one after the other. -/
theorem ends_oneOf (hroom : m.HasRoom (some nestingLimit) 0) :
    Ends (some nestingLimit) within (Phrase.oneOf rule rules) m (m.attemptFirst (rule :: rules)).1
      (m.attemptFirst (rule :: rules)).2 := by
  have hfirst : Ends (some nestingLimit) within (.rule rule) m (m.attempt rule).1
      (m.attempt rule).2 := ends_rule_iff.2 (ends_attempt rule hroom)
  induction rules generalizing rule m with
  | nil =>
    rw [attemptFirst_singleton hroom]
    exact hfirst
  | cons r rules ih =>
    refine (ends_iff_of_lead rfl).2 ⟨_, _, hfirst, ?_⟩
    by_cases h : (m.attempt rule).1 = .unmatched
    · have hroom' : m.peeked.HasRoom (some nestingLimit) 0 := m.reads_peeked.hasRoom_iff.2 hroom
      rw [attemptFirst_cons_of_unmatched hroom h, attempt_eq_of_unmatched hroom h]
      exact ih hroom' (ends_rule_iff.2 (ends_attempt r hroom'))
    · have hsequel : (Phrase.oneOf rule (r :: rules)).sequel (m.attempt rule).1 =
          .outcome (m.attempt rule).1 := by
        cases houtcome : (m.attempt rule).1 with
        | unmatched => exact absurd houtcome h
        | matched | fault => rfl
      rw [attemptFirst_cons_of_ne h, hsequel]
      exact resumes_outcome_iff.2 ⟨rfl, rfl⟩

/-- A rule that is a choice among others is attempted by trying them one after the other. -/
theorem attempt_eq_attemptFirst {r : Rule} (hphrase : rule.phrase = Phrase.oneOf r rules)
    (hroom : m.HasRoom (some nestingLimit) 0) :
    m.attempt rule = m.attemptFirst (r :: rules) := by
  have hends := ends_attempt rule hroom
  rw [hphrase] at hends
  obtain ⟨houtcome, hmatcher⟩ := hends.unique (ends_oneOf hroom)
  exact Prod.ext houtcome hmatcher

/-- Rules that follow others are tried if none of those is matched. -/
theorem attemptFirst_append_of_unmatched (h : m.attemptFirst rules = (.unmatched, m')) :
    m.attemptFirst (rules ++ order) = m'.attemptFirst order := by
  induction rules generalizing m with
  | nil =>
    obtain ⟨-, rfl⟩ := Prod.mk.inj h
    rfl
  | cons r rules ih =>
    rw [List.cons_append]
    by_cases hr : (m.attempt r).1 = .unmatched
    · rw [attemptFirst_cons_of_eq hr] at h ⊢
      exact ih h
    · rw [attemptFirst_cons_of_ne hr] at h
      exact absurd (congrArg Prod.fst h) hr

theorem attemptFirst_append_of_ne (h : (m.attemptFirst rules).1 ≠ .unmatched) :
    m.attemptFirst (rules ++ order) = m.attemptFirst rules := by
  induction rules generalizing m with
  | nil => exact absurd rfl h
  | cons r rules ih =>
    rw [List.cons_append]
    by_cases hr : (m.attempt r).1 = .unmatched
    · rw [attemptFirst_cons_of_eq hr] at h
      rw [attemptFirst_cons_of_eq hr, attemptFirst_cons_of_eq hr]
      exact ih h
    · rw [attemptFirst_cons_of_ne hr, attemptFirst_cons_of_ne hr]

/-- Two rules that are choices among others are tried by trying all of those. -/
theorem attemptFirst_pair {r r' s s' : Rule} (hr : r.phrase = Phrase.oneOf s rules)
    (hr' : r'.phrase = Phrase.oneOf s' order) (hroom : m.HasRoom (some nestingLimit) 0) :
    m.attemptFirst [r, r'] = m.attemptFirst ((s :: rules) ++ (s' :: order)) := by
  have hfirst := attempt_eq_attemptFirst hr hroom
  by_cases h : (m.attempt r).1 = .unmatched
  · have hroom' : m.peeked.HasRoom (some nestingLimit) 0 := m.reads_peeked.hasRoom_iff.2 hroom
    rw [attempt_eq_of_unmatched hroom h] at hfirst
    rw [attemptFirst_cons_of_unmatched hroom h, attemptFirst_singleton hroom',
      attempt_eq_attemptFirst hr' hroom', attemptFirst_append_of_unmatched hfirst.symm]
  · rw [attemptFirst_cons_of_ne h]
    rw [hfirst] at h ⊢
    exact (attemptFirst_append_of_ne h).symm

/-! ## Commands -/

/-- At most one alternative of a command has an outcome. -/
theorem exclusive_alternatives (hroom : m.HasRoom (some nestingLimit) 0) :
    m.Exclusive Rule.alternatives := by
  have hviable : ∀ r : Rule, (m.attempt r).1 ≠ .unmatched →
      Viable Rule.phrase (.rule r) [m.next.token] := by
    intro r hne
    refine not_not.1 fun hnone => hne ?_
    exact ((justified_attempt r hroom).eq_unmatched_iff rfl rfl).2 hnone
  intro r hr r' hr' h h'
  exact Rule.eq_of_viable_alternatives hr hr' (hviable r h) (hviable r' h')

/-- A command is attempted by trying its alternatives one after the other. -/
theorem attempt_command (hroom : m.HasRoom (some nestingLimit) 0) :
    m.attempt .command = m.attemptFirst Rule.alternatives := by
  have hphrase : Rule.command.phrase = Phrase.oneOf .action [.statement] := rfl
  rw [attempt_eq_attemptFirst hphrase hroom]
  exact attemptFirst_pair rfl rfl hroom

/-- Where there is no command, none of its alternatives is there. -/
theorem unmatched_of_mem_alternatives {r : Rule} (hroom : m.HasRoom (some nestingLimit) 0)
    (h : (m.attempt .command).1 = .unmatched) (hr : r ∈ Rule.alternatives) :
    (m.attempt r).1 = .unmatched := by
  refine not_not.1 fun hne => hne ?_
  have honly := attemptFirst_of_only hroom hr hne fun s hs hs' =>
    exclusive_alternatives hroom s hs r hr hs' hne
  rw [← honly, ← attempt_command hroom, h]

/-- A repetition ends where the phrase is not matched once more. -/
theorem exists_unmatched_of_repeated {limit : Option Nat} {p : Phrase} (hp : p.predictive = true)
    (hroom : m.HasRoom limit 0) (h : Ends limit within (.repeated p) m .matched m') :
    ∃ last, last.HasRoom limit 0 ∧ Ends limit within p last .unmatched m' := by
  obtain ⟨fuel, hrun⟩ := h
  induction fuel generalizing m with
  | zero => cases hrun
  | succ fuel ih =>
    rw [run] at hrun
    split at hrun
    · rename_i m₁ hbody
      exact ih ((justified_of_run hp hroom hbody).hasRoom_iff.2 hroom) hrun
    · rename_i m₁ hbody
      obtain ⟨-, rfl⟩ := Prod.mk.inj (Option.some.inj hrun)
      exact ⟨m, hroom, fuel, hbody⟩
    · rename_i hne _
      exact absurd hrun (hne m')

/-- A loop over commands is left where no alternative of a command is matched. -/
theorem unmatched_of_repeated {r : Rule} (hroom : m.HasRoom (some nestingLimit) 0)
    (h : Ends (some nestingLimit) within (.repeated (.rule .command)) m .matched m')
    (hr : r ∈ Rule.alternatives) : (m'.attempt r).1 = .unmatched := by
  obtain ⟨last, hlast, hends⟩ := exists_unmatched_of_repeated rfl hroom h
  obtain ⟨houtcome, rfl⟩ := (ends_attempt .command hlast).unique (ends_rule_iff.1 hends)
  have hpeeked := congrArg Prod.snd (attempt_eq_of_unmatched hlast houtcome)
  rw [hpeeked, attempt_peeked r hlast]
  exact unmatched_of_mem_alternatives hlast houtcome hr

/-- Wherever a matcher is met in use, at most one alternative of a command is matched or fails for
good. In whatever order the alternatives are tried, what comes of it is what comes of the command:
the same outcome with the same diagnostic, and the same matcher. This includes to try the statements
before the actions. And a loop over commands is left only where no alternative is matched. -/
theorem alternatives_in_any_order (hm : m.Met) :
    m.Exclusive Rule.alternatives ∧
      (∀ order, order.Perm Rule.alternatives → m.attemptFirst order = m.attempt .command) ∧
      m.attemptFirst [.statement, .action] = m.attempt .command ∧
      ∀ within m', Ends (some nestingLimit) within (.repeated (.rule .command)) m .matched m' →
        ∀ r ∈ Rule.alternatives, (m'.attempt r).1 = .unmatched := by
  have hexclusive := exclusive_alternatives hm.hasRoom
  have horder : ∀ order, order.Perm Rule.alternatives →
      m.attemptFirst order = m.attempt .command := by
    intro order hperm
    rw [attempt_command hm.hasRoom]
    exact attemptFirst_perm hm.hasRoom hexclusive hperm
  refine ⟨hexclusive, horder, ?_, ?_⟩
  · have hpair : m.attemptFirst [.statement, .action] =
        m.attemptFirst (Rule.statements ++ Rule.actions) := attemptFirst_pair rfl rfl hm.hasRoom
    rw [hpair]
    exact horder _ List.perm_append_comm
  · intro within m' hends r hr
    exact unmatched_of_repeated hm.hasRoom hends hr

/-- In a block, a turn with two operands is tried from the last alternative to the first. The fault
is that of the command. -/
theorem alternatives_in_reverse_order :
    let m := ofSource "\x7b\n turn 1 2\n"
    let order := Rule.alternatives.reverse
    let fault := Outcome.fault ⟨.turn, .lineEnd, ⟨2, .number, "2.0"⟩⟩
    order.Perm Rule.alternatives ∧ ∃ f ∈ traceOf (some nestingLimit) m .block,
      f.matcher.Met ∧ f.matcher.depth = 1 ∧ (f.matcher.attempt .command).1 = fault ∧
        (f.matcher.attemptFirst order).1 = fault := by
  intro m order fault
  have hperm : order.Perm Rule.alternatives := List.reverse_perm _
  have hframe : ∃ f ∈ traceOf (some nestingLimit) m .block,
      f.matcher.depth = 1 ∧ (f.matcher.attempt .command).1 = fault := by decide +kernel
  obtain ⟨f, hf, hdepth, hfault⟩ := hframe
  have hmet : f.matcher.Met := .during (reachable_ofSource _) hf
  obtain ⟨-, horder, -⟩ := alternatives_in_any_order hmet
  exact ⟨hperm, f, hf, hmet, hdepth, hfault, by rw [horder order hperm, hfault]⟩

end Matcher

end BugsLang
