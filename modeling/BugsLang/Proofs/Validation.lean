import BugsLang.Proofs.Matcher.Outcome
import BugsLang.Validation

/-!
# Which sources are valid

A source is valid exactly if its tokens, up to the end of the input, are a program of the language
that keeps within the limit. If it is not, then the token that the rejection is about is the first
one with which no program goes on, unless it is the limit that brought the rejection.

## Main statements

* `validate_eq_ok_iff_derives`: the valid sources.
* `rejected_at_first_impossible_token`: where faults and rejections are found.
-/

namespace BugsLang

open Matcher

variable {source : String}

/-! ## Valid sources -/

/-- The outcome for the program decides. -/
theorem validate_eq (source : String) :
    validate source =
      match ((ofSource source).attempt .program).1 with
      | .fault d => .error (.fault d)
      | .unmatched => .error (.noProgram ((ofSource source).attempt .program).2.next)
      | .matched =>
        if ((ofSource source).attempt .program).2.next.token.kind = .inputEnd then .ok ()
        else .error (.leftover ((ofSource source).attempt .program).2.next) := by
  unfold validate
  generalize (ofSource source).attempt .program = step
  obtain ⟨outcome, m⟩ := step
  cases outcome <;> rfl

/-- A source is valid if a program is matched and the end of the input is next then. -/
theorem validate_eq_ok_iff :
    validate source = .ok () ↔ ((ofSource source).attempt .program).1 = .matched ∧
      ((ofSource source).attempt .program).2.next.token = .inputEnd := by
  rw [validate_eq]
  cases ((ofSource source).attempt .program).1 with
  | fault d => exact iff_of_false (fun h => nomatch h) (fun h => nomatch h.1)
  | unmatched => exact iff_of_false (fun h => nomatch h) (fun h => nomatch h.1)
  | matched =>
    by_cases hkind : ((ofSource source).attempt .program).2.next.token.kind = .inputEnd
    · rw [if_pos hkind]
      exact iff_of_true rfl ⟨rfl, token_next_eq_inputEnd hkind⟩
    · rw [if_neg hkind]
      refine iff_of_false (fun h => nomatch h) ?_
      intro h
      exact hkind (congrArg Token.kind h.2)

/-- No program goes on with the end of the input. -/
theorem not_viable_append_inputEnd (w : List Token) :
    ¬ Viable Rule.definition (.rule .program) (w ++ [.inputEnd]) := by
  rw [← viable_phrase_eq]
  intro h
  obtain ⟨x, k, hx⟩ := h
  apply hx.inputEnd_not_mem rfl
  simp

/-- The valid sources are those whose tokens, without the end of the input, are a program in which
brackets are nested within the limit. -/
theorem validate_eq_ok_iff_derives :
    validate source = .ok () ↔
      Derives Rule.definition nestingLimit (.rule .program)
        (tokensOf (locatedTokens source)).dropLast := by
  have hm := reachable_ofSource source
  obtain ⟨w, line, hunread, -⟩ := (ofSource source).unread_eq_append_inputEnd
  have htokens : (tokensOf (locatedTokens source)).dropLast = tokensOf w := by
    rw [← unread_ofSource, hunread, tokensOf_append]
    exact List.dropLast_concat
  rw [validate_eq_ok_iff, htokens]
  constructor
  · intro h
    obtain ⟨hmatched, hnext⟩ := h
    obtain ⟨u, hu, hderives, -⟩ := exists_endsBefore_of_matched hm hmatched
    -- nothing is left but the end of the input, so the program is all that comes before it
    rw [hunread, unread_eq_singleton hnext] at hu
    have hsame : w = u := by
      have hinit := congrArg List.dropLast hu
      rwa [List.dropLast_concat, List.dropLast_concat] at hinit
    rw [hsame]
    exact hderives
  · intro h
    have hends : Rule.program.EndsBefore (tokensOf w) .inputEnd :=
      ⟨h, not_viable_append_inputEnd _⟩
    obtain ⟨hmatched, hrest⟩ := matched_of_endsBefore hm hunread hends
    have hhead := ((ofSource source).attempt .program).2.head?_unread
    rw [hrest] at hhead
    exact ⟨hmatched, congrArg Token.Located.token (Option.some.inj hhead).symm⟩

/-! ## Rejected sources -/

/-- A rejection passes on a fault, or it is about the token that is next after the program or in
place of it. -/
theorem outcome_of_rejection {rejection : Rejection} (h : validate source = .error rejection) :
    (∃ d, ((ofSource source).attempt .program).1 = .fault d ∧ rejection = .fault d) ∨
    (((ofSource source).attempt .program).1 = .unmatched ∧
      rejection.found = ((ofSource source).attempt .program).2.next) ∨
    (((ofSource source).attempt .program).1 = .matched ∧
      rejection.found = ((ofSource source).attempt .program).2.next) := by
  rw [validate_eq] at h
  cases houtcome : ((ofSource source).attempt .program).1 with
  | fault d =>
    rw [houtcome] at h
    exact .inl ⟨d, rfl, (Except.error.inj h).symm⟩
  | unmatched =>
    rw [houtcome] at h
    rw [← Except.error.inj h]
    exact .inr (.inl ⟨rfl, rfl⟩)
  | matched =>
    rw [houtcome] at h
    by_cases hkind : ((ofSource source).attempt .program).2.next.token.kind = .inputEnd
    · rw [if_pos hkind] at h
      cases h
    · rw [if_neg hkind] at h
      rw [← Except.error.inj h]
      exact .inr (.inr ⟨rfl, rfl⟩)

/-- A rejection that is not one of the limit is about the first token with which no program goes
on. -/
theorem breaksAt_of_rejection {rejection : Rejection} (h : validate source = .error rejection)
    (hexpected : ∀ d, rejection = .fault d → d.expected ≠ .lessNesting) :
    ∃ w rest, (ofSource source).unread = w ++ rejection.found :: rest ∧
      Rule.program.BreaksAt (tokensOf w) rejection.found.token := by
  have hm := reachable_ofSource source
  rcases outcome_of_rejection h with ⟨d, hfault, rfl⟩ | ⟨hnone, hnext⟩ | ⟨hmatched, hnext⟩
  · obtain ⟨w, rest, hunread, -, hbreaks⟩ := breaksAt_of_fault hm hfault (hexpected d rfl)
    exact ⟨w, rest, hunread, hbreaks⟩
  · obtain ⟨rest, hunread, hbreaks⟩ := breaksAt_of_unmatched hm hnone
    rw [hnext]
    exact ⟨[], rest, hunread, hbreaks⟩
  · obtain ⟨w, hunread, hends⟩ := exists_endsBefore_of_matched hm hmatched
    obtain ⟨rest, hrest⟩ := ((ofSource source).attempt .program).2.unread_eq_cons
    rw [hrest] at hunread
    rw [hnext]
    exact ⟨w, rest, hunread, hends.breaksAt⟩

/-- Faults and rejections that are not ones of the limit are found at the first token that cannot
stand there. What comes before the token begins a sentence of the rule, or a program, and with the
token it begins none. -/
theorem rejected_at_first_impossible_token :
    (∀ (m : Matcher) (rule : Rule) (d : Diagnostic), m.Reachable →
      (m.attempt rule).1 = .fault d → d.expected.text ≠ "shallower nesting" →
      ∃ w rest, m.unread = w ++ d.found :: rest ∧ (m.attempt rule).2.unread = d.found :: rest ∧
        rule.BreaksAt (tokensOf w) d.found.token) ∧
    (∀ (source : String) (rejection : Rejection), validate source = .error rejection →
      (∀ d, rejection = .fault d → d.expected.text ≠ "shallower nesting") →
      ∃ w rest, locatedTokens source = w ++ rejection.found :: rest ∧
        Rule.program.BreaksAt (tokensOf w) rejection.found.token) := by
  constructor
  · intro m rule d hm hfault htext
    exact breaksAt_of_fault hm hfault (expected_ne_lessNesting htext)
  · intro source rejection hrejected htext
    rw [← unread_ofSource]
    apply breaksAt_of_rejection hrejected
    intro d heq
    exact expected_ne_lessNesting (htext d heq)

/-- A comparison is followed by a bracket that was not opened. The assignment is found to break at
the bracket, and so is the program. -/
theorem rejected_at_stray_bracket :
    let source := "Bug b \x7b\n x = 1 < 2 )\n\x7d\n"
    let m := (ofSource source).after [.reader .read, .reader .read, .reader .read, .reader .read]
    let d : Diagnostic := ⟨.assignment, .lineEnd, ⟨2, .symbol, ")"⟩⟩
    (m.attempt .assignment).1 = .fault d ∧ validate source = .error (.fault d) ∧
      (∃ w rest, m.unread = w ++ d.found :: rest ∧
        Rule.assignment.BreaksAt (tokensOf w) ⟨.symbol, ")"⟩) ∧
      ∃ w rest, locatedTokens source = w ++ d.found :: rest ∧
        Rule.program.BreaksAt (tokensOf w) ⟨.symbol, ")"⟩ := by
  intro source m d
  have hfault : (m.attempt .assignment).1 = .fault d := by decide +kernel
  have hoccurs : ((ofSource source).attempt .program).1 = .fault d := by decide +kernel
  have hrejected : validate source = .error (.fault d) := by rw [validate_eq, hoccurs]
  have htext : d.expected.text ≠ "shallower nesting" := by decide
  obtain ⟨hrule, hprogram⟩ := rejected_at_first_impossible_token
  obtain ⟨w, rest, hunread, -, hbreaks⟩ := hrule m .assignment d ⟨source, _, rfl⟩ hfault htext
  refine ⟨hfault, hrejected, ⟨w, rest, hunread, hbreaks⟩, ?_⟩
  apply hprogram source _ hrejected
  intro d' heq
  rwa [← Rejection.fault.inj heq]

end BugsLang
