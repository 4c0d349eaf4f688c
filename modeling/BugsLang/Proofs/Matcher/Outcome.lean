import BugsLang.Proofs.Matcher.History

/-!
# Which outcome there is

The outcome of matching a rule is told by the sentences of the rule alone. A match is a sentence
within the limit that no longer sentence begins with, as far as one more token can tell. No match
means that the next token begins no sentence. All else is a fault, and it names the first token that
no sentence could have.

## Main definitions

* `Rule.EndsBefore w t`: the rule derives `w`, and no sentence of it begins with `w` and `t`.
* `Rule.BreaksAt w t`: some sentence of the rule begins with `w`, and none with `w` and `t`.

## Main statements

* `matched_iff`, `unmatched_iff`, `fault_iff`: when there is which outcome.
* `breaksAt_of_fault`: where a fault is found.
* `outcome_told_by_sentences`: all outcomes of all rules.
-/

namespace BugsLang

/-- The rule derives `w` within the limit, and no sentence of it, however deep, goes on with `t`. -/
def Rule.EndsBefore (rule : Rule) (w : List Token) (t : Token) : Prop :=
  Derives Rule.definition nestingLimit (.rule rule) w ∧
    ¬ Viable Rule.definition (.rule rule) (w ++ [t])

/-- Some sentence of the rule begins with `w`, and none with `w` and then `t`. -/
def Rule.BreaksAt (rule : Rule) (w : List Token) (t : Token) : Prop :=
  Viable Rule.definition (.rule rule) w ∧ ¬ Viable Rule.definition (.rule rule) (w ++ [t])

/-- Where a rule ends is where it breaks. -/
theorem Rule.EndsBefore.breaksAt {rule : Rule} {w : List Token} {t : Token}
    (h : rule.EndsBefore w t) : rule.BreaksAt w t :=
  ⟨h.1.sentence.viable, h.2⟩

/-- A fault of the limit says so in its text. -/
theorem expected_ne_lessNesting {d : Diagnostic} (h : d.expected.text ≠ "shallower nesting") :
    d.expected ≠ .lessNesting := by
  intro heq
  rw [heq] at h
  exact h rfl

namespace Matcher

variable {m m' : Matcher} {rule : Rule} {u w rest : List Token.Located} {t : Token.Located}

/-! ## What was read and what is unread -/

/-- Either what comes before some unread token agrees with what was read, or the token was read. -/
theorem Reads.agrees_or (hread : m.Reads u m') (hunread : m.unread = w ++ t :: rest) :
    Agrees (tokensOf u) m'.next.token (tokensOf w) ∨
      ∃ v, tokensOf u = tokensOf w ++ [t.token] ++ v := by
  have heq : u ++ m'.unread = w ++ t :: rest := hread.unread.symm.trans hunread
  rcases List.append_eq_append_iff.1 heq with ⟨a, hw, hunread'⟩ | ⟨b, hu, hrest⟩
  · left
    refine ⟨tokensOf a, by rw [hw, tokensOf_append], ?_⟩
    intro c hc
    cases a with
    | nil => cases hc
    | cons d a =>
      have hhead := m'.head?_unread
      rw [hunread'] at hhead
      obtain rfl : d = m'.next := Option.some.inj hhead
      exact (Option.some.inj hc).symm
  · cases b with
    | nil =>
      left
      rw [hu, List.append_nil]
      exact agrees_iff.2 (.inl rfl)
    | cons d b =>
      right
      obtain ⟨rfl, -⟩ := List.cons.inj hrest
      exact ⟨tokensOf b, by rw [hu, tokensOf_append, List.append_assoc]; rfl⟩

/-- Every text agrees with the next token alone if it comes before an unread token. -/
theorem agrees_next (hunread : m.unread = w ++ t :: rest) :
    Agrees [] m.next.token (tokensOf w) := by
  rcases m.reads_peeked.agrees_or hunread with hagrees | ⟨v, hnil⟩
  · rwa [next_peeked] at hagrees
  · have hsingle : [t.token] = [] :=
      (List.append_eq_nil_iff.1 (List.append_eq_nil_iff.1 hnil.symm).1).2
    cases hsingle

/-- What has been read of a phrase begins with the next token. -/
theorem Reads.viable_next {table : Rule → Phrase} {p : Phrase} (hread : m.Reads u m')
    (hne : u ≠ []) (hviable : Viable table p (tokensOf u)) : Viable table p [m.next.token] := by
  cases u with
  | nil => exact absurd rfl hne
  | cons c u =>
    rw [← Option.some.inj hread.head?]
    exact Viable.of_append (v := tokensOf u) hviable

/-! ## Match -/

/-- What is matched ends before the next token. -/
theorem exists_endsBefore_of_matched (hm : m.Reachable) (h : (m.attempt rule).1 = .matched) :
    ∃ w, m.unread = w ++ (m.attempt rule).2.unread ∧
      rule.EndsBefore (tokensOf w) (m.attempt rule).2.next.token := by
  have hjust := hm.justified rule
  rw [h] at hjust
  generalize (m.attempt rule).2 = m' at hjust
  cases hjust with
  | @matched w n _ hread hroom hderives honly =>
    refine ⟨w, hread.unread, ?_, ?_⟩
    · rw [← derives_phrase_iff_derives_definition]
      exact hderives.mono (hm.hasRoom_iff.1 hroom)
    · rw [← viable_phrase_eq]
      intro hviable
      obtain ⟨x, k, hx, hagrees, hne⟩ := hviable.exists_agrees
      exact hne (honly k x hx hagrees)

/-- A sentence that does not go on with the next token is matched, and then this token is the next
one. -/
theorem Justified.matched_of_derives {limit : Option Nat} {p : Phrase} {n : Nat} {outcome : Outcome}
    (hjust : Justified limit p m outcome m') (hroom : m.HasRoom limit n)
    (hunread : m.unread = w ++ t :: rest) (hderives : Derives Rule.phrase n p (tokensOf w))
    (hstops : ¬ Viable Rule.phrase p (tokensOf w ++ [t.token])) :
    outcome = .matched ∧ m'.unread = t :: rest := by
  -- a run that has read the token would have read what no sentence begins with
  have hagrees : ∀ {u : List Token.Located} {m' : Matcher}, m.Reads u m' →
      Viable Rule.phrase p (tokensOf u) → Agrees (tokensOf u) m'.next.token (tokensOf w) := by
    intro u m' hread hviable
    rcases hread.agrees_or hunread with hagrees | ⟨v, hu⟩
    · exact hagrees
    · rw [hu] at hviable
      exact absurd hviable.of_append hstops
  cases hjust with
  | @matched u k _ hread _ hread' honly =>
    have hsame := honly n _ hderives (hagrees hread hread'.sentence.viable)
    have hlength : w.length = u.length := by
      have hlength := congrArg List.length hsame
      rwa [tokensOf, tokensOf, List.length_map, List.length_map] at hlength
    rw [hread.unread] at hunread
    exact ⟨rfl, (List.append_inj hunread hlength.symm).2⟩
  | unmatched _ hnone => exact absurd (agrees_next hunread) (hnone _ _ hderives)
  | fault hread _ hviable _ hnone =>
    exact absurd (hagrees hread hviable) (hnone _ _ (fun _ => hroom) hderives)

/-- What ends before a token is matched, and then this token is the next one. -/
theorem matched_of_endsBefore (hm : m.Reachable) (hunread : m.unread = w ++ t :: rest)
    (h : rule.EndsBefore (tokensOf w) t.token) :
    (m.attempt rule).1 = .matched ∧ (m.attempt rule).2.unread = t :: rest := by
  obtain ⟨hderives, hstops⟩ := h
  rw [← derives_phrase_iff_derives_definition] at hderives
  rw [← viable_phrase_eq] at hstops
  have hroom : m.HasRoom (some nestingLimit) nestingLimit := hm.hasRoom_iff.2 (Nat.le_refl _)
  exact (hm.justified rule).matched_of_derives hroom hunread hderives hstops

/-- A match reads just what ends before the token that is next then. -/
theorem matched_iff (hm : m.Reachable) (hunread : m.unread = w ++ t :: rest) :
    (m.attempt rule).1 = .matched ∧ (m.attempt rule).2.unread = t :: rest ↔
      rule.EndsBefore (tokensOf w) t.token := by
  constructor
  · intro h
    obtain ⟨hmatched, hrest⟩ := h
    obtain ⟨u, hu, hends⟩ := exists_endsBefore_of_matched hm hmatched
    have hhead := (m.attempt rule).2.head?_unread
    rw [hrest] at hu hhead
    obtain rfl : w = u := List.append_cancel_right (hunread.symm.trans hu)
    obtain rfl : t = (m.attempt rule).2.next := Option.some.inj hhead
    exact hends
  · exact matched_of_endsBefore hm hunread

/-! ## No match -/

/-- A phrase that may turn out not to be there is not matched exactly where the next token begins no
sentence. -/
theorem Justified.eq_unmatched_iff {limit : Option Nat} {p : Phrase} {outcome : Outcome}
    (hjust : Justified limit p m outcome m') (hpred : p.predictive = true) (hsoft : p.soft = true) :
    outcome = .unmatched ↔ ¬ Viable Rule.phrase p [m.next.token] := by
  cases hjust with
  | matched hread _ hderives =>
    have hne := hderives.ne_nil hpred hsoft
    refine iff_of_false (fun h => nomatch h) (not_not_intro ?_)
    exact hread.viable_next (fun hnil => hne (by rw [hnil]; rfl)) hderives.sentence.viable
  | unmatched _ hnone =>
    refine iff_of_true rfl ?_
    intro hviable
    obtain ⟨x, k, hx, hagrees, -⟩ := Viable.exists_agrees (w := []) hviable
    exact hnone k x hx hagrees
  | fault hread _ hviable hne =>
    refine iff_of_false (fun h => nomatch h) (not_not_intro ?_)
    exact hread.viable_next (hne hsoft) hviable

/-- Nothing is matched exactly where the next token begins no sentence. -/
theorem unmatched_iff (hm : m.Reachable) :
    (m.attempt rule).1 = .unmatched ↔
      ¬ Viable Rule.definition (.rule rule) [m.next.token] := by
  rw [← viable_phrase_eq]
  exact (hm.justified rule).eq_unmatched_iff rfl rfl

/-- Where nothing is matched the rule breaks at the next token. -/
theorem breaksAt_of_unmatched (hm : m.Reachable) (h : (m.attempt rule).1 = .unmatched) :
    ∃ rest, m.unread = (m.attempt rule).2.next :: rest ∧
      rule.BreaksAt [] (m.attempt rule).2.next.token := by
  obtain ⟨rest, hunread⟩ := m.unread_eq_cons
  obtain ⟨v, n, hv⟩ := exists_sentence (.rule rule)
  have hjust := hm.justified rule
  rw [h] at hjust
  rw [hjust.eq_peeked, next_peeked]
  refine ⟨rest, hunread, ⟨v, n, derives_phrase_iff_derives_definition.1 hv⟩, ?_⟩
  exact (unmatched_iff hm).1 h

/-! ## Fault -/

/-- A fault that is not one of the limit is found at the first token with which no sentence goes
on. -/
theorem breaksAt_of_fault {d : Diagnostic} (hm : m.Reachable) (h : (m.attempt rule).1 = .fault d)
    (hexpected : d.expected ≠ .lessNesting) :
    ∃ w rest, m.unread = w ++ d.found :: rest ∧ (m.attempt rule).2.unread = d.found :: rest ∧
      rule.BreaksAt (tokensOf w) d.found.token := by
  unfold Rule.BreaksAt
  rw [← viable_phrase_eq]
  have hjust := hm.justified rule
  rw [h] at hjust
  generalize (m.attempt rule).2 = m' at hjust ⊢
  cases hjust with
  | @fault w _ _ hread hfound hviable _ hnone =>
    obtain ⟨rest, hunread⟩ := m'.unread_eq_cons
    rw [hfound]
    refine ⟨w, rest, by rw [hread.unread, hunread], hunread, hviable, ?_⟩
    intro hlonger
    obtain ⟨x, k, hx, hagrees, -⟩ := hlonger.exists_agrees
    exact hnone k x (fun heq => absurd heq hexpected) hx hagrees

/-! ## Each outcome -/

theorem exists_unread_of_matched (hm : m.Reachable) (h : (m.attempt rule).1 = .matched) :
    ∃ w t rest, m.unread = w ++ t :: rest ∧ (m.attempt rule).2.unread = t :: rest := by
  obtain ⟨w, hunread, -⟩ := exists_endsBefore_of_matched hm h
  obtain ⟨rest, hrest⟩ := (m.attempt rule).2.unread_eq_cons
  rw [hrest] at hunread
  exact ⟨w, _, rest, hunread, hrest⟩

/-- There is a fault exactly where the next token begins a sentence and no sentence ends before an
unread token. -/
theorem fault_iff (hm : m.Reachable) :
    (∃ d, (m.attempt rule).1 = .fault d) ↔
      Viable Rule.definition (.rule rule) [m.next.token] ∧
        ¬ ∃ w t rest, m.unread = w ++ t :: rest ∧ rule.EndsBefore (tokensOf w) t.token := by
  constructor
  · intro h
    obtain ⟨d, hfault⟩ := h
    have hunmatched : (m.attempt rule).1 ≠ .unmatched := by
      rw [hfault]
      exact fun h => nomatch h
    refine ⟨not_not.1 fun hnone => hunmatched ((unmatched_iff hm).2 hnone), ?_⟩
    intro hends
    obtain ⟨w, t, rest, hunread, hends⟩ := hends
    have hmatched := (matched_of_endsBefore hm hunread hends).1
    rw [hfault] at hmatched
    cases hmatched
  · intro h
    obtain ⟨hviable, hnone⟩ := h
    cases houtcome : (m.attempt rule).1 with
    | matched =>
      obtain ⟨w, t, rest, hunread, hrest⟩ := exists_unread_of_matched hm houtcome
      exact absurd ⟨w, t, rest, hunread, (matched_iff hm hunread).1 ⟨houtcome, hrest⟩⟩ hnone
    | unmatched => exact absurd hviable ((unmatched_iff hm).1 houtcome)
    | fault d => exact ⟨d, rfl⟩

/-- After any calls the outcome of a rule is told by its sentences. It is a match of just those
tokens that end before the token after them, it is no match just if the next token begins no
sentence, and it is a fault in every other case. -/
theorem outcome_told_by_sentences (hm : m.Reachable) (rule : Rule) :
    (∀ w t rest, m.unread = w ++ t :: rest →
      ((m.attempt rule).1 = .matched ∧ (m.attempt rule).2.unread = t :: rest ↔
        rule.EndsBefore (tokensOf w) t.token)) ∧
    ((m.attempt rule).1 = .matched →
      ∃ w t rest, m.unread = w ++ t :: rest ∧ (m.attempt rule).2.unread = t :: rest) ∧
    ((m.attempt rule).1 = .unmatched ↔ ¬ Viable Rule.definition (.rule rule) [m.next.token]) ∧
    ((∃ d, (m.attempt rule).1 = .fault d) ↔
      Viable Rule.definition (.rule rule) [m.next.token] ∧
        ¬ ∃ w t rest, m.unread = w ++ t :: rest ∧ rule.EndsBefore (tokensOf w) t.token) := by
  refine ⟨?_, exists_unread_of_matched hm, unmatched_iff hm, fault_iff hm⟩
  intro w t rest hunread
  exact matched_iff hm hunread

/-- An action that has no operand is a fault. When its comma has been read past, a comparison is
matched with both of its symbols, and what it read ends before the end of the line. -/
theorem comparison_told_by_sentences :
    let m := (ofSource "moveto , x <= 2 \n").after [.attempt .moveTo, .reader .read]
    let w : List Token.Located :=
      [⟨1, .name, "x"⟩, ⟨1, .symbol, "<"⟩, ⟨1, .symbol, "="⟩, ⟨1, .number, "2.0"⟩]
    m.Reachable ∧ (m.attempt .expression).1 = .matched ∧
      Rule.expression.EndsBefore (tokensOf w) .lineEnd := by
  intro m w
  have hreachable : m.Reachable := ⟨_, _, rfl⟩
  have hunread : m.unread = w ++ ⟨1, .lineEnd⟩ :: [⟨2, .inputEnd⟩] := by decide +kernel
  have hmatched : (m.attempt .expression).1 = .matched := by decide +kernel
  have hrest : (m.attempt .expression).2.unread = ⟨1, .lineEnd⟩ :: [⟨2, .inputEnd⟩] := by
    decide +kernel
  obtain ⟨hsplit, -⟩ := outcome_told_by_sentences hreachable .expression
  exact ⟨hreachable, hmatched, (hsplit w _ _ hunread).1 ⟨hmatched, hrest⟩⟩

end Matcher

end BugsLang
