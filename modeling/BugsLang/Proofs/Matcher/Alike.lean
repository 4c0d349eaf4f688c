import BugsLang.Proofs.Matcher.History
import BugsLang.Proofs.Matcher.Similar
import BugsLang.Validation

/-!
# Matchers with the same tokens ahead

Matching a rule reads some tokens and looks at the one after them. What comes behind that one has no
part in the outcome, and the lines of the tokens have none either. So let two matchers have the same
tokens ahead up to some place. As long as the first one stays in front of that place, the second one
does what the first one does.

## Main definitions

* `Matcher.Alike rest rest' m m'`: up to `rest` and `rest'` the two have the same tokens ahead.
* `Matcher.StaysBefore rest m`: the matcher has not come to `rest`.

## Main statements

* `attempt_alike`: matching a rule keeps two matchers alike.
* `attempt_of_tokensOf_eq`: the outcome of a rule for all matchers with the same tokens ahead.
* `outcome_told_by_tokens_read`: one token of lookahead decides every outcome.
-/

namespace BugsLang

namespace Matcher

/-- Up to `rest` and `rest'` the two matchers have the same tokens ahead, and at least one, if
perhaps on other lines. As many brackets are open. -/
structure Alike (rest rest' : List Token.Located) (m m' : Matcher) : Prop where
  ahead : ∃ w w', w ≠ [] ∧ tokensOf w' = tokensOf w ∧ m.unread = w ++ rest ∧ m'.unread = w' ++ rest'
  depth : m'.depth = m.depth

/-- Some token in front of `rest` is still to come. -/
def StaysBefore (rest : List Token.Located) (m : Matcher) : Prop :=
  ∃ w, w ≠ [] ∧ m.unread = w ++ rest

variable {limit : Option Nat} {p : Phrase} {m m' m₁ : Matcher} {outcome : Outcome}
  {us us' w w' rest rest' : List Token.Located} {t t' : Token.Located}

/-- Up to `rest` and `rest'` the two lists have the same tokens, and at least one, if perhaps on
other lines. -/
def SameUpTo (rest rest' us us' : List Token.Located) : Prop :=
  ∃ w w', w ≠ [] ∧ tokensOf w' = tokensOf w ∧ us = w ++ rest ∧ us' = w' ++ rest'

namespace SameUpTo

/-- Behind the first token the lists have the same tokens up to `rest` and `rest'`. -/
theorem exists_tail (h : SameUpTo rest rest' (t :: us) (t' :: us')) :
    t'.token = t.token ∧
      ∃ w w', tokensOf w' = tokensOf w ∧ us = w ++ rest ∧ us' = w' ++ rest' := by
  obtain ⟨w, w', hw, htokens, hus, hus'⟩ := h
  match w, w', hw, htokens with
  | c :: w, c' :: w', _, htokens =>
    simp only [tokensOf, List.map_cons, List.cons.injEq] at htokens
    obtain ⟨rfl, rfl⟩ := List.cons.inj hus
    obtain ⟨rfl, rfl⟩ := List.cons.inj hus'
    exact ⟨htokens.1, w, w', htokens.2, rfl, rfl⟩

/-- The lists stay the same as long as some token in front of `rest` is left. -/
theorem tail (h : SameUpTo rest rest' (t :: us) (t' :: us'))
    (hleft : ∃ w, w ≠ [] ∧ us = w ++ rest) : SameUpTo rest rest' us us' := by
  obtain ⟨-, w, w', htokens, rfl, rfl⟩ := h.exists_tail
  obtain ⟨v, hv, hsame⟩ := hleft
  rw [List.append_cancel_right_eq] at hsame
  exact ⟨w, w', hsame ▸ hv, htokens, rfl, rfl⟩

theorem dropLineEnds (h : SameUpTo rest rest' us us')
    (hleft : ∃ w, w ≠ [] ∧ dropLineEnds us = w ++ rest) :
    SameUpTo rest rest' (dropLineEnds us) (dropLineEnds us') := by
  obtain ⟨w, w', hw, htokens, rfl, rfl⟩ := h
  induction w generalizing w' with
  | nil => exact absurd rfl hw
  | cons c w ih =>
    cases w' with
    | nil => cases htokens
    | cons c' w' =>
      simp only [tokensOf, List.map_cons, List.cons.injEq] at htokens
      obtain ⟨hc, htokens⟩ := htokens
      rw [List.cons_append] at hleft ⊢
      rw [List.cons_append]
      by_cases hkind : c.token.kind = .lineEnd
      · rw [dropLineEnds_cons_of_eq hkind] at hleft ⊢
        rw [dropLineEnds_cons_of_eq (hc ▸ hkind)]
        refine ih w' ?_ htokens hleft
        -- nothing of `rest` may be dropped
        intro hnil
        rw [hnil, List.nil_append] at hleft
        obtain ⟨v, hv, hsame⟩ := hleft
        have hle : (BugsLang.dropLineEnds rest).length ≤ rest.length :=
          (List.dropWhile_suffix _).length_le
        have hpos := List.length_pos_iff.2 hv
        rw [hsame, List.length_append] at hle
        omega
      · rw [dropLineEnds_cons_of_ne hkind, dropLineEnds_cons_of_ne (hc ▸ hkind)]
        exact ⟨c :: w, c' :: w', hw, by simp [tokensOf, hc, htokens], rfl, rfl⟩

end SameUpTo

/-- The same tokens up to `rest` and `rest'` stay the same, as long as some token in front of `rest`
is left. -/
theorem keptByReading_sameUpTo (rest rest' : List Token.Located) :
    KeptByReading (fun us => ∃ w, w ≠ [] ∧ us = w ++ rest) (SameUpTo rest rest') where
  of_append := by
    intro us v h
    obtain ⟨w, hw, rfl⟩ := h
    exact ⟨v ++ w, by simp [hw], (List.append_assoc v w rest).symm⟩
  token_eq := fun h => h.exists_tail.1
  tail := fun h _ _ hleft => h.tail hleft
  dropLineEnds := SameUpTo.dropLineEnds

/-! ## Matching a rule -/

/-- Matching a rule keeps two matchers alike, if the first one stays in front of `rest`. -/
theorem attempt_alike (rule : Rule) (hroom : m.HasRoom (some nestingLimit) 0)
    (h : Alike rest rest' m m') (hstays : (m.attempt rule).2.StaysBefore rest) :
    (m'.attempt rule).1 = (m.attempt rule).1.mapFound (fun _ => (m'.attempt rule).2.next) ∧
      Alike rest rest' (m.attempt rule).2 (m'.attempt rule).2 := by
  obtain ⟨houtcome, hafter⟩ :=
    attempt_similar (keptByReading_sameUpTo rest rest') ⟨h.ahead, h.depth⟩ rule hroom hstays
  exact ⟨houtcome, hafter.unread, hafter.depth⟩

/-- A matcher that has the tokens ahead that a rule reads, and the one after them, reads them too,
and then that one is next. The outcome is the same, but for the line where a fault is found. -/
theorem attempt_of_tokensOf_eq (rule : Rule) (hroom : m.HasRoom (some nestingLimit) 0)
    (hdepth : m'.depth = m.depth) (hunread : m.unread = w ++ t :: rest)
    (hunread' : m'.unread = w' ++ t' :: rest') (htokens : tokensOf w' = tokensOf w)
    (hnext : t'.token = t.token) (hleft : (m.attempt rule).2.unread = t :: rest) :
    (m'.attempt rule).1 = (m.attempt rule).1.mapFound (fun _ => t') ∧
      (m'.attempt rule).2.unread = t' :: rest' := by
  have halike : Alike rest rest' m m' := by
    refine ⟨⟨w ++ [t], w' ++ [t'], by simp, ?_, by simp [hunread], by simp [hunread']⟩, hdepth⟩
    rw [tokensOf_append, tokensOf_append, htokens]
    simp [tokensOf, hnext]
  obtain ⟨houtcome, hafter⟩ := attempt_alike rule hroom halike ⟨[t], by simp, hleft⟩
  have hroom' : m'.HasRoom (some nestingLimit) 0 := hroom.of_depth_eq hdepth
  -- one token is left in front of `rest`, so one is left in front of `rest'`, and it is `t'`
  obtain ⟨v, v', -, hsame, hv, hv'⟩ := hafter.ahead
  have hlength : (m'.attempt rule).2.unread.length = (t' :: rest').length := by
    have hone : v'.length = v.length := by
      have hmap := congrArg List.length hsame
      simpa [tokensOf] using hmap
    have hcount := congrArg List.length (hleft.symm.trans hv)
    rw [hv']
    simp only [List.length_append, List.length_cons] at hcount ⊢
    omega
  obtain ⟨u, hread⟩ := (justified_attempt rule hroom').exists_reads
  have hleft' : (m'.attempt rule).2.unread = t' :: rest' :=
    (List.append_inj' (hread.unread.symm.trans hunread') hlength).2
  rw [next_of_unread hleft'] at houtcome
  exact ⟨houtcome, hleft'⟩

/-- The token found at a fault is the next one, so only the image of that one matters. -/
theorem Justified.mapFound_eq (h : Justified limit p m outcome m₁) (hnext : m₁.next = t)
    (f : Token.Located → Token.Located) :
    outcome.mapFound (fun _ => f t) = outcome.mapFound f := by
  cases outcome with
  | matched | unmatched => rfl
  | fault d => rw [Outcome.mapFound, Outcome.mapFound, h.found_eq, hnext]

/-- After any calls a rule comes out in the same way wherever the tokens that it reads, and the one
after them, are ahead. -/
theorem Reachable.attempt_eq (hm : m.Reachable) (hm' : m'.Reachable) {rule : Rule}
    (hunread : m.unread = w ++ t :: rest) (hleft : (m.attempt rule).2.unread = t :: rest)
    (hunread' : m'.unread = w ++ t :: rest') :
    (m'.attempt rule).1 = (m.attempt rule).1 ∧ (m'.attempt rule).2.unread = t :: rest' := by
  have hroom : m.HasRoom (some nestingLimit) 0 := hm.hasRoom_iff.2 (Nat.zero_le _)
  have hdepth : m'.depth = m.depth := by rw [hm.depth_eq_zero, hm'.depth_eq_zero]
  obtain ⟨houtcome, hleft'⟩ :=
    attempt_of_tokensOf_eq rule hroom hdepth hunread hunread' rfl rfl hleft
  have hfound := (hm.justified rule).mapFound_eq (next_of_unread hleft) id
  rw [Outcome.mapFound_id] at hfound
  exact ⟨houtcome.trans hfound, hleft'⟩

/-- One token of lookahead decides every outcome. A rule reads some tokens and leaves the one after
them unread, and in any matcher that has these tokens ahead, on these lines, the rule comes out in
the same way and reads as many. So two sources that are the same up to the token at which the
program fails have the same fault. -/
theorem outcome_told_by_tokens_read :
    (∀ (m : Matcher) (rule : Rule), m.Reachable →
      ∃ w t rest, m.unread = w ++ t :: rest ∧ (m.attempt rule).2.unread = t :: rest ∧
        ∀ (m' : Matcher) (rest' : List Token.Located), m'.Reachable →
          m'.unread = w ++ t :: rest' →
          (m'.attempt rule).1 = (m.attempt rule).1 ∧ (m'.attempt rule).2.unread = t :: rest') ∧
    (∀ (source : String) (d : Diagnostic), programOutcome source = .fault d →
      ∃ w rest, locatedTokens source = w ++ d.found :: rest ∧
        ((ofSource source).attempt .program).2.unread = d.found :: rest ∧
        ∀ (source' : String) (rest' : List Token.Located),
          locatedTokens source' = w ++ d.found :: rest' → programOutcome source' = .fault d) := by
  constructor
  · intro m rule hm
    obtain ⟨w, t, rest, hunread, hleft⟩ := hm.exists_unread rule
    refine ⟨w, t, rest, hunread, hleft, ?_⟩
    intro m' rest' hm' hunread'
    exact hm.attempt_eq hm' hunread hleft hunread'
  · intro source d hfault
    have hm := reachable_ofSource source
    obtain ⟨w, t, rest, hunread, hleft⟩ := hm.exists_unread .program
    have hjust := hm.justified .program
    rw [show ((ofSource source).attempt .program).1 = .fault d from hfault] at hjust
    have hfound : d.found = t := hjust.found_eq.trans (next_of_unread hleft)
    rw [hfound]
    refine ⟨w, rest, hunread, hleft, ?_⟩
    intro source' rest' hunread'
    obtain ⟨hsame, -⟩ := hm.attempt_eq (reachable_ofSource source') hunread hleft hunread'
    exact hsame.trans hfault

/-- A call fails at the end of its line, wherever it comes from and whatever follows on the next
line. A program fails at a number, whether or not a bracket follows it. -/
theorem fault_told_by_tokens_read :
    let m := (ofSource "x f(1\n]").after [.reader .read]
    let m' := ofSource "/* */ f(1\r\nmove"
    let d : Diagnostic := ⟨.arguments, .literal ")", ⟨1, .lineEnd⟩⟩
    let e : Diagnostic := ⟨.bug, .name, ⟨1, .number, "2.0"⟩⟩
    m.Reachable ∧ m'.Reachable ∧ (m.attempt .call).1 = .fault d ∧ (m'.attempt .call).1 = .fault d ∧
      programOutcome "Bug 2" = .fault e ∧ programOutcome "Bug 2 (" = .fault e := by
  intro m m' d e
  have hm : m.Reachable := ⟨_, _, rfl⟩
  have hm' : m'.Reachable := reachable_ofSource _
  have hfault : (m.attempt .call).1 = .fault d := by decide +kernel
  have hprogram : programOutcome "Bug 2" = .fault e := by decide +kernel
  obtain ⟨hrules, hprograms⟩ := outcome_told_by_tokens_read
  refine ⟨hm, hm', hfault, ?_, hprogram, ?_⟩
  · let u : List Token.Located := [⟨1, .name, "f"⟩, ⟨1, .symbol, "("⟩, ⟨1, .number, "1.0"⟩]
    let behind : List Token.Located := [⟨1, .lineEnd⟩, ⟨2, .symbol, "]"⟩, ⟨2, .inputEnd⟩]
    have hread : m.unread = u ++ behind := by decide +kernel
    have hbehind : (m.attempt .call).2.unread = behind := by decide +kernel
    have hread' : m'.unread = u ++ [⟨1, .lineEnd⟩, ⟨2, .reserved, "move"⟩, ⟨2, .inputEnd⟩] := by
      decide +kernel
    obtain ⟨w, t, rest, hunread, hleft, hsame⟩ := hrules m .call hm
    obtain ⟨rfl, rfl⟩ := List.cons.inj (hleft.symm.trans hbehind)
    obtain rfl : w = u := List.append_cancel_right (hunread.symm.trans hread)
    rw [← hfault]
    exact (hsame m' _ hm' hread').1
  · have hread : locatedTokens "Bug 2" =
        [⟨1, .reserved, "Bug"⟩] ++ [e.found, ⟨1, .inputEnd⟩] := by decide +kernel
    have hbehind : ((ofSource "Bug 2").attempt .program).2.unread =
        [e.found, ⟨1, .inputEnd⟩] := by decide +kernel
    have hread' : locatedTokens "Bug 2 (" =
        [⟨1, .reserved, "Bug"⟩] ++ [e.found, ⟨1, .symbol, "("⟩, ⟨1, .inputEnd⟩] := by
      decide +kernel
    obtain ⟨w, rest, hunread, hleft, hsame⟩ := hprograms _ _ hprogram
    obtain ⟨-, rfl⟩ := List.cons.inj (hleft.symm.trans hbehind)
    obtain rfl : w = [⟨1, .reserved, "Bug"⟩] :=
      List.append_cancel_right (hunread.symm.trans hread)
    exact hsame _ _ hread'

end Matcher

end BugsLang
