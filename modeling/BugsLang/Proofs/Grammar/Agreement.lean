import BugsLang.Proofs.Grammar.Lookahead

/-!
# Sentences that agree with a text

A text is read up to some token. Of a sentence all that can be said then is whether it agrees with
what was read and with the one token that was looked at. In a predictive phrase this already fixes
how the sentence is made up: a first part of a sequence that can be followed as far as the text was
read is not cut short by any sentence that agrees with the text.

## Main definitions

* `Agrees w t x`: `x` begins with `w`, and if it goes on then with `t`.

## Main statements

* `Derives.eq_of_append_eq`: where a sentence ends in a text is told by the token after it.
* `Agrees.left`, `Agrees.exists_second`: how a sentence of a sequence that agrees with a text is
  made up.
-/

namespace BugsLang

variable {n k : Nat} {p q : Phrase} {t c : Token} {u v w x y : List Token}

/-! ## Where sentences end -/

/-- The text does not go on with the phrase. -/
def Phrase.Stops (p : Phrase) (x : List Token) : Prop :=
  ∀ t ∈ x.head?, ¬ admits p.continues t = true

namespace Phrase.Stops

/-- A phrase stops where one stops that goes on with no fewer tokens. -/
theorem mono (hstop : q.Stops x)
    (hsub : ∀ t, admits p.continues t = true → admits q.continues t = true) : p.Stops x := by
  intro t ht hcont
  exact hstop t ht (hsub t hcont)

theorem of_rule {r : Rule} (hstop : (Phrase.rule r).Stops x) : r.phrase.Stops x := by
  apply hstop.mono
  intro t ht
  rwa [Rule.continues_phrase] at ht

/-- Where a sequence stops, its first phrase has stopped before the second one. -/
theorem seq_left (hstop : (Phrase.seq p q).Stops x) (hpred : (Phrase.seq p q).predictive = true)
    (hq : Derives Rule.phrase n q v) : p.Stops (v ++ x) := by
  intro t ht hcont
  cases v with
  | nil =>
    apply hstop t ht
    rw [continues_seq, hq.nullable, if_pos rfl, admits_append, admits_append, hcont, Bool.or_true,
      Bool.or_true]
  | cons c v =>
    obtain rfl : c = t := Option.some.inj ht
    obtain ⟨-, -, -, hapart⟩ := predictive_seq.1 hpred
    exact false_of_apart hapart hcont hq.admits_starts

theorem seq_right (hstop : (Phrase.seq p q).Stops x) : q.Stops x := by
  apply hstop.mono
  intro t ht
  rw [continues_seq, admits_append, ht, Bool.true_or]

theorem choice_left (hstop : (Phrase.choice p q).Stops x) : p.Stops x := by
  apply hstop.mono
  intro t ht
  rw [continues_choice, admits_append, ht, Bool.true_or]

theorem choice_right (hstop : (Phrase.choice p q).Stops x) : q.Stops x := by
  apply hstop.mono
  intro t ht
  rw [continues_choice, admits_append, ht, Bool.or_true]

theorem of_optional (hstop : (Phrase.optional p).Stops x) : p.Stops x := by
  apply hstop.mono
  intro t ht
  rw [continues_optional, admits_append, ht, Bool.or_true]

/-- A repetition stops where the phrase with a repetition after it does. -/
theorem unroll (hstop : (Phrase.repeated p).Stops x) :
    (Phrase.seq p (.repeated p)).Stops x := by
  apply hstop.mono
  intro t ht
  rwa [continues_seq, nullable, if_pos rfl, admits_append, starts_repeated,
    ← continues_repeated, Bool.or_self] at ht

/-- An optional phrase stops in front of none of its sentences but the empty one. -/
theorem eq_nil_of_optional (hstop : (Phrase.optional p).Stops (v ++ x))
    (hp : Derives Rule.phrase n p v) : v = [] := by
  cases v with
  | nil => rfl
  | cons c v =>
    refine absurd ?_ (hstop c rfl)
    rw [continues_optional, admits_append, hp.admits_starts, Bool.true_or]

/-- A repetition stops in front of none of its sentences but the empty one. -/
theorem eq_nil_of_repeated (hstop : (Phrase.repeated p).Stops (v ++ x))
    (hp : Derives Rule.phrase n (.repeated p) v) : v = [] := by
  cases v with
  | nil => rfl
  | cons c v =>
    refine absurd ?_ (hstop c rfl)
    rw [continues_repeated, admits_append, ← starts_repeated, hp.admits_starts, Bool.true_or]

end Phrase.Stops

/-- The two phrases of a choice have no sentences with the same first token. -/
theorem false_of_choice (hpred : (Phrase.choice p q).predictive = true)
    (hp : Derives Rule.phrase n p (c :: u)) (hq : Derives Rule.phrase k q (c :: v)) : False := by
  obtain ⟨-, -, -, -, hapart⟩ := Phrase.predictive_choice.1 hpred
  exact false_of_apart hapart hp.admits_starts hq.admits_starts

/-- The two phrases of a choice have no sentences that begin the same text. -/
theorem false_of_choice_of_append_eq (hpred : (Phrase.choice p q).predictive = true)
    (hp : Derives Rule.phrase n p u) (hq : Derives Rule.phrase k q v) (heq : u ++ x = v ++ y) :
    False := by
  obtain ⟨hpredp, hpredq, hsoftp, hsoftq, -⟩ := Phrase.predictive_choice.1 hpred
  cases u with
  | nil => exact hp.ne_nil hpredp hsoftp rfl
  | cons c u =>
    cases v with
    | nil => exact hq.ne_nil hpredq hsoftq rfl
    | cons d v =>
      obtain ⟨rfl, -⟩ := List.cons.inj heq
      exact false_of_choice hpred hp hq

/-- Where a sentence ends in a text is told by the token after it: if two sentences of a phrase
begin the same text, and neither can go on with what comes after it, they are the same. -/
theorem Derives.eq_of_append_eq (hu : Derives Rule.phrase n p u) (hpred : p.predictive = true)
    (hv : Derives Rule.phrase k p v) (heq : u ++ x = v ++ y) (hx : p.Stops x) (hy : p.Stops y) :
    u = v := by
  induction hu generalizing k v x y with
  | token =>
    obtain ⟨c, -, rfl⟩ := derives_token_iff.1 hv
    obtain ⟨rfl, -⟩ := List.cons.inj heq
    rfl
  | @rule _ r _ _ ih =>
    exact ih r.predictive_phrase (derives_rule_iff.1 hv) heq hx.of_rule hy.of_rule
  | @seq _ p q u₁ u₂ _ hu₂ ihp ihq =>
    obtain ⟨v₁, v₂, rfl, hv₁, hv₂⟩ := derives_seq_iff.1 hv
    obtain ⟨hp, hq, -⟩ := Phrase.predictive_seq.1 hpred
    rw [List.append_assoc, List.append_assoc] at heq
    obtain rfl : u₁ = v₁ := ihp hp hv₁ heq (hx.seq_left hpred hu₂) (hy.seq_left hpred hv₂)
    rw [ihq hq hv₂ (List.append_cancel_left heq) hx.seq_right hy.seq_right]
  | first hu ih =>
    rcases derives_choice_iff.1 hv with hv | hv
    · exact ih (Phrase.predictive_choice.1 hpred).1 hv heq hx.choice_left hy.choice_left
    · exact (false_of_choice_of_append_eq hpred hu hv heq).elim
  | second hu ih =>
    rcases derives_choice_iff.1 hv with hv | hv
    · exact (false_of_choice_of_append_eq hpred hv hu heq.symm).elim
    · exact ih (Phrase.predictive_choice.1 hpred).2.1 hv heq hx.choice_right hy.choice_right
  | absent =>
    rcases derives_optional_iff.1 hv with rfl | hv
    · rfl
    · rw [List.nil_append] at heq
      rw [heq] at hx
      exact (hx.eq_nil_of_optional hv).symm
  | present hu ih =>
    rcases derives_optional_iff.1 hv with rfl | hv
    · rw [List.nil_append] at heq
      rw [← heq] at hy
      exact hy.eq_nil_of_optional hu
    · exact ih (Phrase.predictive_optional.1 hpred).1 hv heq hx.of_optional hy.of_optional
  | none =>
    rw [List.nil_append] at heq
    rw [heq] at hx
    exact (hx.eq_nil_of_repeated hv).symm
  | @more _ p u₁ u₂ hu₁ hu₂ ihp ihrest =>
    rcases derives_repeated_iff.1 hv with rfl | hv
    · rw [List.nil_append] at heq
      rw [← heq] at hy
      exact hy.eq_nil_of_repeated (hu₁.more hu₂)
    · obtain ⟨v₁, v₂, rfl, hv₁, hv₂⟩ := derives_seq_iff.1 hv
      have hp : p.predictive = true := (Phrase.predictive_repeated.1 hpred).1
      have hseq := Phrase.predictive_seq_repeated hpred
      rw [List.append_assoc, List.append_assoc] at heq
      obtain rfl : u₁ = v₁ :=
        ihp hp hv₁ heq (hx.unroll.seq_left hseq hu₂) (hy.unroll.seq_left hseq hv₂)
      rw [ihrest hpred hv₂ (List.append_cancel_left heq) hx hy]
  | required _ ih =>
    exact ih (Phrase.predictive_required.1 hpred).1 (derives_required_iff.1 hv) heq hx hy
  | bracketed _ ih =>
    obtain ⟨j, -, hv⟩ := derives_bracketed_iff.1 hv
    exact ih (Phrase.predictive_bracketed.1 hpred).1 hv heq hx hy

/-- Where a sentence could end and a longer one goes on, the next token continues the phrase. -/
theorem Viable.admits_continues (h : Viable Rule.phrase p (u ++ [t])) (hpred : p.predictive = true)
    (hu : Derives Rule.phrase n p u) : admits p.continues t = true := by
  by_cases hcont : admits p.continues t = true
  · exact hcont
  · obtain ⟨x, k, hlong⟩ := h
    have hstop : p.Stops ([t] ++ x) := by
      intro c hc
      rwa [← Option.some.inj hc]
    have heq : u ++ ([t] ++ x) = u ++ [t] ++ x ++ [] := by
      rw [List.append_nil, List.append_assoc]
    have hnil : p.Stops [] := fun _ hc => nomatch hc
    have hsame : u = u ++ [t] ++ x := hu.eq_of_append_eq hpred hlong heq hstop hnil
    have hlength := congrArg List.length hsame
    rw [List.length_append, List.length_append, List.length_singleton] at hlength
    omega

/-! ## Agreement -/

/-- The tokens `x` begin with `w`, and if they go on then with `t`. -/
def Agrees (w : List Token) (t : Token) (x : List Token) : Prop :=
  ∃ y, x = w ++ y ∧ ∀ c ∈ y.head?, c = t

/-- What agrees with a text agrees with its beginning. -/
theorem Agrees.of_append (h : Agrees (u ++ v) t x) (hc : (v ++ [t]).head? = some c) :
    Agrees u c x := by
  obtain ⟨y, rfl, hy⟩ := h
  refine ⟨v ++ y, List.append_assoc .., ?_⟩
  intro d hd
  cases v with
  | nil =>
    rw [hy d hd]
    exact Option.some.inj hc
  | cons _ _ => exact Option.some.inj (hd.symm.trans hc)

/-- What agrees with a text and begins with its first part agrees with the second part. -/
theorem Agrees.of_append_append (h : Agrees (u ++ v) t (u ++ x)) : Agrees v t x := by
  obtain ⟨y, heq, hy⟩ := h
  rw [List.append_assoc] at heq
  exact ⟨y, List.append_cancel_left heq, hy⟩

/-- What agrees with a text is the text or goes on with the next token. -/
theorem agrees_iff : Agrees w t x ↔ x = w ∨ ∃ y, x = w ++ [t] ++ y := by
  constructor
  · intro h
    obtain ⟨y, rfl, hy⟩ := h
    cases y with
    | nil => exact .inl (List.append_nil w)
    | cons c y =>
      obtain rfl : c = t := hy c rfl
      exact .inr ⟨y, by rw [List.append_assoc]; rfl⟩
  · intro h
    rcases h with rfl | ⟨y, rfl⟩
    · exact ⟨[], (List.append_nil x).symm, fun _ hc => nomatch hc⟩
    · refine ⟨[t] ++ y, List.append_assoc .., ?_⟩
      intro c hc
      exact (Option.some.inj hc).symm

/-- If a text can go on with a token, a longer sentence agrees with the two. -/
theorem Viable.exists_agrees {table : Rule → Phrase} (h : Viable table p (w ++ [t])) :
    ∃ x k, Derives table k p x ∧ Agrees w t x ∧ x ≠ w := by
  obtain ⟨y, k, hx⟩ := h
  refine ⟨w ++ [t] ++ y, k, hx, agrees_iff.2 (.inr ⟨y, rfl⟩), ?_⟩
  intro heq
  have hlength := congrArg List.length heq
  rw [List.length_append, List.length_append, List.length_singleton] at hlength
  omega

/-- In a predictive sequence the second phrase cannot start where the first one may go on. So if the
first phrase could be read up to some token, then a sentence that agrees with the text has a first
part that agrees with it. -/
theorem Agrees.left (h : Agrees w t (u ++ v)) (hpred : (Phrase.seq p q).predictive = true)
    (hviable : Viable Rule.phrase p w) (hu : Derives Rule.phrase n p u)
    (hv : Derives Rule.phrase k q v) : Agrees w t u := by
  obtain ⟨hp, -, -, hapart⟩ := Phrase.predictive_seq.1 hpred
  obtain ⟨y, heq, hy⟩ := h
  rcases List.append_eq_append_iff.1 heq with ⟨b, hw, hvb⟩ | ⟨a, hua, hya⟩
  · cases b with
    | nil =>
      rw [List.append_nil] at hw
      exact ⟨[], by rw [hw, List.append_nil], fun _ hc => nomatch hc⟩
    | cons c b =>
      -- the first part would end before the text does, and the second start with what continues it
      rw [hw, List.append_cons] at hviable
      rw [hvb] at hv
      exact (false_of_apart hapart (hviable.of_append.admits_continues hp hu)
        hv.admits_starts).elim
  · refine ⟨a, hua, ?_⟩
    intro c hc
    apply hy
    rw [hya]
    cases a with
    | nil => cases hc
    | cons d a => exact hc

/-- If the first phrase of a sequence could only be read as `u`, then a sentence that agrees with a
text that begins with `u` is `u` and a sentence of the second phrase that agrees with the rest. -/
theorem Agrees.exists_second (h : Agrees (u ++ v) t x) (hpred : (Phrase.seq p q).predictive = true)
    (hu : Derives Rule.phrase n p u)
    (honly : ∀ k x, Derives Rule.phrase k p x → Agrees u c x → x = u)
    (hc : (v ++ [t]).head? = some c) (hx : Derives Rule.phrase k (.seq p q) x) :
    ∃ y, x = u ++ y ∧ Derives Rule.phrase k q y ∧ Agrees v t y := by
  obtain ⟨x₁, x₂, rfl, hx₁, hx₂⟩ := derives_seq_iff.1 hx
  have hfirst : Agrees u c x₁ := (h.of_append hc).left hpred hu.sentence.viable hx₁ hx₂
  obtain rfl : x₁ = u := honly k x₁ hx₁ hfirst
  exact ⟨x₂, rfl, hx₂, h.of_append_append⟩

end BugsLang
