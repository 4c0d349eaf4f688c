import BugsLang.Proofs.Grammar.Derivation

/-!
# One token of lookahead

Why it is enough to look at the next token only. For every phrase two sets of tokens are worked out:
`starts`, those that a sentence may begin with, and `continues`, those that may come next in a
longer sentence where a shorter one could end. The grammar is predictive: wherever there is a choice
between two ways to go on, the sets of the two have no token in common.

## Main definitions

* `Phrase.soft`: whether the phrase may turn out not to be there.
* `Phrase.starts`, `Phrase.continues`: the two sets.
* `Phrase.predictive`: the condition on all choices within the phrase.

## Main statements

* `Rule.predictive_phrase`: it holds of every rule.
* `Derives.admits_starts`: the sets hold the tokens that they should.
* `Derives.inputEnd_not_mem`: no sentence goes past the end of the input.
-/

namespace BugsLang

/-! ## Sets of tokens -/

/-- Whether no token is in both sets. -/
def Pattern.disjoint : Pattern → Pattern → Bool
  | exact t, p | p, exact t => !p.accepts t
  | kind k, kind l => k ≠ l
  | kind k, color | color, kind k => k ≠ .reserved && k ≠ .name
  | color, color => false

theorem Pattern.accepts_eq_false_of_disjoint {a b : Pattern} {t : Token}
    (h : a.disjoint b = true) (ha : a.accepts t = true) : b.accepts t = false := by
  cases a <;> cases b <;> simp_all [disjoint, accepts] <;> grind

/-- Whether the token is in one of the sets. -/
def admits (patterns : List Pattern) (t : Token) : Bool :=
  patterns.any (·.accepts t)

/-- Whether no token is in a set of both lists. -/
def apart (some others : List Pattern) : Bool :=
  some.all fun a => others.all a.disjoint

theorem admits_append {as bs : List Pattern} {t : Token} :
    admits (as ++ bs) t = (admits as t || admits bs t) :=
  List.any_append

/-- No token is in both of two lists that are apart. -/
theorem false_of_apart {as bs : List Pattern} {t : Token} (h : apart as bs = true)
    (ha : admits as t = true) (hb : admits bs t = true) : False := by
  obtain ⟨a, hmema, hat⟩ := List.any_eq_true.1 ha
  obtain ⟨b, hmemb, hbt⟩ := List.any_eq_true.1 hb
  have hab : a.disjoint b = true := List.all_eq_true.1 (List.all_eq_true.1 h a hmema) b hmemb
  rw [Pattern.accepts_eq_false_of_disjoint hab hat] at hbt
  exact Bool.false_ne_true hbt

namespace Phrase

/-! ## What can be told of a phrase -/

/-- Whether the phrase derives the empty list. No rule does. -/
def nullable : Phrase → Bool
  | token _ | rule _ => false
  | seq p q => p.nullable && q.nullable
  | choice p q => p.nullable || q.nullable
  | optional _ | repeated _ => true
  | required p _ | bracketed p => p.nullable

/-- Whether the phrase may turn out not to be there. The others are matched or fail for good. -/
def soft : Phrase → Bool
  | token _ | rule _ | choice _ _ => true
  | seq p _ => p.soft
  | optional _ | repeated _ | required _ _ | bracketed _ => false

/-- The tokens that a sentence may begin with, given those of the rules. -/
def startsGiven (ofRule : Rule → List Pattern) : Phrase → List Pattern
  | token pattern => [pattern]
  | rule r => ofRule r
  | seq p q =>
    p.startsGiven ofRule ++ if p.nullable then q.startsGiven ofRule else []
  | choice p q => p.startsGiven ofRule ++ q.startsGiven ofRule
  | optional p | repeated p | required p _ | bracketed p => p.startsGiven ofRule

end Phrase

/-- The tokens that the rule may begin with, found by going down at most `n` rules. -/
def Rule.startsWithin : Nat → Rule → List Pattern
  | 0, _ => []
  | n + 1, r => r.phrase.startsGiven (startsWithin n)

/-- The tokens that the rule may begin with. No chain of rules that begin each other has more than
seven of them. -/
def Rule.starts : Rule → List Pattern :=
  startsWithin 7

namespace Phrase

/-- The tokens that a sentence may begin with. -/
def starts (p : Phrase) : List Pattern :=
  p.startsGiven Rule.starts

/-- The tokens that may come next in a longer sentence where a shorter one could end, given those
of the rules. -/
def continuesGiven (ofRule : Rule → List Pattern) : Phrase → List Pattern
  | token _ => []
  | rule r => ofRule r
  | seq p q =>
    q.continuesGiven ofRule ++ if q.nullable then q.starts ++ p.continuesGiven ofRule else []
  | choice p q => p.continuesGiven ofRule ++ q.continuesGiven ofRule
  | optional p | repeated p => p.starts ++ p.continuesGiven ofRule
  | required p _ | bracketed p => p.continuesGiven ofRule

end Phrase

/-- The tokens that continue the rule, found by going down at most `n` rules. -/
def Rule.continuesWithin : Nat → Rule → List Pattern
  | 0, _ => []
  | n + 1, r => r.phrase.continuesGiven (continuesWithin n)

/-- The tokens that continue the rule. No chain of rules that end each other has more than seven
of them. -/
def Rule.continues : Rule → List Pattern :=
  continuesWithin 7

namespace Phrase

/-- The tokens that may come next in a longer sentence where a shorter one could end. -/
def continues (p : Phrase) : List Pattern :=
  p.continuesGiven Rule.continues

/-- Whether at every place within the phrase the next token decides how to go on. -/
def predictive : Phrase → Bool
  | token pattern => !pattern.accepts .inputEnd
  | rule _ => true
  | seq p q => p.predictive && q.predictive && !q.soft && apart p.continues q.starts
  | choice p q => p.predictive && q.predictive && p.soft && q.soft && apart p.starts q.starts
  | optional p => p.predictive && p.soft
  | repeated p => p.predictive && p.soft && apart p.continues p.starts
  | required p expected => p.predictive && p.soft && expected ≠ .lessNesting
  | bracketed p => p.predictive && !p.soft

end Phrase

/-! ## The sets, phrase by phrase -/

namespace Phrase

variable {p q : Phrase} {pattern : Pattern} {expected : Expectation}

theorem starts_token : (token pattern).starts = [pattern] := rfl

theorem starts_seq : (seq p q).starts = p.starts ++ if p.nullable then q.starts else [] := rfl

theorem starts_choice : (choice p q).starts = p.starts ++ q.starts := rfl

theorem starts_repeated : (repeated p).starts = p.starts := rfl

theorem nullable_seq : (seq p q).nullable = (p.nullable && q.nullable) := rfl

theorem nullable_choice : (choice p q).nullable = (p.nullable || q.nullable) := rfl

theorem continues_seq :
    (seq p q).continues = q.continues ++ if q.nullable then q.starts ++ p.continues else [] := rfl

theorem continues_choice : (choice p q).continues = p.continues ++ q.continues := rfl

theorem continues_optional : (optional p).continues = p.starts ++ p.continues := rfl

theorem continues_repeated : (repeated p).continues = p.starts ++ p.continues := rfl

theorem predictive_token :
    (token pattern).predictive = true ↔ pattern.accepts .inputEnd = false := by
  show (!pattern.accepts .inputEnd) = true ↔ _
  rw [Bool.not_eq_true']

theorem predictive_seq :
    (seq p q).predictive = true ↔ p.predictive = true ∧ q.predictive = true ∧ q.soft = false ∧
      apart p.continues q.starts = true := by
  show (p.predictive && q.predictive && !q.soft && apart p.continues q.starts) = true ↔ _
  simp only [Bool.and_eq_true, Bool.not_eq_true', and_assoc]

theorem predictive_choice :
    (choice p q).predictive = true ↔ p.predictive = true ∧ q.predictive = true ∧ p.soft = true ∧
      q.soft = true ∧ apart p.starts q.starts = true := by
  show (p.predictive && q.predictive && p.soft && q.soft && apart p.starts q.starts) = true ↔ _
  simp only [Bool.and_eq_true, and_assoc]

theorem predictive_optional :
    (optional p).predictive = true ↔ p.predictive = true ∧ p.soft = true := by
  show (p.predictive && p.soft) = true ↔ _
  rw [Bool.and_eq_true]

theorem predictive_repeated :
    (repeated p).predictive = true ↔ p.predictive = true ∧ p.soft = true ∧
      apart p.continues p.starts = true := by
  show (p.predictive && p.soft && apart p.continues p.starts) = true ↔ _
  simp only [Bool.and_eq_true, and_assoc]

/-- A repetition is read as the phrase once and then the repetition. -/
theorem predictive_seq_repeated (h : (repeated p).predictive = true) :
    (seq p (repeated p)).predictive = true := by
  obtain ⟨hp, -, hapart⟩ := predictive_repeated.1 h
  exact predictive_seq.2 ⟨hp, h, rfl, hapart⟩

theorem predictive_required :
    (required p expected).predictive = true ↔ p.predictive = true ∧ p.soft = true ∧
      expected ≠ .lessNesting := by
  show (p.predictive && p.soft && decide (expected ≠ .lessNesting)) = true ↔ _
  simp only [Bool.and_eq_true, decide_eq_true_eq, and_assoc]

theorem predictive_bracketed :
    (bracketed p).predictive = true ↔ p.predictive = true ∧ p.soft = false := by
  show (p.predictive && !p.soft) = true ↔ _
  rw [Bool.and_eq_true, Bool.not_eq_true']

/-- The phrases that may turn out not to be there do not derive the empty list. -/
theorem nullable_eq_false_of_soft (hp : p.predictive = true) (hs : p.soft = true) :
    p.nullable = false := by
  induction p with
  | token | rule => rfl
  | seq p q ihp _ =>
    have hnull : p.nullable = false := ihp (predictive_seq.1 hp).1 hs
    rw [nullable_seq, hnull, Bool.false_and]
  | choice p q ihp ihq =>
    obtain ⟨hp, hq, hsp, hsq, -⟩ := predictive_choice.1 hp
    rw [nullable_choice, ihp hp hsp, ihq hq hsq, Bool.false_or]
  | optional | repeated | required | bracketed => exact absurd hs Bool.false_ne_true

end Phrase

/-! ## The rules -/

/-- Going down one rule further adds nothing to the sets, and the grammar is predictive. All of it is
checked at once, rule by rule. -/
theorem Rule.sets_phrase (r : Rule) :
    r.phrase.starts = r.starts ∧ r.phrase.continues = r.continues ∧ r.phrase.predictive = true := by
  have hall : ∀ r ∈ Rule.all,
      r.phrase.starts = r.starts ∧ r.phrase.continues = r.continues ∧ r.phrase.predictive = true := by
    decide +kernel
  exact hall r r.mem_all

theorem Rule.starts_phrase (r : Rule) : r.phrase.starts = r.starts :=
  r.sets_phrase.1

theorem Rule.continues_phrase (r : Rule) : r.phrase.continues = r.continues :=
  r.sets_phrase.2.1

/-- One token of lookahead is enough for every rule. -/
theorem Rule.predictive_phrase (r : Rule) : r.phrase.predictive = true :=
  r.sets_phrase.2.2

theorem Rule.soft_phrase (r : Rule) : r.phrase.soft = true := by
  cases r <;> rfl

theorem Rule.nullable_phrase (r : Rule) : r.phrase.nullable = false := by
  cases r <;> rfl

/-! ## What the sets say of derivations -/

variable {n k : Nat} {p q : Phrase} {t : Token} {u v w : List Token}

/-- Only a nullable phrase derives the empty list. -/
theorem Derives.nullable (h : Derives Rule.phrase n p []) : p.nullable = true := by
  generalize hw : ([] : List Token) = w at h
  induction h with
  | token => cases hw
  | rule _ ih =>
    have hnull := ih hw
    rw [Rule.nullable_phrase] at hnull
    exact absurd hnull Bool.false_ne_true
  | seq _ _ ihp ihq =>
    obtain ⟨hu, hv⟩ := List.nil_eq_append_iff.1 hw
    rw [Phrase.nullable_seq, ihp hu.symm, ihq hv.symm, Bool.and_true]
  | first _ ih => rw [Phrase.nullable_choice, ih hw, Bool.true_or]
  | second _ ih => rw [Phrase.nullable_choice, ih hw, Bool.or_true]
  | absent | present | none | more => rfl
  | required _ ih => exact ih hw
  | bracketed _ ih => exact ih hw

/-- A sentence of a phrase that may turn out not to be there has a first token. -/
theorem Derives.ne_nil (h : Derives Rule.phrase n p w) (hp : p.predictive = true)
    (hs : p.soft = true) : w ≠ [] := by
  intro hw
  subst hw
  have hnull : p.nullable = false := Phrase.nullable_eq_false_of_soft hp hs
  rw [h.nullable] at hnull
  exact absurd hnull.symm Bool.false_ne_true

/-- The first token of a sentence is one of those that start the phrase. -/
theorem Derives.admits_starts (h : Derives Rule.phrase n p (t :: w)) :
    admits p.starts t = true := by
  generalize hx : t :: w = x at h
  induction h generalizing t w with
  | token ht =>
    obtain ⟨rfl, -⟩ := List.cons.inj hx
    rw [Phrase.starts_token, admits, List.any_cons, ht, Bool.true_or]
  | @rule _ r _ _ ih =>
    have hstart := ih hx
    rw [Rule.starts_phrase] at hstart
    exact hstart
  | @seq _ p q u v hp _ ihp ihq =>
    rw [Phrase.starts_seq, admits_append]
    cases u with
    | nil => rw [hp.nullable, if_pos rfl, ihq hx, Bool.or_true]
    | cons c u =>
      obtain ⟨rfl, -⟩ := List.cons.inj hx
      rw [ihp rfl, Bool.true_or]
  | first _ ih => rw [Phrase.starts_choice, admits_append, ih hx, Bool.true_or]
  | second _ ih => rw [Phrase.starts_choice, admits_append, ih hx, Bool.or_true]
  | absent | none => cases hx
  | present _ ih => exact ih hx
  | @more _ p u v _ _ ihp ihrest =>
    cases u with
    | nil => exact ihrest hx
    | cons c u =>
      obtain ⟨rfl, -⟩ := List.cons.inj hx
      exact ihp rfl
  | required _ ih => exact ih hx
  | bracketed _ ih => exact ih hx

/-- A token that begins a sentence is one of those that start the phrase. -/
theorem Viable.admits_starts (h : Viable Rule.phrase p [t]) : admits p.starts t = true := by
  obtain ⟨w, n, hw⟩ := h
  exact hw.admits_starts

/-- The end of the input is part of no sentence. -/
theorem Derives.inputEnd_not_mem (h : Derives Rule.phrase n p w) (hp : p.predictive = true) :
    Token.inputEnd ∉ w := by
  induction h with
  | token ht =>
    intro hmem
    rw [List.mem_singleton] at hmem
    subst hmem
    rw [Phrase.predictive_token, ht] at hp
    exact absurd hp.symm Bool.false_ne_true
  | @rule _ r _ _ ih => exact ih r.predictive_phrase
  | seq _ _ ihp ihq =>
    obtain ⟨hp, hq, -⟩ := Phrase.predictive_seq.1 hp
    intro hmem
    rcases List.mem_append.1 hmem with hmem | hmem
    · exact ihp hp hmem
    · exact ihq hq hmem
  | first _ ih => exact ih (Phrase.predictive_choice.1 hp).1
  | second _ ih => exact ih (Phrase.predictive_choice.1 hp).2.1
  | absent | none => exact List.not_mem_nil
  | present _ ih => exact ih (Phrase.predictive_optional.1 hp).1
  | more _ _ ihp ihrest =>
    intro hmem
    rcases List.mem_append.1 hmem with hmem | hmem
    · exact ihp (Phrase.predictive_repeated.1 hp).1 hmem
    · exact ihrest hp hmem
  | required _ ih => exact ih (Phrase.predictive_required.1 hp).1
  | bracketed _ ih => exact ih (Phrase.predictive_bracketed.1 hp).1

end BugsLang
