import BugsLang.Proofs.Grammar.Definition

/-!
# Rules that are begun and not finished

A sentence is cut in two. In a derivation of it some rules have instances with tokens on both sides
of the cut: they are begun in front of it and not finished there. `Unfinished` says which. As with
derivations, what is unfinished in the grammar that reading follows is unfinished in the language.

## Main definitions

* `Part table p whole x y`: an instance of `p` between `x` and `y` makes an instance of `whole`.
* `Unfinished table r p u v`: `u ++ v` is a sentence of `p`, derived in such a way that an instance
  of `r` is not finished between `u` and `v`.

## Main statements

* `Unfinished.sentence`: what is unfinished can be finished.
* `Unfinished.definition`: what is unfinished in reading is unfinished in the language.
-/

namespace BugsLang

/-- An instance of the phrase `p` with the tokens `x` before it and `y` after it is an instance of
`whole`, of which `p` is a part. -/
inductive Part (table : Rule → Phrase) :
    (p whole : Phrase) → (x y : List Token) → Prop where
  | left {p q : Phrase} {y : List Token} (hq : Sentence table q y) :
      Part table p (.seq p q) [] y
  | right {p q : Phrase} {x : List Token} (hp : Sentence table p x) :
      Part table q (.seq p q) x []
  | first {p q : Phrase} : Part table p (.choice p q) [] []
  | second {p q : Phrase} : Part table q (.choice p q) [] []
  | present {p : Phrase} : Part table p (.optional p) [] []
  | once {p : Phrase} {y : List Token} (hrest : Sentence table (.repeated p) y) :
      Part table p (.repeated p) [] y
  | more {p : Phrase} {x : List Token} (hp : Sentence table p x) :
      Part table (.repeated p) (.repeated p) x []
  | required {p : Phrase} {expected : Expectation} : Part table p (.required p expected) [] []
  | bracketed {p : Phrase} : Part table p (.bracketed p) [] []

/-- The two lists make up a sentence of the phrase, and it has a derivation in which an instance of
the rule `r` has tokens of both lists: it is begun in the first and not finished there. -/
inductive Unfinished (table : Rule → Phrase) (r : Rule) :
    Phrase → (u v : List Token) → Prop where
  /-- The instance is all of the sentence. -/
  | here {u v : List Token} (hu : u ≠ []) (hv : v ≠ [])
      (h : Sentence table (table r) (u ++ v)) : Unfinished table r (.rule r) u v
  /-- It lies within an instance of a rule. -/
  | inside {s : Rule} {u v : List Token} (h : Unfinished table r (table s) u v) :
      Unfinished table r (.rule s) u v
  /-- It lies within a part of the phrase. -/
  | part {p whole : Phrase} {x y u v : List Token} (hpart : Part table p whole x y)
      (h : Unfinished table r p u v) : Unfinished table r whole (x ++ u) (v ++ y)

variable {table : Rule → Phrase} {r : Rule} {p q whole : Phrase} {u v w x y : List Token}

/-! ## Sentences -/

/-- A sentence of a part makes a sentence of the whole. -/
theorem Part.sentence (hpart : Part table p whole x y) (h : Sentence table p w) :
    Sentence table whole (x ++ w ++ y) := by
  obtain ⟨n, hw⟩ := h
  cases hpart with
  | left hq => exact hw.sentence.seq hq
  | right hp =>
    rw [List.append_nil]
    exact hp.seq hw.sentence
  | first =>
    rw [List.append_nil]
    exact ⟨n, .first hw⟩
  | second =>
    rw [List.append_nil]
    exact ⟨n, .second hw⟩
  | present =>
    rw [List.append_nil]
    exact ⟨n, .present hw⟩
  | once hrest =>
    obtain ⟨k, h⟩ := hw.sentence.seq hrest
    exact ⟨k, derives_repeated_iff.2 (.inr h)⟩
  | more hp =>
    obtain ⟨k, h⟩ := hp.seq hw.sentence
    rw [List.append_nil]
    exact ⟨k, derives_repeated_iff.2 (.inr h)⟩
  | required =>
    rw [List.append_nil]
    exact ⟨n, .required hw⟩
  | bracketed =>
    rw [List.append_nil]
    exact ⟨n + 1, .bracketed hw⟩

namespace Unfinished

/-- What is unfinished can be finished. -/
theorem sentence (h : Unfinished table r p u v) : Sentence table p (u ++ v) := by
  induction h with
  | here _ _ h =>
    obtain ⟨n, h⟩ := h
    exact ⟨n, .rule h⟩
  | inside _ ih =>
    obtain ⟨n, h⟩ := ih
    exact ⟨n, .rule h⟩
  | @part _ _ x y u v hpart _ ih =>
    have hwhole := hpart.sentence ih
    rwa [← List.append_assoc, List.append_assoc x u v]

/-- What is unfinished in a part that is all of the phrase is unfinished in the phrase. -/
theorem of_part (h : Unfinished table r p u v) (hpart : Part table p whole [] []) :
    Unfinished table r whole u v := by
  rw [← List.append_nil v]
  exact .part hpart h

end Unfinished

/-! ## What is unfinished, phrase by phrase -/

/-- Whether the phrase names a rule. -/
def Phrase.namesRule : Phrase → Bool
  | token _ => false
  | rule _ => true
  | seq p q | choice p q => p.namesRule || q.namesRule
  | optional p | repeated p | required p _ | bracketed p => p.namesRule

/-- Nothing is unfinished in a phrase that names no rule. -/
theorem Unfinished.namesRule (h : Unfinished table r p u v) : p.namesRule = true := by
  induction h with
  | here | inside => rfl
  | part hpart _ ih =>
    cases hpart with
    | left | first => rw [Phrase.namesRule, ih, Bool.true_or]
    | right | second => rw [Phrase.namesRule, ih, Bool.or_true]
    | present | once | more | required | bracketed => exact ih

theorem unfinished_seq_iff :
    Unfinished table r (.seq p q) u v ↔
      (∃ v' y, v = v' ++ y ∧ Unfinished table r p u v' ∧ Sentence table q y) ∨
        ∃ x u', u = x ++ u' ∧ Sentence table p x ∧ Unfinished table r q u' v := by
  constructor
  · intro h
    cases h with
    | part hpart h =>
    cases hpart with
    | left hq => exact .inl ⟨_, _, rfl, h, hq⟩
    | right hp => exact .inr ⟨_, _, rfl, hp, by rwa [List.append_nil]⟩
  · rintro (⟨v, y, rfl, hp, hq⟩ | ⟨x, u, rfl, hp, hq⟩)
    · exact .part (.left hq) hp
    · rw [← List.append_nil v]
      exact .part (.right hp) hq

theorem unfinished_choice_iff :
    Unfinished table r (.choice p q) u v ↔ Unfinished table r p u v ∨ Unfinished table r q u v := by
  constructor
  · intro h
    cases h with
    | part hpart h =>
    cases hpart with
    | first => exact .inl (by rwa [List.append_nil])
    | second => exact .inr (by rwa [List.append_nil])
  · rintro (h | h)
    · exact h.of_part .first
    · exact h.of_part .second

theorem unfinished_bracketed_iff :
    Unfinished table r (.bracketed p) u v ↔ Unfinished table r p u v := by
  constructor
  · intro h
    cases h with
    | part hpart h =>
    cases hpart with
    | bracketed => rwa [List.append_nil]
  · exact fun h => h.of_part .bracketed

/-! ## The two grammars -/

/-- A part in the grammar that reading follows is a part in the language. -/
theorem Part.definition (h : Part Rule.phrase p whole x y) : Part Rule.definition p whole x y := by
  cases h with
  | left hq => exact .left (sentence_phrase_eq ▸ hq)
  | right hp => exact .right (sentence_phrase_eq ▸ hp)
  | first => exact .first
  | second => exact .second
  | present => exact .present
  | once hrest => exact .once (sentence_phrase_eq ▸ hrest)
  | more hp => exact .more (sentence_phrase_eq ▸ hp)
  | required => exact .required
  | bracketed => exact .bracketed

namespace Unfinished

/-- The marks of reading make no difference to what is unfinished. -/
theorem plain (h : Unfinished table r p u v) : Unfinished table r p.plain u v := by
  have hsentence : ∀ {q : Phrase} {w : List Token}, Sentence table q w → Sentence table q.plain w :=
    fun hq => hq.imp fun _ => derives_plain_iff.2
  induction h with
  | here hu hv h => exact .here hu hv h
  | inside h => exact .inside h
  | part hpart _ ih =>
    cases hpart with
    | left hq => exact .part (.left (hsentence hq)) ih
    | right hp => exact .part (.right (hsentence hp)) ih
    | first => exact .part .first ih
    | second => exact .part .second ih
    | present => exact .part .present ih
    | once hrest => exact .part (.once (hsentence hrest)) ih
    | more hp => exact .part (.more (hsentence hp)) ih
    | required => rwa [List.append_nil]
    | bracketed => exact .part .bracketed ih

/-- A token in front of a limited bracket may as well stand in it. -/
theorem token_bracketed {pattern : Pattern}
    (h : Unfinished table r (.seq (.token pattern) (.bracketed p)) u v) :
    Unfinished table r (.bracketed (.seq (.token pattern) p)) u v := by
  rw [unfinished_seq_iff] at h
  rw [unfinished_bracketed_iff, unfinished_seq_iff]
  rcases h with ⟨_, _, _, ht, _⟩ | ⟨x, u, rfl, ht, hp⟩
  · exact absurd ht.namesRule Bool.false_ne_true
  · exact .inr ⟨x, u, rfl, ht, unfinished_bracketed_iff.1 hp⟩

/-- What may stand in front of a phrase makes a choice of two phrases. -/
theorem optional_seq (h : Unfinished table r (.choice (.seq p q) q) u v) :
    Unfinished table r (.seq (.optional p) q) u v := by
  rw [unfinished_choice_iff, unfinished_seq_iff] at h
  rw [unfinished_seq_iff]
  rcases h with (⟨v, y, rfl, hp, hq⟩ | ⟨x, u, rfl, hp, hq⟩) | hq
  · exact .inl ⟨v, y, rfl, hp.of_part .present, hq⟩
  · exact .inr ⟨x, u, rfl, hp.imp fun _ => .present, hq⟩
  · exact .inr ⟨[], u, rfl, ⟨0, .absent⟩, hq⟩

/-- Under any table, what is unfinished in what is read as a rule is unfinished in what defines the
rule. -/
theorem of_phrase {s : Rule} (h : Unfinished table r s.phrase u v) :
    Unfinished table r s.definition u v := by
  have h := h.plain
  cases s with
  | program =>
    rcases unfinished_seq_iff.1 h with ⟨v, y, rfl, hp, hq⟩ | ⟨x, u, rfl, ⟨n, hp⟩, hq⟩
    · exact .part (.left hq) hp.optional_seq
    · exact unfinished_seq_iff.2 (.inr ⟨x, u, rfl, ⟨n, derives_optional_seq_iff.2 hp⟩, hq⟩)
  | block => exact h.token_bracketed
  | factor => exact h.optional_seq
  | operand =>
    rcases unfinished_choice_iff.1 h with h | h
    · exact h.of_part .first
    · rcases unfinished_choice_iff.1 h with h | h
      · exact (h.of_part .first).of_part .second
      · exact (h.token_bracketed.of_part .second).of_part .second
  | arguments => exact h.token_bracketed
  | comparison => exact absurd h.namesRule Bool.false_ne_true
  | _ => exact h

/-- What is unfinished in the grammar that reading follows is unfinished in the language. -/
theorem definition (h : Unfinished Rule.phrase r p u v) : Unfinished Rule.definition r p u v := by
  induction h with
  | here hu hv h =>
    rw [sentence_phrase_eq] at h
    exact .here hu hv (h.imp fun _ => (derives_phrase_iff r).1)
  | inside _ ih => exact .inside ih.of_phrase
  | part hpart _ ih => exact .part hpart.definition ih

end Unfinished

end BugsLang
