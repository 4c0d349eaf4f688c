import BugsLang.Grammar.Rules

/-!
# Derivations

The token lists that a phrase stands for. A derivation is made with a table that says what each
rule consists of, and within a bound on the depth of limited brackets. Nothing in it depends on the
order of alternatives or on where reading is committed: those marks say how a phrase is read, not
what it means.

## Main definitions

* `Derives table n p w`: `w` is an instance of `p` with at most `n` limited brackets open at a time.
* `Sentence table p w`: the same without a bound.
* `Viable table p w`: some sentence of `p` begins with `w`.
-/

namespace BugsLang

/-- The tokens are an instance of the phrase in which at most `n` limited brackets are open at a
time. The table says what the rules consist of. -/
inductive Derives (table : Rule → Phrase) : Nat → Phrase → List Token → Prop where
  | token {n : Nat} {pattern : Pattern} {t : Token} (h : pattern.accepts t = true) :
      Derives table n (.token pattern) [t]
  | rule {n : Nat} {rule : Rule} {w : List Token} (h : Derives table n (table rule) w) :
      Derives table n (.rule rule) w
  | seq {n : Nat} {p q : Phrase} {u v : List Token} (hp : Derives table n p u)
      (hq : Derives table n q v) : Derives table n (.seq p q) (u ++ v)
  | first {n : Nat} {p q : Phrase} {w : List Token} (h : Derives table n p w) :
      Derives table n (.choice p q) w
  | second {n : Nat} {p q : Phrase} {w : List Token} (h : Derives table n q w) :
      Derives table n (.choice p q) w
  | absent {n : Nat} {p : Phrase} : Derives table n (.optional p) []
  | present {n : Nat} {p : Phrase} {w : List Token} (h : Derives table n p w) :
      Derives table n (.optional p) w
  | none {n : Nat} {p : Phrase} : Derives table n (.repeated p) []
  | more {n : Nat} {p : Phrase} {u v : List Token} (hp : Derives table n p u)
      (hrest : Derives table n (.repeated p) v) : Derives table n (.repeated p) (u ++ v)
  | required {n : Nat} {p : Phrase} {expected : Expectation} {w : List Token}
      (h : Derives table n p w) : Derives table n (.required p expected) w
  | bracketed {n : Nat} {p : Phrase} {w : List Token} (h : Derives table n p w) :
      Derives table (n + 1) (.bracketed p) w

/-- The tokens are an instance of the phrase, however deep brackets are nested in it. -/
def Sentence (table : Rule → Phrase) (p : Phrase) (w : List Token) : Prop :=
  ∃ n, Derives table n p w

/-- Some sentence of the phrase begins with the tokens. -/
def Viable (table : Rule → Phrase) (p : Phrase) (w : List Token) : Prop :=
  ∃ v, Sentence table p (w ++ v)

variable {table : Rule → Phrase} {n : Nat} {p q : Phrase} {u v w : List Token}

/-! ## Derivations, phrase by phrase -/

theorem derives_token_iff {pattern : Pattern} :
    Derives table n (.token pattern) w ↔ ∃ t, pattern.accepts t = true ∧ w = [t] := by
  constructor
  · intro h
    cases h with
    | token ht => exact ⟨_, ht, rfl⟩
  · rintro ⟨t, ht, rfl⟩
    exact .token ht

theorem derives_rule_iff {rule : Rule} :
    Derives table n (.rule rule) w ↔ Derives table n (table rule) w := by
  constructor
  · intro h
    cases h with
    | rule h => exact h
  · exact .rule

theorem derives_seq_iff :
    Derives table n (.seq p q) w ↔
      ∃ u v, w = u ++ v ∧ Derives table n p u ∧ Derives table n q v := by
  constructor
  · intro h
    cases h with
    | seq hp hq => exact ⟨_, _, rfl, hp, hq⟩
  · rintro ⟨u, v, rfl, hp, hq⟩
    exact .seq hp hq

theorem derives_choice_iff :
    Derives table n (.choice p q) w ↔ Derives table n p w ∨ Derives table n q w := by
  constructor
  · intro h
    cases h with
    | first h => exact .inl h
    | second h => exact .inr h
  · rintro (h | h)
    · exact .first h
    · exact .second h

theorem derives_optional_iff :
    Derives table n (.optional p) w ↔ w = [] ∨ Derives table n p w := by
  constructor
  · intro h
    cases h with
    | absent => exact .inl rfl
    | present h => exact .inr h
  · rintro (rfl | h)
    · exact .absent
    · exact .present h

/-- A repetition is nothing, or the phrase once and then a repetition. -/
theorem derives_repeated_iff :
    Derives table n (.repeated p) w ↔ w = [] ∨ Derives table n (.seq p (.repeated p)) w := by
  constructor
  · intro h
    cases h with
    | none => exact .inl rfl
    | more hp hrest => exact .inr (.seq hp hrest)
  · rintro (rfl | h)
    · exact .none
    · obtain ⟨u, v, rfl, hp, hrest⟩ := derives_seq_iff.1 h
      exact .more hp hrest

theorem derives_required_iff {expected : Expectation} :
    Derives table n (.required p expected) w ↔ Derives table n p w := by
  constructor
  · intro h
    cases h with
    | required h => exact h
  · exact .required

theorem derives_bracketed_iff :
    Derives table n (.bracketed p) w ↔ ∃ k, n = k + 1 ∧ Derives table k p w := by
  constructor
  · intro h
    cases h with
    | bracketed h => exact ⟨_, rfl, h⟩
  · rintro ⟨k, rfl, h⟩
    exact .bracketed h

/-- What stays within a bound stays within a larger one. -/
theorem Derives.mono {m : Nat} (h : Derives table n p w) (hle : n ≤ m) : Derives table m p w := by
  induction h generalizing m with
  | token ht => exact .token ht
  | rule _ ih => exact .rule (ih hle)
  | seq _ _ ihp ihq => exact .seq (ihp hle) (ihq hle)
  | first _ ih => exact .first (ih hle)
  | second _ ih => exact .second (ih hle)
  | absent => exact .absent
  | present _ ih => exact .present (ih hle)
  | none => exact .none
  | more _ _ ihp ihrest => exact .more (ihp hle) (ihrest hle)
  | required _ ih => exact .required (ih hle)
  | bracketed _ ih =>
    obtain ⟨k, rfl⟩ := Nat.exists_eq_add_of_le' (Nat.le_of_add_left_le hle)
    exact .bracketed (ih (by omega))

/-! ## Sentences and how they begin -/

theorem Derives.sentence (h : Derives table n p w) : Sentence table p w :=
  ⟨n, h⟩

theorem Sentence.viable (h : Sentence table p w) : Viable table p w :=
  ⟨[], by rwa [List.append_nil]⟩

/-- The beginning of a viable list is viable. -/
theorem Viable.of_append (h : Viable table p (u ++ v)) : Viable table p u := by
  obtain ⟨x, hx⟩ := h
  rw [List.append_assoc] at hx
  exact ⟨v ++ x, hx⟩

theorem Sentence.seq (hp : Sentence table p u) (hq : Sentence table q v) :
    Sentence table (.seq p q) (u ++ v) := by
  obtain ⟨n, hp⟩ := hp
  obtain ⟨k, hq⟩ := hq
  exact ⟨max n k, .seq (hp.mono (Nat.le_max_left n k)) (hq.mono (Nat.le_max_right n k))⟩

/-- A beginning of the first phrase begins the sequence, if the second phrase has a sentence. -/
theorem Viable.seq_left (hp : Viable table p w) (hq : Sentence table q v) :
    Viable table (.seq p q) w := by
  obtain ⟨x, hx⟩ := hp
  refine ⟨x ++ v, ?_⟩
  rw [← List.append_assoc]
  exact hx.seq hq

/-- A sentence of the first phrase and a beginning of the second begin the sequence. -/
theorem Viable.seq_right (hp : Sentence table p u) (hq : Viable table q w) :
    Viable table (.seq p q) (u ++ w) := by
  obtain ⟨x, hx⟩ := hq
  refine ⟨x, ?_⟩
  rw [List.append_assoc]
  exact hp.seq hx

end BugsLang
