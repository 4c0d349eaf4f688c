import BugsLang.Proofs.Grammar.Derivation
import Mathlib.Tactic.Tauto

/-!
# The definition of the language

`Rule.definition` is the grammar as one writes it down to say what the language is. It knows nothing
of reading: no place is marked as committed, an optional part is an optional part, and a limited
bracket is the bracket with both of its symbols. `Rule.phrase`, which reading follows, has the same
derivations at every bound on the nesting.

## Main statements

* `derives_phrase_iff_derives_definition`: the two grammars agree on every rule and every bound.
* `sentence_phrase_eq`, `viable_phrase_eq`: so they agree on sentences and on how sentences begin.
* `exists_sentence`: every phrase has a sentence.
-/

namespace BugsLang

open Phrase

/-- What the language defines the rule to be. -/
def Rule.definition : Rule → Phrase
  -- definitions
  | program => optional (rule shared) ++ rule bug ++ repeated (rule bug)
  | shared =>
    reserved "Allbugs" ++ symbol openBrace ++ rule lineEnd ++ repeated (rule declaration) ++
      repeated (rule function) ++ symbol closeBrace ++ rule lineEnd
  | bug =>
    reserved "Bug" ++ anyName ++ symbol openBrace ++ rule lineEnd ++
      repeated (rule declaration) ++ optional (rule startup) ++ rule command ++
      repeated (rule command) ++ repeated (rule function) ++ symbol closeBrace ++ rule lineEnd
  | declaration => reserved "var" ++ commaSeparated anyName ++ rule lineEnd
  | startup => reserved "initially" ++ rule block
  | function =>
    reserved "define" ++ anyName ++
      optional (reserved "using" ++ commaSeparated (rule variableName)) ++ rule block
  | block =>
    bracketed (symbol openBrace ++
      (rule lineEnd ++ repeated (rule command) ++ symbol closeBrace ++ rule lineEnd))
  | command => rule action <|> rule statement
  -- actions
  | action => rule move <|> rule moveTo <|> rule turn <|> rule turnTo <|> rule line
  | move => reserved "move" ++ rule expression ++ rule lineEnd
  | moveTo =>
    reserved "moveto" ++ rule expression ++ symbol "," ++ rule expression ++ rule lineEnd
  | turn => reserved "turn" ++ rule expression ++ rule lineEnd
  | turnTo => reserved "turnto" ++ rule expression ++ rule lineEnd
  | line =>
    reserved "line" ++ rule expression ++ symbol "," ++ rule expression ++ symbol "," ++
      rule expression ++ symbol "," ++ rule expression ++ rule lineEnd
  -- statements
  | statement =>
    rule assignment <|> rule loop <|> rule exitIf <|> rule switch <|> rule returnValue <|>
      rule invocation <|> rule color
  | assignment => rule variableName ++ symbol "=" ++ rule expression ++ rule lineEnd
  | loop => reserved "loop" ++ rule block
  | exitIf => reserved "exit" ++ reserved "if" ++ rule expression ++ rule lineEnd
  | switch =>
    reserved "switch" ++ symbol openBrace ++ rule lineEnd ++
      repeated (reserved "case" ++ rule expression ++ rule lineEnd ++ repeated (rule command)) ++
      symbol closeBrace ++ rule lineEnd
  | returnValue => reserved "return" ++ rule expression ++ rule lineEnd
  | invocation =>
    reserved "do" ++ rule variableName ++ optional (rule arguments) ++ rule lineEnd
  | color => reserved "color" ++ token .color ++ rule lineEnd
  -- expressions
  | expression => rule sum ++ repeated (rule comparison ++ rule sum)
  | sum => rule term ++ repeated (rule plusOrMinus ++ rule term)
  | term => rule factor ++ repeated (rule timesOrOver ++ rule factor)
  | factor => optional (rule plusOrMinus) ++ rule operand
  | operand =>
    rule variableName ++ optional (symbol "." ++ anyName <|> rule arguments) <|>
      anyNumber <|>
      bracketed (symbol "(" ++ (rule expression ++ symbol ")"))
  | arguments =>
    bracketed (symbol "(" ++
      (optional (rule expression ++ repeated (symbol "," ++ rule expression)) ++ symbol ")"))
  | call => rule variableName ++ rule arguments
  -- single tokens
  | comparison =>
    symbol "<" ++ optional (symbol "=") <|> symbol "=" <|> symbol "!" ++ optional (symbol "=") <|>
      symbol ">" ++ optional (symbol "=")
  | plusOrMinus => symbol "+" <|> symbol "-"
  | timesOrOver => symbol "*" <|> symbol "/"
  | variableName => anyName
  | lineEnd => oneLineEnd ++ repeated oneLineEnd

/-! ## Leaving out the marks of reading -/

/-- The phrase without the places where reading is committed. -/
def Phrase.plain : Phrase → Phrase
  | token pattern => token pattern
  | rule r => rule r
  | seq p q => seq p.plain q.plain
  | choice p q => choice p.plain q.plain
  | optional p => optional p.plain
  | repeated p => repeated p.plain
  | required p _ => p.plain
  | bracketed p => bracketed p.plain

section

variable {table : Rule → Phrase} {n : Nat} {p q : Phrase} {w : List Token}

/-- Repeating phrases with the same derivations gives phrases with the same derivations. -/
theorem derives_repeated_of_imp (h : ∀ w, Derives table n p w → Derives table n q w)
    (hp : Derives table n (.repeated p) w) : Derives table n (.repeated q) w := by
  generalize hr : Phrase.repeated p = r at hp
  induction hp with
  | none => exact .none
  | more hfirst hrest _ ihrest =>
    cases hr
    exact .more (h _ hfirst) (ihrest h rfl)
  | _ => cases hr

/-- The marks make no difference to what is derived. -/
theorem derives_plain_iff : Derives table n p.plain w ↔ Derives table n p w := by
  induction p generalizing n w with
  | token | rule => exact Iff.rfl
  | seq p q ihp ihq =>
    rw [plain, derives_seq_iff, derives_seq_iff]
    simp only [ihp, ihq]
  | choice p q ihp ihq => rw [plain, derives_choice_iff, derives_choice_iff, ihp, ihq]
  | optional p ih => rw [plain, derives_optional_iff, derives_optional_iff, ih]
  | repeated p ih =>
    constructor
    · exact derives_repeated_of_imp fun _ => ih.1
    · exact derives_repeated_of_imp fun _ => ih.2
  | required p _ ih => rw [plain, derives_required_iff, ih]
  | bracketed p ih =>
    rw [plain, derives_bracketed_iff, derives_bracketed_iff]
    simp only [ih]

/-- A token in front of a limited bracket may as well stand in it. -/
theorem derives_token_bracketed_iff {pattern : Pattern} :
    Derives table n (.seq (.token pattern) (.bracketed p)) w ↔
      Derives table n (.bracketed (.seq (.token pattern) p)) w := by
  simp only [derives_seq_iff, derives_bracketed_iff, derives_token_iff]
  constructor
  · rintro ⟨u, v, rfl, ht, k, rfl, hp⟩
    exact ⟨k, rfl, u, v, rfl, ht, hp⟩
  · rintro ⟨k, rfl, u, v, rfl, ht, hp⟩
    exact ⟨u, v, rfl, ht, k, rfl, hp⟩

/-- What may stand in front of a phrase makes a choice of two phrases. -/
theorem derives_optional_seq_iff :
    Derives table n (.seq (.optional p) q) w ↔ Derives table n (.choice (.seq p q) q) w := by
  simp only [derives_seq_iff, derives_choice_iff, derives_optional_iff]
  constructor
  · rintro ⟨u, v, rfl, rfl | hp, hq⟩
    · exact .inr hq
    · exact .inl ⟨u, v, rfl, hp, hq⟩
  · rintro (⟨u, v, rfl, hp, hq⟩ | hq)
    · exact ⟨u, v, rfl, .inr hp, hq⟩
    · exact ⟨[], w, rfl, .inl rfl, hq⟩

/-- A choice in front of a phrase is a choice of two sequences. -/
theorem derives_choice_seq_iff {r : Phrase} :
    Derives table n (.seq (.choice p q) r) w ↔
      Derives table n (.seq p r) w ∨ Derives table n (.seq q r) w := by
  simp only [derives_seq_iff, derives_choice_iff]
  constructor
  · rintro ⟨u, v, rfl, hp | hq, hr⟩
    · exact .inl ⟨u, v, rfl, hp, hr⟩
    · exact .inr ⟨u, v, rfl, hq, hr⟩
  · rintro (⟨u, v, rfl, hp, hr⟩ | ⟨u, v, rfl, hq, hr⟩)
    · exact ⟨u, v, rfl, .inl hp, hr⟩
    · exact ⟨u, v, rfl, .inr hq, hr⟩

end

/-! ## The two grammars -/

/-- Under any table, what is read as a rule has the derivations of what defines the rule. -/
theorem derives_phrase_iff {table : Rule → Phrase} {n : Nat} {w : List Token} (r : Rule) :
    Derives table n r.phrase w ↔ Derives table n r.definition w := by
  rw [← derives_plain_iff]
  cases r with
  | program =>
    show Derives table n (seq _ _) w ↔ Derives table n (seq _ _) w
    rw [derives_seq_iff, derives_seq_iff]
    refine exists_congr fun u => exists_congr fun v => and_congr_right fun _ => ?_
    exact and_congr_left fun _ => derives_optional_seq_iff.symm
  | block => exact derives_token_bracketed_iff
  | factor => exact derives_optional_seq_iff.symm
  | operand =>
    show Derives table n (choice _ (choice _ _)) w ↔ Derives table n (choice _ (choice _ _)) w
    rw [derives_choice_iff, derives_choice_iff, derives_choice_iff, derives_choice_iff]
    exact or_congr Iff.rfl (or_congr Iff.rfl derives_token_bracketed_iff)
  | arguments => exact derives_token_bracketed_iff
  | comparison =>
    show Derives table n (choice (seq (choice _ (choice _ _)) _) _) w ↔
      Derives table n (choice _ (choice _ (choice _ _))) w
    simp only [derives_choice_seq_iff, derives_choice_iff]
    tauto
  | _ => exact Iff.rfl

/-- A table whose rules mean no more than those of another derives no more. -/
theorem Derives.of_table {table other : Rule → Phrase}
    (hrule : ∀ r n w, Derives other n (table r) w → Derives other n (other r) w)
    {n : Nat} {p : Phrase} {w : List Token} (h : Derives table n p w) : Derives other n p w := by
  induction h with
  | token ht => exact .token ht
  | rule _ ih => exact .rule (hrule _ _ _ ih)
  | seq _ _ ihp ihq => exact .seq ihp ihq
  | first _ ih => exact .first ih
  | second _ ih => exact .second ih
  | absent => exact .absent
  | present _ ih => exact .present ih
  | none => exact .none
  | more _ _ ihp ihrest => exact .more ihp ihrest
  | required _ ih => exact .required ih
  | bracketed _ ih => exact .bracketed ih

/-- The grammar that reading follows is that of the language, at every bound on the nesting. -/
theorem derives_phrase_iff_derives_definition {n : Nat} {p : Phrase} {w : List Token} :
    Derives Rule.phrase n p w ↔ Derives Rule.definition n p w := by
  constructor
  · exact Derives.of_table fun r _ _ => (derives_phrase_iff r).1
  · exact Derives.of_table fun r _ _ => (derives_phrase_iff r).2

theorem sentence_phrase_eq : Sentence Rule.phrase = Sentence Rule.definition := by
  funext p w
  unfold Sentence
  simp only [derives_phrase_iff_derives_definition]

theorem viable_phrase_eq : Viable Rule.phrase = Viable Rule.definition := by
  funext p w
  unfold Viable
  rw [sentence_phrase_eq]

/-! ## No phrase is without sentences -/

theorem Pattern.exists_accepts (pattern : Pattern) : ∃ t, pattern.accepts t = true := by
  cases pattern with
  | kind k => exact ⟨⟨k, ""⟩, by simp [accepts]⟩
  | exact t => exact ⟨t, by simp [accepts]⟩
  | color => exact ⟨⟨.reserved, ""⟩, by simp [accepts]⟩

/-- Whether a sentence of the phrase can be made up, given the rules that have one. -/
def Phrase.inhabitedGiven (ofRule : Rule → Bool) : Phrase → Bool
  | token _ | optional _ | repeated _ => true
  | rule r => ofRule r
  | seq p q => p.inhabitedGiven ofRule && q.inhabitedGiven ofRule
  | choice p q => p.inhabitedGiven ofRule || q.inhabitedGiven ofRule
  | required p _ | bracketed p => p.inhabitedGiven ofRule

/-- Whether the rule has a sentence made by going down at most `n` rules. -/
def Rule.inhabitedWithin : Nat → Rule → Bool
  | 0, _ => false
  | n + 1, r => r.phrase.inhabitedGiven (inhabitedWithin n)

theorem Phrase.exists_sentence_of_inhabitedGiven {ofRule : Rule → Bool} {p : Phrase}
    (hrule : ∀ r, ofRule r = true → ∃ w, Sentence Rule.phrase (.rule r) w)
    (hp : p.inhabitedGiven ofRule = true) : ∃ w, Sentence Rule.phrase p w := by
  induction p with
  | token pattern =>
    obtain ⟨t, ht⟩ := pattern.exists_accepts
    exact ⟨[t], 0, .token ht⟩
  | rule r => exact hrule r hp
  | seq p q ihp ihq =>
    rw [inhabitedGiven, Bool.and_eq_true] at hp
    obtain ⟨u, hu⟩ := ihp hp.1
    obtain ⟨v, hv⟩ := ihq hp.2
    exact ⟨u ++ v, hu.seq hv⟩
  | choice p q ihp ihq =>
    rw [inhabitedGiven, Bool.or_eq_true] at hp
    rcases hp with hp | hq
    · obtain ⟨w, n, hw⟩ := ihp hp
      exact ⟨w, n, .first hw⟩
    · obtain ⟨w, n, hw⟩ := ihq hq
      exact ⟨w, n, .second hw⟩
  | optional => exact ⟨[], 0, .absent⟩
  | repeated => exact ⟨[], 0, .none⟩
  | required p _ ih =>
    obtain ⟨w, n, hw⟩ := ih hp
    exact ⟨w, n, .required hw⟩
  | bracketed p ih =>
    obtain ⟨w, n, hw⟩ := ih hp
    exact ⟨w, n + 1, .bracketed hw⟩

theorem Rule.exists_sentence_of_inhabitedWithin {n : Nat} {r : Rule}
    (h : inhabitedWithin n r = true) : ∃ w, Sentence Rule.phrase (.rule r) w := by
  induction n generalizing r with
  | zero => exact absurd h Bool.false_ne_true
  | succ n ih =>
    obtain ⟨w, k, hw⟩ := Phrase.exists_sentence_of_inhabitedGiven (fun _ => ih) h
    exact ⟨w, k, .rule hw⟩

/-- Every rule has a sentence, and so has every phrase. -/
theorem exists_sentence (p : Phrase) : ∃ w, Sentence Rule.phrase p w := by
  have hrule : ∀ r, ∃ w, Sentence Rule.phrase (.rule r) w := by
    intro r
    have hr : Rule.inhabitedWithin 11 r = true := by cases r <;> rfl
    exact Rule.exists_sentence_of_inhabitedWithin hr
  refine @Phrase.exists_sentence_of_inhabitedGiven (fun _ => true) p (fun r _ => hrule r) ?_
  induction p with
  | seq p q ihp ihq => rw [Phrase.inhabitedGiven, ihp, ihq, Bool.and_true]
  | choice p q ihp ihq => rw [Phrase.inhabitedGiven, ihp, Bool.true_or]
  | required p _ ih => exact ih
  | bracketed p ih => exact ih
  | _ => rfl

end BugsLang
