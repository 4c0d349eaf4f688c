import BugsLang.Diagnostic
import BugsLang.Grammar.Rules
import BugsLang.Reader

/-!
# Matching rules

For every rule of the grammar a matcher says whether the unread tokens start with an instance of
it. There are three outcomes: the rule matches and its tokens are read, it does not match and
nothing is read, or it was committed and cannot go on. In the last case the token that does not fit
is the next one unread, and matching can be taken up from there.

## Main definitions

* `Matcher.run`: matches a phrase, with a bound on the depth of recursion.
* `Matcher.attempt`: matches a rule.

## Implementation notes

Every step of `run` either reads a token or moves on within the grammar, which has no left
recursion. So a bound proportional to the length of the unread text is never reached.
-/

namespace BugsLang

/-- How deep blocks, parentheses and arguments may be nested, counted together. -/
def nestingLimit : Nat := 100

/-- What comes of matching a rule. -/
inductive Outcome where
  /-- The unread tokens started with an instance of the rule, which has been read. -/
  | matched
  /-- They do not start with one, and nothing has been read. -/
  | unmatched
  /-- The rule was committed and could not go on. -/
  | fault (diagnostic : Diagnostic)
deriving DecidableEq, Repr

/-- A reader of phrases. -/
structure Matcher where
  /-- The source of tokens. -/
  reader : Reader
  /-- The number of limited brackets that are open. -/
  depth : Nat
deriving DecidableEq, Repr

namespace Matcher

/-- The matcher at the start of a source. -/
def ofSource (source : String) : Matcher :=
  ⟨.ofSource source, 0⟩

/-- Reads the next token if it is in the set. -/
def take (m : Matcher) (pattern : Pattern) : Bool × Matcher :=
  let step := m.reader.read
  if pattern.accepts step.1.token then
    (true, { m with reader := step.2 })
  else
    (false, { m with reader := step.2.putBack })

/-- Reports that the rule expected something else than the next token, which stays unread. -/
def refuse (m : Matcher) (rule : Rule) (expected : Expectation) : Outcome × Matcher :=
  let step := m.reader.read
  (.fault ⟨rule, expected, step.1⟩, { m with reader := step.2.putBack })

/-- Whether as many brackets are open as the limit allows. Without a limit there is always room. -/
def isFull (m : Matcher) (limit : Option Nat) : Bool :=
  limit.any (· ≤ m.depth)

/-- Matches a phrase that stands within the given rule, or gives up with `none` if that takes more
than `fuel` nested steps. -/
def run (limit : Option Nat) :
    (fuel : Nat) → (within : Rule) → Phrase → Matcher → Option (Outcome × Matcher)
  | 0, _, _, _ => none
  | _ + 1, _, .token pattern, m =>
    let step := m.take pattern
    some (if step.1 then .matched else .unmatched, step.2)
  | fuel + 1, _, .rule rule, m => run limit fuel rule rule.phrase m
  | fuel + 1, within, .seq p q, m =>
    match run limit fuel within p m with
    | some (.matched, m) => run limit fuel within q m
    | other => other
  | fuel + 1, within, .choice p q, m =>
    match run limit fuel within p m with
    | some (.unmatched, m) => run limit fuel within q m
    | other => other
  | fuel + 1, within, .optional p, m =>
    match run limit fuel within p m with
    | some (.unmatched, m) => some (.matched, m)
    | other => other
  | fuel + 1, within, .repeated p, m =>
    match run limit fuel within p m with
    | some (.matched, m) => run limit fuel within (.repeated p) m
    | some (.unmatched, m) => some (.matched, m)
    | other => other
  | fuel + 1, within, .required p expected, m =>
    match run limit fuel within p m with
    | some (.unmatched, m) => some (m.refuse within expected)
    | other => other
  | fuel + 1, within, .bracketed p, m =>
    if m.isFull limit then
      some (m.refuse within .lessNesting)
    else
      match run limit fuel within p { m with depth := m.depth + 1 } with
      | some (outcome, m) => some (outcome, { m with depth := m.depth - 1 })
      | none => none

/-- A bound on the depth of recursion that no phrase of the grammar reaches. -/
def fuel (m : Matcher) : Nat :=
  100 * (m.reader.here.text.length + 1)

/-- Matches the rule. -/
def attempt (m : Matcher) (rule : Rule) : Outcome × Matcher :=
  (run (some nestingLimit) m.fuel rule rule.phrase m).getD (.unmatched, m)

end Matcher

end BugsLang
