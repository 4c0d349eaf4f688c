import BugsLang.Matcher
import BugsLang.Reader.Call

/-!
# Calls to a matcher

The operations of a matcher as data. Tokens can be read past the rules, with the operations of the
reader, and rules tried again after a fault.
-/

namespace BugsLang.Matcher

/-- An operation of a matcher. -/
inductive Call where
  /-- An operation of the reader underneath. -/
  | reader (call : Reader.Call)
  /-- Reads the next token if it is in the set. -/
  | take (pattern : Pattern)
  /-- Matches the rule. -/
  | attempt (rule : Rule)
deriving DecidableEq, Repr

/-- What an operation of a matcher answers. -/
inductive Reply where
  /-- The answer of the reader. -/
  | reader (reply : Reader.Reply)
  /-- Whether the token was in the set. -/
  | taken (yes : Bool)
  /-- What came of the rule. -/
  | outcome (outcome : Outcome)
deriving DecidableEq, Repr

/-- Carries out one operation. -/
def perform (m : Matcher) : Call → Reply × Matcher
  | .reader call =>
    let step := m.reader.perform call
    (.reader step.1, { m with reader := step.2 })
  | .take pattern =>
    let step := m.take pattern
    (.taken step.1, step.2)
  | .attempt rule =>
    let step := m.attempt rule
    (.outcome step.1, step.2)

end BugsLang.Matcher
