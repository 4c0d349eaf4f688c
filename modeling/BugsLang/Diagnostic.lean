import BugsLang.Grammar.Phrase

/-!
# Diagnostics

Why a rule that was committed could not go on: the rule, what it expected, and the first unread
token, which is the one that does not fit.
-/

namespace BugsLang

/-- The report of a rule that could not go on. -/
structure Diagnostic where
  /-- The rule that could not go on. -/
  rule : Rule
  /-- What the rule needed next. -/
  expected : Expectation
  /-- The first unread token. -/
  found : Token.Located
deriving DecidableEq, Repr

namespace Diagnostic

/-- The report without its line. -/
def text (d : Diagnostic) : String :=
  d.rule.label ++ ": expected " ++ d.expected.text ++ ", found " ++ d.found.token.describe

/-- The report with its line. -/
def textWithLine (d : Diagnostic) : String :=
  "line " ++ toString d.found.line ++ ": " ++ d.text

end Diagnostic

end BugsLang
