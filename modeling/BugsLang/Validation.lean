import BugsLang.Matcher

/-!
# Validation

A source is valid if it is one program and nothing else. Otherwise the rejection tells why.
-/

namespace BugsLang

/-- Why a source is rejected. -/
inductive Rejection where
  /-- A rule was committed and could not go on. -/
  | fault (diagnostic : Diagnostic)
  /-- The source does not start with a program. -/
  | noProgram (found : Token.Located)
  /-- More tokens follow the program. -/
  | leftover (found : Token.Located)
deriving DecidableEq, Repr

/-- The token that the rejection is about, the first one that was not read. -/
def Rejection.found : Rejection → Token.Located
  | fault d => d.found
  | noProgram t | leftover t => t

/-- The rejection in words, with its line. -/
def Rejection.text : Rejection → String
  | fault d => d.textWithLine
  | noProgram t =>
    "line " ++ toString t.line ++ ": expected a program, found " ++ t.token.describe
  | leftover t =>
    "line " ++ toString t.line ++ ": unexpected " ++ t.token.describe ++ " after program"

/-- Whether a source starts with a program. -/
def programOutcome (source : String) : Outcome :=
  ((Matcher.ofSource source).attempt .program).1

/-- Accepts a source that is one program and nothing else. -/
def validate (source : String) : Except Rejection Unit :=
  let step := (Matcher.ofSource source).attempt .program
  let next := step.2.reader.read.1
  match step.1 with
  | .fault d => .error (.fault d)
  | .unmatched => .error (.noProgram next)
  | .matched => if next.token.kind = .inputEnd then .ok () else .error (.leftover next)

end BugsLang
