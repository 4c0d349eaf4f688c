import BugsLang.Grammar.Phrase

/-!
# What the rules consist of

Every rule is told by its first token: once that has been read, all that follows is `required`,
`optional` or `repeated`, so no rule ever has to go back by more than one token.
-/

namespace BugsLang

open Phrase

/-- The right-hand side of the rule. -/
def Rule.phrase : Rule → Phrase
  -- definitions
  | program =>
    (rule shared ++ required (rule bug) .bug <|> rule bug) ++ repeated (rule bug)
  | shared =>
    reserved "Allbugs" ++ needSymbol openBrace ++ needLineEnd ++ repeated (rule declaration) ++
      repeated (rule function) ++ needSymbol closeBrace ++ needLineEnd
  | bug =>
    reserved "Bug" ++ needName ++ needSymbol openBrace ++ needLineEnd ++
      repeated (rule declaration) ++ optional (rule startup) ++
      required (rule command) .command ++ repeated (rule command) ++
      repeated (rule function) ++ needSymbol closeBrace ++ needLineEnd
  | declaration => reserved "var" ++ commaSeparated needName ++ needLineEnd
  | startup => reserved "initially" ++ needBlock
  | function =>
    reserved "define" ++ needName ++
      optional (reserved "using" ++ commaSeparated needVariable) ++ needBlock
  | block =>
    symbol openBrace ++
      bracketed (needLineEnd ++ repeated (rule command) ++ needSymbol closeBrace ++ needLineEnd)
  | command => rule action <|> rule statement
  -- actions
  | action => rule move <|> rule moveTo <|> rule turn <|> rule turnTo <|> rule line
  | move => reserved "move" ++ needExpression ++ needLineEnd
  | moveTo =>
    reserved "moveto" ++ needExpression ++ needSymbol "," ++ needExpression ++ needLineEnd
  | turn => reserved "turn" ++ needExpression ++ needLineEnd
  | turnTo => reserved "turnto" ++ needExpression ++ needLineEnd
  | line =>
    reserved "line" ++ needExpression ++ needSymbol "," ++ needExpression ++ needSymbol "," ++
      needExpression ++ needSymbol "," ++ needExpression ++ needLineEnd
  -- statements
  | statement =>
    rule assignment <|> rule loop <|> rule exitIf <|> rule switch <|> rule returnValue <|>
      rule invocation <|> rule color
  | assignment => rule variableName ++ needSymbol "=" ++ needExpression ++ needLineEnd
  | loop => reserved "loop" ++ needBlock
  | exitIf => reserved "exit" ++ needReserved "if" ++ needExpression ++ needLineEnd
  | switch =>
    reserved "switch" ++ needSymbol openBrace ++ needLineEnd ++
      repeated (reserved "case" ++ needExpression ++ needLineEnd ++ repeated (rule command)) ++
      needSymbol closeBrace ++ needLineEnd
  | returnValue => reserved "return" ++ needExpression ++ needLineEnd
  | invocation => reserved "do" ++ needVariable ++ optional (rule arguments) ++ needLineEnd
  | color => reserved "color" ++ required (token .color) .color ++ needLineEnd
  -- expressions
  | expression => rule sum ++ repeated (rule comparison ++ required (rule sum) .sum)
  | sum => rule term ++ repeated (rule plusOrMinus ++ required (rule term) .term)
  | term => rule factor ++ repeated (rule timesOrOver ++ required (rule factor) .factor)
  | factor =>
    rule plusOrMinus ++ required (rule operand) .operandAfterSign <|> rule operand
  | operand =>
    rule variableName ++
        optional (symbol "." ++ required anyName .nameAfterDot <|> rule arguments) <|>
      anyNumber <|>
      symbol "(" ++ bracketed (needExpression ++ needSymbol ")")
  | arguments =>
    symbol "(" ++
      bracketed (optional (rule expression ++ repeated (symbol "," ++ needExpression)) ++
        needSymbol ")")
  | call => rule variableName ++ required (rule arguments) .arguments
  -- single tokens
  | comparison =>
    (symbol "<" <|> symbol "!" <|> symbol ">") ++ optional (symbol "=") <|> symbol "="
  | plusOrMinus => symbol "+" <|> symbol "-"
  | timesOrOver => symbol "*" <|> symbol "/"
  | variableName => anyName
  | lineEnd => oneLineEnd ++ repeated oneLineEnd

/-- The rules within which reading can fail for good, so that diagnostics name them. -/
def Rule.reporting : List Rule :=
  Rule.all.filter fun rule => rule.phrase.commits

end BugsLang
