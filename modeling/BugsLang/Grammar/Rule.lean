/-!
# The rules of the grammar

A Bugs program is an optional `Allbugs` section and one or more `Bug` definitions. The rules are
named here; `Rule.phrase` in `BugsLang.Grammar.Rules` says what each of them consists of.
-/

namespace BugsLang

/-- The rules of the grammar, from programs down to single tokens. -/
inductive Rule where
  /-- A whole program. -/
  | program
  /-- The section with the variables and functions of all bugs. -/
  | shared
  /-- The definition of one kind of bug. -/
  | bug
  /-- A declaration of variables. -/
  | declaration
  /-- What a bug does once, before its commands. -/
  | startup
  /-- The definition of a function. -/
  | function
  /-- Commands in braces. -/
  | block
  /-- An action or a statement. -/
  | command
  /-- A command that moves, turns or draws. -/
  | action
  | move
  | moveTo
  | turn
  | turnTo
  | line
  /-- Any other command. -/
  | statement
  | assignment
  | loop
  | exitIf
  | switch
  | returnValue
  /-- A call as a command. -/
  | invocation
  /-- The choice of a color. -/
  | color
  /-- Sums, and comparisons of sums. -/
  | expression
  /-- A sum of terms. -/
  | sum
  /-- A product of factors. -/
  | term
  /-- An operand with or without a sign. -/
  | factor
  /-- A variable, a call, a property, a number, or an expression in parentheses. -/
  | operand
  /-- Expressions in parentheses, separated by commas. -/
  | arguments
  /-- A call with its arguments. -/
  | call
  | comparison
  | plusOrMinus
  | timesOrOver
  | variableName
  /-- One end of line or several in a row. -/
  | lineEnd
deriving DecidableEq, Repr

namespace Rule

/-- All rules, in the order in which they are declared. -/
def all : List Rule :=
  [program, shared, bug, declaration, startup, function, block, command, action, move, moveTo,
    turn, turnTo, line, statement, assignment, loop, exitIf, switch, returnValue, invocation,
    color, expression, sum, term, factor, operand, arguments, call, comparison, plusOrMinus,
    timesOrOver, variableName, lineEnd]

theorem mem_all (rule : Rule) : rule ∈ all := by
  cases rule <;> decide

/-- What diagnostics call the rule. -/
def label : Rule → String
  | program => "program"
  | shared => "Allbugs code"
  | bug => "Bug definition"
  | declaration => "var declaration"
  | startup => "initialization block"
  | function => "function definition"
  | block => "block"
  | command => "command"
  | action => "action"
  | move => "move action"
  | moveTo => "moveto action"
  | turn => "turn action"
  | turnTo => "turnto action"
  | line => "line action"
  | statement => "statement"
  | assignment => "assignment statement"
  | loop => "loop statement"
  | exitIf => "exit if statement"
  | switch => "switch statement"
  | returnValue => "return statement"
  | invocation => "do statement"
  | color => "color statement"
  | expression => "expression"
  | sum => "arithmetic expression"
  | term => "term"
  | factor => "factor"
  | operand => "unsigned factor"
  | arguments => "parameter list"
  | call => "function call"
  | comparison => "comparator"
  | plusOrMinus => "add operator"
  | timesOrOver => "multiply operator"
  | variableName => "variable"
  | lineEnd => "end of line"

end Rule

end BugsLang
