import BugsLang.Grammar.Rule
import BugsLang.Text.Token

/-!
# Phrases

The right-hand sides of grammar rules as data. Besides the usual operators of a grammar a phrase
says where reading is committed: `required p e` is `p` at a place where nothing else can follow,
and `e` is what a diagnostic says was expected there. `bracketed p` is `p` inside a bracket whose
depth is limited.
-/

namespace BugsLang

/-- A set of tokens, as the grammar tells tokens apart. -/
inductive Pattern where
  /-- The tokens of one kind. -/
  | kind (kind : Token.Kind)
  /-- One token. -/
  | exact (token : Token)
  /-- The tokens that name a color: reserved words, and names of the palette. -/
  | color
deriving DecidableEq, Repr

/-- Whether the token is in the set. -/
def Pattern.accepts : Pattern → Token → Bool
  | kind k, t => t.kind = k
  | exact u, t => t = u
  | color, t => t.kind = .reserved || t.kind = .name && isPaletteColor t.text

/-- What the grammar expects at a place where reading is committed. -/
inductive Expectation where
  /-- A symbol or reserved word with this text. -/
  | literal (text : String)
  | lineEnd
  | name
  | variableName
  | nameAfterDot
  | expression
  | sum
  | term
  | factor
  | operandAfterSign
  | command
  | block
  | arguments
  | bug
  | color
  /-- A bracket that lies less deep. -/
  | lessNesting
deriving DecidableEq, Repr

/-- What diagnostics call the expected construct. -/
def Expectation.text : Expectation → String
  | literal text => "'" ++ text ++ "'"
  | lineEnd => "end of line"
  | name => "name"
  | variableName => "variable"
  | nameAfterDot => "name after '.'"
  | expression => "expression"
  | sum => "arithmetic expression"
  | term => "term"
  | factor => "factor"
  | operandAfterSign => "operand after unary sign"
  | command => "command"
  | block => "block"
  | arguments => "parameter list"
  | bug => "Bug definition"
  | color => "color"
  | lessNesting => "shallower nesting"

/-- The right-hand side of a grammar rule. -/
inductive Phrase where
  /-- One token of the set. -/
  | token (pattern : Pattern)
  /-- An instance of the rule. -/
  | rule (rule : Rule)
  /-- One phrase and then the other. -/
  | seq (first second : Phrase)
  /-- One of the two phrases; the first is tried first. -/
  | choice (first second : Phrase)
  /-- The phrase, or nothing. -/
  | optional (body : Phrase)
  /-- The phrase any number of times, as often as it can be had. -/
  | repeated (body : Phrase)
  /-- The phrase, where nothing else will do. -/
  | required (body : Phrase) (expected : Expectation)
  /-- The phrase, one bracket deeper. -/
  | bracketed (body : Phrase)
deriving DecidableEq, Repr

namespace Phrase

/-- Whether reading can fail for good within the phrase itself. -/
def commits : Phrase → Bool
  | token _ | rule _ => false
  | seq p q | choice p q => p.commits || q.commits
  | optional p | repeated p => p.commits
  | required _ _ | bracketed _ => true

/-! ## Shorthand -/

instance : Append Phrase where
  append := seq

instance : OrElse Phrase where
  orElse p q := choice p (q ())

/-- The text of the brace that opens a body. -/
def openBrace : String := "\x7b"

/-- The text of the brace that closes a body. -/
def closeBrace : String := "\x7d"

/-- The reserved word. -/
def reserved (word : String) : Phrase := token (.exact ⟨.reserved, word⟩)

/-- The symbol. -/
def symbol (text : String) : Phrase := token (.exact ⟨.symbol, text⟩)

/-- Any name. -/
def anyName : Phrase := token (.kind .name)

/-- Any number. -/
def anyNumber : Phrase := token (.kind .number)

/-- One end of line. -/
def oneLineEnd : Phrase := token (.kind .lineEnd)

/-- The reserved word, where nothing else will do. -/
def needReserved (word : String) : Phrase := required (reserved word) (.literal word)

/-- The symbol, where nothing else will do. -/
def needSymbol (text : String) : Phrase := required (symbol text) (.literal text)

/-- A name, where nothing else will do. -/
def needName : Phrase := required anyName .name

/-- A variable, where nothing else will do. -/
def needVariable : Phrase := required (rule .variableName) .variableName

/-- An expression, where nothing else will do. -/
def needExpression : Phrase := required (rule .expression) .expression

/-- A block, where nothing else will do. -/
def needBlock : Phrase := required (rule .block) .block

/-- The end of the line, where nothing else will do. -/
def needLineEnd : Phrase := required (rule .lineEnd) .lineEnd

/-- The phrase, and any further ones after commas. The phrase is one that has to follow a comma. -/
def commaSeparated (p : Phrase) : Phrase := p ++ repeated (symbol "," ++ p)

end Phrase

end BugsLang
