import BugsLang.Reader

/-!
# Calls to a reader

The operations of a reader as data, so that a history of use is a list of calls.
-/

namespace BugsLang.Reader

/-- An operation of a reader. -/
inductive Call where
  /-- Reads the next token. -/
  | read
  /-- Un-reads the last token. -/
  | putBack
  /-- Asks for the line of the next token. -/
  | lineOfNext
deriving DecidableEq, Repr

/-- What an operation of a reader answers. -/
inductive Reply where
  /-- The token that was read. -/
  | token (t : Token)
  /-- Nothing. -/
  | nothing
  /-- The line that was asked for. -/
  | line (n : Nat)
deriving DecidableEq, Repr

/-- Carries out one operation. -/
def perform (r : Reader) : Call → Reply × Reader
  | .read => (.token r.read.1.token, r.read.2)
  | .putBack => (.nothing, r.putBack)
  | .lineOfNext => (.line r.lineOfNext.1, r.lineOfNext.2)

end BugsLang.Reader
