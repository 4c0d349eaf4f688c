import BugsLang.Matcher.Call
import BugsLang.Validation
import BugsLang.Proofs.Grammar.Definition
import BugsLang.Proofs.Grammar.Agreement
import BugsLang.Proofs.Matcher.Reading
import BugsLang.Proofs.Matcher.Justified
import BugsLang.Proofs.Matcher.Fuel
import BugsLang.Proofs.Matcher.History
import BugsLang.Proofs.Matcher.Rollback
import BugsLang.Proofs.Matcher.Outcome
import BugsLang.Proofs.Validation
import BugsLang.Proofs.Reader.Cursor
import BugsLang.Proofs.Text.LineEnd
import BugsLang.Proofs.Matcher.Line
import BugsLang.Proofs.Grammar.Expectation
import BugsLang.Proofs.Grammar.Unfinished
import BugsLang.Proofs.Matcher.Diagnosis
import BugsLang.Proofs.Recovery
import BugsLang.Proofs.Rejection
import BugsLang.Proofs.Appearance
import BugsLang.Proofs.BlankLine
import BugsLang.Proofs.Composition
import BugsLang.Proofs.Matcher.Alike
import BugsLang.Proofs.Matcher.Similar
import BugsLang.Proofs.Matcher.Restart
import BugsLang.Proofs.Matcher.Trace
import BugsLang.Proofs.Matcher.Limit
import BugsLang.Proofs.Text.Partition
import BugsLang.Proofs.Numeral.Precision
import BugsLang.Proofs.Text.Number
import BugsLang.Proofs.Text.Respelling
import BugsLang.Proofs.Grammar.Brackets
import BugsLang.Proofs.Nesting
import BugsLang.Proofs.Matcher.Progress
import BugsLang.Proofs.Matcher.Alternatives
import BugsLang.Proofs.Reader.Passing
import BugsLang.Proofs.Reader.Scanner
import BugsLang.Proofs.Matcher.Requests
import BugsLang.Proofs.InPlace
