import BugsLang.Matcher.Call

/-!
# What a matcher reads

A matcher looks at one token at a time. Either it takes the token, or it puts it back, and then it
stands where it stood: the same tokens are still to come, and the same number of brackets is open.
All that matching does to a matcher is made up of these two steps.

## Main definitions

* `Matcher.unread`, `Matcher.next`: the tokens still to come and the first of them.
* `Matcher.peeked`: the matcher after it has looked at the next token.
* `Matcher.Reads m w m'`: from `m` on the tokens `w` are read, and then the matcher is `m'`.
-/

namespace BugsLang

/-- The tokens without their lines. -/
def tokensOf (located : List Token.Located) : List Token :=
  located.map Token.Located.token

theorem tokensOf_append {us vs : List Token.Located} :
    tokensOf (us ++ vs) = tokensOf us ++ tokensOf vs :=
  List.map_append

/-! ## The end of the input -/

theorem Position.token_eq_inputEnd {p : Position} (h : p.token.token.kind = .inputEnd) :
    p.token.token = .inputEnd := by
  rw [kind_token_eq_inputEnd_iff] at h
  rw [token, h]
  rfl

/-- The tokens ahead end with the end of the input and have none before. -/
theorem Position.tokens_eq_append_inputEnd (p : Position) :
    ∃ w line, p.tokens = w ++ [⟨line, .inputEnd⟩] ∧ .inputEnd ∉ tokensOf w := by
  fun_induction tokens p with
  | case1 p h =>
    refine ⟨[], p.passTrivia.line, ?_, List.not_mem_nil⟩
    have hend : p.passTrivia.token.token = .inputEnd :=
      token_eq_inputEnd (kind_token_eq_inputEnd_iff.2 h)
    rw [List.nil_append, ← hend]
    unfold token
    split <;> rfl
  | case2 p h ih =>
    obtain ⟨w, line, heq, hw⟩ := ih
    refine ⟨p.passTrivia.token :: w, line, by rw [heq, List.cons_append], ?_⟩
    intro hmem
    rcases List.mem_cons.1 hmem with hhead | htail
    · apply h
      rw [← kind_token_eq_inputEnd_iff, ← hhead]
      rfl
    · exact hw htail

/-- There are no more tokens ahead than characters, the end of the input aside. -/
theorem Position.length_tokens_le (p : Position) : p.tokens.length ≤ p.text.length + 1 := by
  fun_induction tokens p with
  | case1 p h =>
    rw [List.length_singleton]
    omega
  | case2 p h ih =>
    have hpast := length_text_pastToken_lt h
    have htrivia := p.length_text_passTrivia_le
    rw [List.length_cons]
    omega

namespace Matcher

variable {m m' m'' : Matcher} {u v w : List Token.Located}

/-- The tokens that are still to come. -/
def unread (m : Matcher) : List Token.Located :=
  m.reader.unread

/-- The first of the tokens still to come. -/
def next (m : Matcher) : Token.Located :=
  m.reader.read.1

/-- The matcher after it has looked at the next token and put it back. -/
def peeked (m : Matcher) : Matcher :=
  { m with reader := m.reader.read.2.putBack }

theorem head?_unread (m : Matcher) : m.unread.head? = some m.next :=
  m.reader.head?_unread

theorem unread_eq_cons (m : Matcher) : ∃ rest, m.unread = m.next :: rest := by
  have hhead := m.head?_unread
  cases hunread : m.unread with
  | nil =>
    rw [hunread] at hhead
    cases hhead
  | cons t rest =>
    rw [hunread] at hhead
    exact ⟨rest, by rw [Option.some.inj hhead]⟩

/-- The first token unread is the next one. -/
theorem next_of_unread {t : Token.Located} {rest : List Token.Located} (h : m.unread = t :: rest) :
    m.next = t := by
  have hhead := m.head?_unread
  rw [h] at hhead
  exact (Option.some.inj hhead).symm

/-- What is unread ends with the end of the input and has none before. -/
theorem unread_eq_append_inputEnd (m : Matcher) :
    ∃ w line, m.unread = w ++ [⟨line, .inputEnd⟩] ∧ .inputEnd ∉ tokensOf w :=
  m.reader.here.tokens_eq_append_inputEnd

theorem token_next_eq_inputEnd (h : m.next.token.kind = .inputEnd) : m.next.token = .inputEnd :=
  Position.token_eq_inputEnd h

/-- The end of the input comes last. -/
theorem unread_eq_singleton (h : m.next.token = .inputEnd) : m.unread = [m.next] :=
  (Reader.unread_read_at_end (congrArg Token.kind h)).1

theorem unread_ofSource (source : String) : (ofSource source).unread = locatedTokens source := rfl

/-! ## Looking at the next token -/

@[simp] theorem unread_peeked (m : Matcher) : m.peeked.unread = m.unread :=
  m.reader.unread_putBack_read

@[simp] theorem depth_peeked (m : Matcher) : m.peeked.depth = m.depth := rfl

theorem read_peeked (m : Matcher) : m.peeked.reader.read = m.reader.read := by
  simp only [peeked, Reader.read, Reader.putBack, Position.passTrivia_passTrivia]

@[simp] theorem next_peeked (m : Matcher) : m.peeked.next = m.next := by
  rw [next, read_peeked, next]

@[simp] theorem peeked_peeked (m : Matcher) : m.peeked.peeked = m.peeked := by
  rw [peeked, read_peeked]
  rfl

theorem take_of_accepts {pattern : Pattern} (h : pattern.accepts m.next.token = true) :
    m.take pattern = (true, { m with reader := m.reader.read.2 }) :=
  if_pos h

theorem take_of_not_accepts {pattern : Pattern} (h : ¬ pattern.accepts m.next.token = true) :
    m.take pattern = (false, m.peeked) :=
  if_neg h

theorem depth_take (pattern : Pattern) : (m.take pattern).2.depth = m.depth := by
  by_cases h : pattern.accepts m.next.token = true
  · rw [take_of_accepts h]
  · rw [take_of_not_accepts h, depth_peeked]

theorem refuse_eq (m : Matcher) (rule : Rule) (expected : Expectation) :
    m.refuse rule expected = (.fault ⟨rule, expected, m.next⟩, m.peeked) := rfl

/-! ## Reading on -/

/-- From `m` on the tokens `w` are read, and then the matcher is `m'`. As many brackets are open as
before. -/
structure Reads (m : Matcher) (w : List Token.Located) (m' : Matcher) : Prop where
  unread : m.unread = w ++ m'.unread
  depth : m'.depth = m.depth

theorem reads_peeked (m : Matcher) : m.Reads [] m.peeked :=
  ⟨m.unread_peeked.symm, m.depth_peeked⟩

theorem Reads.trans (h : m.Reads u m') (h' : m'.Reads v m'') : m.Reads (u ++ v) m'' := by
  refine ⟨?_, h'.depth.trans h.depth⟩
  rw [h.unread, h'.unread, List.append_assoc]

/-- Reading from where the next token has been looked at is reading from there. -/
theorem Reads.of_peeked (h : m.peeked.Reads w m') : m.Reads w m' :=
  m.reads_peeked.trans h

/-- The next token comes first among those that are read and the one after them. -/
theorem Reads.head? (h : m.Reads w m') :
    (tokensOf w ++ [m'.next.token]).head? = some m.next.token := by
  have hhead := m.head?_unread
  rw [h.unread] at hhead
  cases w with
  | nil =>
    rw [List.nil_append, head?_unread] at hhead
    rw [Option.some.inj hhead]
    rfl
  | cons t w =>
    rw [← Option.some.inj hhead]
    rfl

/-- A token that is not the end of the input can be read. -/
theorem reads_next (h : m.next.token ≠ .inputEnd) :
    m.Reads [m.next] { m with reader := m.reader.read.2 } := by
  refine ⟨?_, rfl⟩
  exact Reader.unread_read fun hkind => h (token_next_eq_inputEnd hkind)

/-- Reading some tokens leaves fewer to be read. -/
theorem Reads.length_lt (h : m.Reads w m') (hw : w ≠ []) :
    m'.unread.length < m.unread.length := by
  rw [h.unread, List.length_append]
  have hpos : 0 < w.length := List.length_pos_iff.2 hw
  omega

end Matcher

end BugsLang
