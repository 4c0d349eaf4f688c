import BugsLang.Proofs.Grammar.Definition

/-!
# Open brackets

Brackets are counted by reading tokens from left to right: a parenthesis or a brace that opens goes
on a stack, and one that closes takes the last of them off. Of a phrase it can be said beforehand
which brackets it opens and closes, whatever tokens it stands for, and for all rules of the language
this is checked once. Only the braces of switch statements are not limited, so they are kept apart.

## Main definitions

* `openBrackets w`: the brackets that are open behind the tokens.
* `Phrase.brackets`: what a phrase does to the brackets that are open, if they can be told.

## Main statements

* `length_openBrackets_le`: how many brackets are open besides those that are limited.
* `Phrase.brackets_definition`: every rule closes the brackets that it opens.
* `Derives.keeps`: a derivation does to the brackets what is said of its phrase.
* `keeps_of_derives_program`: how many brackets are open within a program.
-/

namespace BugsLang

open Phrase

/-- A bracket that is open. -/
inductive Bracket where
  /-- A parenthesis, or the brace of a section or a block. -/
  | limited
  /-- The brace of a switch statement. -/
  | ofSwitch
deriving DecidableEq, Repr

/-- The word that switch statements begin with. -/
def Token.switchWord : Token := ⟨.reserved, "switch"⟩

/-- The token closes a bracket. -/
def Token.Closes (t : Token) : Prop :=
  t = ⟨.symbol, ")"⟩ ∨ t = ⟨.symbol, closeBrace⟩

instance (t : Token) : Decidable t.Closes :=
  inferInstanceAs (Decidable (_ ∨ _))

/-- What is known of brackets behind some tokens. -/
structure Brackets where
  /-- The brackets that are open, the innermost first. -/
  stack : List Bracket
  /-- Whether the last token was the word that switch statements begin with. -/
  afterSwitch : Bool
deriving DecidableEq, Repr

/-- Reads a token. A brace is that of a switch statement if it follows the word. -/
def Brackets.read (b : Brackets) (t : Token) : Brackets :=
  if t = ⟨.symbol, "("⟩ then ⟨.limited :: b.stack, false⟩
  else if t = ⟨.symbol, openBrace⟩ then
    ⟨(if b.afterSwitch then .ofSwitch else .limited) :: b.stack, false⟩
  else if t.Closes then ⟨b.stack.tail, false⟩
  else ⟨b.stack, t = .switchWord⟩

/-- The brackets that are open behind the tokens, the innermost first. -/
def openBrackets (w : List Token) : List Bracket :=
  (w.foldl Brackets.read ⟨[], false⟩).stack

/-- At most `k` limited brackets are open behind each of the tokens. -/
def Brackets.Keeps (k : Nat) : Brackets → List Token → Prop
  | _, [] => True
  | b, t :: w => (b.read t).stack.count .limited ≤ k ∧ Keeps k (b.read t) w

namespace Brackets

variable {b : Brackets} {k m : Nat} {t : Token} {u v w : List Token} {inner base : List Bracket}

theorem keeps_append : b.Keeps k (u ++ v) ↔ b.Keeps k u ∧ (u.foldl read b).Keeps k v := by
  induction u generalizing b with
  | nil => exact (iff_of_eq (true_and _)).symm
  | cons t u ih =>
    rw [List.cons_append, Keeps, Keeps, ih, and_assoc]
    rfl

theorem Keeps.mono (h : b.Keeps k w) (hle : k ≤ m) : b.Keeps m w := by
  induction w generalizing b with
  | nil => trivial
  | cons t w ih => exact ⟨Nat.le_trans h.1 hle, ih h.2⟩

/-- What is kept behind each token is kept at the end, if it was at the start. -/
theorem Keeps.count_le (h : b.Keeps k w) (hb : b.stack.count .limited ≤ k) :
    (w.foldl read b).stack.count .limited ≤ k := by
  induction w generalizing b with
  | nil => exact hb
  | cons t w ih => exact ih h.2 h.1

/-- The brackets below are left alone unless there is nothing else to close. -/
theorem read_append {after : Bool} (h : ¬ (inner = [] ∧ t.Closes)) :
    read ⟨inner ++ base, after⟩ t =
      ⟨(read ⟨inner, after⟩ t).stack ++ base, (read ⟨inner, after⟩ t).afterSwitch⟩ := by
  unfold read
  split
  · rfl
  split
  · rfl
  split
  · rename_i hcloses
    cases inner with
    | nil => exact absurd ⟨rfl, hcloses⟩ h
    | cons x inner => rfl
  · rfl

/-- A token that is no symbol neither opens nor closes a bracket. -/
theorem read_of_kind_ne_symbol (h : t.kind ≠ .symbol) :
    b.read t = ⟨b.stack, t = .switchWord⟩ := by
  have hne (text : String) : t ≠ ⟨.symbol, text⟩ := fun heq => h (congrArg Token.kind heq)
  have hcloses : ¬ t.Closes := not_or.2 ⟨hne _, hne _⟩
  rw [read, if_neg (hne _), if_neg (hne _), if_neg hcloses]

/-- A brace of a switch statement is opened only behind the word. -/
theorem count_ofSwitch_read_le (b : Brackets) (t : Token) :
    (b.read t).stack.count .ofSwitch + (b.read t).afterSwitch.toNat ≤
      b.stack.count .ofSwitch + b.afterSwitch.toNat + [t].count .switchWord := by
  unfold read
  split
  · dsimp only
    rw [List.count_cons_of_ne (by decide), Bool.toNat_false]
    omega
  split
  · cases b.afterSwitch <;> simp
  split
  · have htail := b.stack.tail_sublist.count_le .ofSwitch
    dsimp only
    rw [Bool.toNat_false]
    omega
  · by_cases ht : t = .switchWord
    · subst ht
      dsimp only
      rw [decide_eq_true rfl, Bool.toNat_true, List.count_singleton_self]
      omega
    · dsimp only
      rw [decide_eq_false ht, Bool.toNat_false]
      omega

theorem count_ofSwitch_foldl_le (b : Brackets) (w : List Token) :
    (w.foldl read b).stack.count .ofSwitch + (w.foldl read b).afterSwitch.toNat ≤
      b.stack.count .ofSwitch + b.afterSwitch.toNat + w.count .switchWord := by
  induction w generalizing b with
  | nil => exact Nat.le_refl _
  | cons t w ih =>
    have hstep := b.count_ofSwitch_read_le t
    have hrest := ih (b.read t)
    rw [← List.singleton_append, List.count_append]
    exact Nat.le_trans hrest (by omega)

end Brackets

theorem length_eq_count_add_count (l : List Bracket) :
    l.length = l.count .limited + l.count .ofSwitch := by
  induction l with
  | nil => rfl
  | cons x l ih => cases x <;> simp [ih] <;> omega

/-- No more brackets are open than limited ones and words that switch statements begin with. -/
theorem length_openBrackets_le (w : List Token) :
    (openBrackets w).length ≤ (openBrackets w).count .limited + w.count .switchWord := by
  have hcount := Brackets.count_ofSwitch_foldl_le ⟨[], false⟩ w
  have hlength := length_eq_count_add_count (openBrackets w)
  unfold openBrackets at *
  simp at hcount
  omega

/-! ## What phrases do to brackets -/

/-- What is known beforehand of the brackets at a place in a phrase. -/
structure Phrase.Place where
  /-- The brackets that the phrase has opened, the innermost first. -/
  stack : List Bracket
  /-- Whether the last token is the word that switch statements begin with, where that is known. -/
  afterSwitch : Option Bool
deriving DecidableEq, Repr

/-- The brackets are as the place says, with others below. -/
structure Phrase.Place.Describes (a : Place) (base : List Bracket) (b : Brackets) : Prop where
  stack : b.stack = a.stack ++ base
  afterSwitch : ∀ s ∈ a.afterSwitch, b.afterSwitch = s

/-- The place behind a token of the set, if it can be told. -/
def Phrase.Place.pass (a : Place) : Pattern → Option Place
  | .kind k => if k = .symbol ∨ k = .reserved then none else some ⟨a.stack, some false⟩
  | .color => some ⟨a.stack, none⟩
  | .exact t =>
    match a.afterSwitch with
    | none => none
    | some s =>
      if a.stack = [] ∧ t.Closes then none
      else
        let next := Brackets.read ⟨a.stack, s⟩ t
        some ⟨next.stack, some next.afterSwitch⟩

/-- The number of limited brackets that the rule opens for itself without counting them: a section
has a brace that is not counted. -/
def Rule.sections : Rule → Nat
  | .program | .shared | .bug => 1
  | _ => 0

/-- The place behind the phrase, if it can be told, where at most `room` limited brackets are opened
without being counted. -/
def Phrase.brackets (room : Nat) : Phrase → Place → Option Place
  | token pattern, a => (a.pass pattern).filter fun b => b.stack.count .limited ≤ room
  | rule r, a =>
    -- a line end may follow any color, and that may be any reserved word
    if (a.afterSwitch = some false ∨ r = .lineEnd) ∧
        a.stack.count .limited + r.sections ≤ room then
      some ⟨a.stack, some false⟩
    else none
  | seq p q, a => (p.brackets room a).bind (q.brackets room)
  | choice p q, a =>
    if p.brackets room a = q.brackets room a then p.brackets room a else none
  | optional p, a | repeated p, a => if p.brackets room a = some a then some a else none
  | required p _, a => p.brackets room a
  | bracketed p, a => p.brackets (room + 1) a

namespace Phrase

variable {a b : Place} {room : Nat} {p q : Phrase} {r : Rule} {t : Token}

theorem Place.pass_kind {k : Token.Kind} (h : a.pass (.kind k) = some b) :
    k ≠ .symbol ∧ k ≠ .reserved ∧ b = ⟨a.stack, some false⟩ := by
  rw [pass] at h
  split at h
  · cases h
  · rename_i hkind
    obtain ⟨hsymbol, hreserved⟩ := not_or.1 hkind
    exact ⟨hsymbol, hreserved, (Option.some.inj h).symm⟩

theorem Place.pass_exact (h : a.pass (.exact t) = some b) :
    ∃ s, a.afterSwitch = some s ∧ ¬ (a.stack = [] ∧ t.Closes) ∧
      let next := Brackets.read ⟨a.stack, s⟩ t
      b = ⟨next.stack, some next.afterSwitch⟩ := by
  rw [pass] at h
  cases hs : a.afterSwitch with
  | none =>
    rw [hs] at h
    cases h
  | some s =>
    rw [hs] at h
    dsimp only at h
    split at h
    · cases h
    · rename_i hopen
      exact ⟨s, rfl, hopen, (Option.some.inj h).symm⟩

theorem brackets_rule (h : (rule r).brackets room a = some b) :
    b = ⟨a.stack, some false⟩ ∧ (a.afterSwitch = some false ∨ r = .lineEnd) ∧
      a.stack.count .limited + r.sections ≤ room := by
  obtain ⟨hrule, hb⟩ := Option.ite_none_right_eq_some.1 h
  exact ⟨(Option.some.inj hb).symm, hrule⟩

/-- Both phrases of a choice do the same. -/
theorem brackets_choice (h : (choice p q).brackets room a = some b) :
    p.brackets room a = some b ∧ q.brackets room a = some b := by
  obtain ⟨hsame, hp⟩ := Option.ite_none_right_eq_some.1 h
  exact ⟨hp, hsame ▸ hp⟩

/-- What may be left out does nothing. -/
theorem brackets_optional (h : (optional p).brackets room a = some b) :
    b = a ∧ p.brackets room a = some a := by
  obtain ⟨hbody, hb⟩ := Option.ite_none_right_eq_some.1 h
  exact ⟨(Option.some.inj hb).symm, hbody⟩

/-- Every rule closes the brackets that it opens. -/
theorem brackets_definition (r : Rule) :
    r.definition.brackets r.sections ⟨[], some false⟩ = some ⟨[], some false⟩ := by
  have hall : ∀ r ∈ Rule.all,
      r.definition.brackets r.sections ⟨[], some false⟩ = some ⟨[], some false⟩ := by
    decide +kernel
  exact hall r r.mem_all

theorem brackets_lineEnd :
    Rule.lineEnd.definition.brackets 0 ⟨[], none⟩ = some ⟨[], some false⟩ :=
  rfl

end Phrase

/-! ## What derivations do to brackets -/

section

variable {a b : Place} {c : Brackets} {base : List Bracket} {n room : Nat} {p : Phrase}
  {w : List Token}

/-- A token of the set leads to the place behind it. -/
theorem Phrase.Place.Describes.pass {pattern : Pattern} {t : Token} (h : a.Describes base c)
    (ht : pattern.accepts t = true) (hpass : a.pass pattern = some b) :
    b.Describes base (c.read t) := by
  obtain ⟨stack, after⟩ := c
  obtain ⟨hstack, hafter⟩ := h
  obtain rfl : stack = a.stack ++ base := hstack
  cases pattern with
  | kind k =>
    obtain rfl : t.kind = k := of_decide_eq_true ht
    obtain ⟨hsymbol, hreserved, rfl⟩ := Place.pass_kind hpass
    have hword : t ≠ .switchWord := fun heq => hreserved (congrArg Token.kind heq)
    rw [Brackets.read_of_kind_ne_symbol hsymbol, decide_eq_false hword]
    exact ⟨rfl, fun s hs => Option.some.inj hs⟩
  | color =>
    obtain rfl := Option.some.inj hpass
    have hsymbol : t.kind ≠ .symbol := by
      intro hkind
      rw [Pattern.accepts, hkind] at ht
      cases ht
    rw [Brackets.read_of_kind_ne_symbol hsymbol]
    exact ⟨rfl, fun s hs => absurd hs (Option.not_mem_none s)⟩
  | exact t' =>
    obtain rfl : t = t' := of_decide_eq_true ht
    obtain ⟨s, hs, hopen, rfl⟩ := Place.pass_exact hpass
    obtain rfl : after = s := hafter s hs
    rw [Brackets.read_append hopen]
    exact ⟨rfl, fun s hs => Option.some.inj hs⟩

/-- What is open in front of a rule lies below the brackets that the rule opens. -/
theorem Phrase.Place.Describes.inner {r : Rule} (h : a.Describes base c)
    (hafter : a.afterSwitch = some false ∨ r = .lineEnd) :
    ∃ s, r.definition.brackets r.sections ⟨[], s⟩ = some ⟨[], some false⟩ ∧
      (⟨[], s⟩ : Place).Describes (a.stack ++ base) c := by
  rcases hafter with hafter | rfl
  · exact ⟨_, brackets_definition r, h.stack, hafter ▸ h.afterSwitch⟩
  · exact ⟨_, brackets_lineEnd, h.stack, fun s hs => absurd hs (Option.not_mem_none s)⟩

/-- What is said of a phrase holds of each list of tokens derived from it, whatever brackets are
open below. -/
theorem Derives.keeps (h : Derives Rule.definition n p w) (hp : p.brackets room a = some b)
    (hc : a.Describes base c) :
    b.Describes base (w.foldl Brackets.read c) ∧ c.Keeps (base.count .limited + room + n) w := by
  induction h generalizing room a b base c with
  | @token n pattern t ht =>
    obtain ⟨hpass, hroom⟩ := Option.filter_eq_some_iff.1 hp
    have hb := hc.pass ht hpass
    refine ⟨hb, ?_, trivial⟩
    rw [hb.stack, List.count_append]
    have := of_decide_eq_true hroom
    omega
  | @rule n r w _ ih =>
    obtain ⟨rfl, hafter, hroom⟩ := brackets_rule hp
    obtain ⟨s, hs, hdescribes⟩ := hc.inner hafter
    obtain ⟨hb, hkeeps⟩ := ih hs hdescribes
    refine ⟨⟨hb.stack, hb.afterSwitch⟩, hkeeps.mono ?_⟩
    rw [List.count_append]
    omega
  | seq _ _ ihp ihq =>
    obtain ⟨m, hm, hq⟩ := Option.bind_eq_some_iff.1 hp
    obtain ⟨hmiddle, hkeeps⟩ := ihp hm hc
    obtain ⟨hb, hkeeps'⟩ := ihq hq hmiddle
    rw [List.foldl_append, Brackets.keeps_append]
    exact ⟨hb, hkeeps, hkeeps'⟩
  | first _ ih => exact ih (brackets_choice hp).1 hc
  | second _ ih => exact ih (brackets_choice hp).2 hc
  | absent | none =>
    obtain ⟨rfl, -⟩ := brackets_optional hp
    exact ⟨hc, trivial⟩
  | present _ ih =>
    obtain ⟨rfl, hbody⟩ := brackets_optional hp
    exact ih hbody hc
  | more _ _ ihp ihrest =>
    obtain ⟨rfl, hbody⟩ := brackets_optional hp
    obtain ⟨hmiddle, hkeeps⟩ := ihp hbody hc
    obtain ⟨hb, hkeeps'⟩ := ihrest hp hmiddle
    rw [List.foldl_append, Brackets.keeps_append]
    exact ⟨hb, hkeeps, hkeeps'⟩
  | required _ ih => exact ih hp hc
  | bracketed _ ih =>
    obtain ⟨hb, hkeeps⟩ := ih hp hc
    refine ⟨hb, hkeeps.mono ?_⟩
    omega

/-- Within a program at most one bracket is open besides those that are counted, braces of switch
statements apart. At its end all brackets are closed. -/
theorem keeps_of_derives_program (h : Derives Rule.definition n (.rule .program) w) :
    openBrackets w = [] ∧ Brackets.Keeps (n + 1) ⟨[], false⟩ w := by
  have hstart : (⟨[], some false⟩ : Place).Describes [] ⟨[], false⟩ :=
    ⟨rfl, fun s hs => Option.some.inj hs⟩
  have hbrackets : (Phrase.rule .program).brackets 1 ⟨[], some false⟩ = some ⟨[], some false⟩ := rfl
  obtain ⟨hend, hkeeps⟩ := h.keeps hbrackets hstart
  refine ⟨hend.stack, hkeeps.mono ?_⟩
  rw [List.count_nil]
  omega

end

end BugsLang
