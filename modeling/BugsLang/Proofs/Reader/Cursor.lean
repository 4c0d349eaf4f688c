import BugsLang.Proofs.Matcher.Reading
import BugsLang.Proofs.Reader.History

/-!
# Reading is moving a cursor

A reader goes over a text, passes over trivia when it is asked for a line, and goes back in the text
to put a token back. A cursor knows nothing of texts: it is an index into a list of tokens with
their lines, and a flag that says whether the last token was put back. To a user the two are the
same. Whatever the calls and their order, a reader answers as the cursor over the tokens of the
source does.

## Main definitions

* `Cursor`, `Cursor.perform`: the cursor and its operations.
* `Reader.Follows S r c`: what is still to come for the reader is what the cursor has ahead in `S`.

## Main statements

* `Reader.Follows.perform`: one call is answered alike, and afterwards the reader still follows.
* `Reader.replies_eq_replies_cursor`: so are all calls.
-/

namespace BugsLang

/-! ## Cursors -/

/-- A cursor over a list with the indices from `0` to `n`. -/
structure Cursor (n : Nat) where
  /-- The index of the entry handed out last, if there is one. -/
  last : Option (Fin (n + 1))
  /-- Whether that entry was put back. -/
  isPutBack : Bool
deriving DecidableEq, Repr

namespace Cursor

variable {n : Nat}

/-- The cursor in front of the list. -/
def start (n : Nat) : Cursor n :=
  ⟨none, false⟩

/-- The index of the entry that comes next. Behind the last entry that entry comes again. -/
def next (c : Cursor n) : Fin (n + 1) :=
  match c.last with
  | none => 0
  | some k => if c.isPutBack then k else ⟨min (k + 1) n, by omega⟩

/-- Carries out one operation over the list. -/
def perform (S : Vector Token.Located (n + 1)) (c : Cursor n) :
    Reader.Call → Reader.Reply × Cursor n
  | .read => (.token (S.get c.next).token, ⟨some c.next, false⟩)
  | .putBack =>
    (.nothing, if c.last.isSome && !c.isPutBack then { c with isPutBack := true } else c)
  | .lineOfNext => (.line (S.get c.next).line, c)

/-- The answers to the calls, one after the other. -/
def replies (S : Vector Token.Located (n + 1)) (c : Cursor n) : List Reader.Call → List Reader.Reply
  | [] => []
  | call :: calls => (c.perform S call).1 :: (c.perform S call).2.replies S calls

/-- The cursor after the calls. -/
def after (S : Vector Token.Located (n + 1)) (c : Cursor n) : List Reader.Call → Cursor n
  | [] => c
  | call :: calls => (c.perform S call).2.after S calls

end Cursor

namespace Reader

/-- Whether the answer tells a line. -/
def Reply.tellsLine : Reply → Bool
  | .line _ => true
  | .token _ | .nothing => false

end Reader

/-! ## What a cursor does -/

namespace Cursor

variable {n : Nat} {S : Vector Token.Located (n + 1)} {c : Cursor n}

/-- The index to which a token that is put back brings the cursor. -/
def readBack (c : Cursor n) : Option (Fin (n + 1)) :=
  if c.isPutBack then none else c.last

/-- To put back a token that can be put back is to have it next again. -/
theorem perform_putBack_of_some {k : Fin (n + 1)} (h : c.readBack = some k) :
    (c.perform S .putBack).2 = ⟨some k, true⟩ := by
  obtain ⟨last, isPutBack⟩ := c
  cases isPutBack with
  | true => cases h
  | false =>
    obtain rfl : last = some k := h
    rfl

/-- Where there is nothing to put back, nothing happens. -/
theorem perform_putBack_of_none (h : c.readBack = none) : (c.perform S .putBack).2 = c := by
  obtain ⟨last, isPutBack⟩ := c
  cases isPutBack with
  | true =>
    show (if last.isSome && false then _ else _) = _
    rw [Bool.and_false]
    rfl
  | false =>
    obtain rfl : last = none := h
    rfl

/-- To ask for lines changes no other answer. -/
theorem filter_replies (calls : List Reader.Call) :
    (c.replies S calls).filter (!·.tellsLine) = c.replies S (calls.filter (· ≠ .lineOfNext)) := by
  induction calls generalizing c with
  | nil => rfl
  | cons call calls ih =>
    cases call with
    | read | putBack =>
      rw [List.filter_cons_of_pos (by decide), replies, replies,
        List.filter_cons_of_pos (by rfl), ih]
    | lineOfNext =>
      rw [List.filter_cons_of_neg (by decide), replies,
        List.filter_cons_of_neg Bool.false_ne_true, ih]
      rfl

/-- A cursor that has handed out the last entry stays there. -/
theorem next_of_last_eq_last (h : c.last = some (Fin.last n)) : c.next = Fin.last n := by
  rw [next, h]
  apply Fin.ext
  cases c.isPutBack with
  | true => rfl
  | false => exact Nat.min_eq_right (Nat.le_succ n)

theorem last_perform_of_last_eq_last {call : Reader.Call} (h : c.last = some (Fin.last n)) :
    (c.perform S call).2.last = some (Fin.last n) := by
  cases call with
  | read => exact congrArg some (next_of_last_eq_last h)
  | putBack =>
    show (if c.last.isSome && !c.isPutBack then _ else c).last = _
    split <;> exact h
  | lineOfNext => exact h

/-- After the last entry has been handed out no other is. -/
theorem eq_of_mem_replies_of_last_eq_last {t : Token} {calls : List Reader.Call}
    (h : c.last = some (Fin.last n)) (ht : .token t ∈ c.replies S calls) :
    t = (S.get (Fin.last n)).token := by
  induction calls generalizing c with
  | nil => cases ht
  | cons call calls ih =>
    rcases List.mem_cons.1 ht with hhead | htail
    · cases call with
      | read =>
        rw [Reader.Reply.token.inj hhead, next_of_last_eq_last h]
      | putBack | lineOfNext => cases hhead
    · exact ih (last_perform_of_last_eq_last h) htail

end Cursor

/-! ## A reader follows a cursor -/

namespace Reader

variable {n : Nat} {S : Vector Token.Located (n + 1)} {r : Reader} {c : Cursor n}

/-- The list ends with the end of the input and has no other. -/
def EndsOnce (S : Vector Token.Located (n + 1)) : Prop :=
  ∀ k, (S.get k).token = .inputEnd ↔ k = Fin.last n

/-- The reader has still to come what the cursor has ahead, and would have if it put back the last
token what the cursor would have. -/
structure Follows (S : Vector Token.Located (n + 1)) (r : Reader) (c : Cursor n) : Prop where
  unread : r.unread = S.toList.drop c.next
  mark : r.mark.map Position.tokens = c.readBack.map fun k : Fin (n + 1) => S.toList.drop k

theorem drop_toList (k : Fin (n + 1)) : S.toList.drop k = S.get k :: S.toList.drop (k + 1) := by
  have hk : (k : Nat) < S.toList.length := by
    rw [Vector.length_toList]
    exact k.isLt
  rw [List.drop_eq_getElem_cons hk, Vector.getElem_toList]
  rfl

theorem Follows.read_eq (h : r.Follows S c) : r.read.1 = S.get c.next := by
  have hhead := r.head?_unread
  rw [h.unread, drop_toList] at hhead
  exact (Option.some.inj hhead).symm

/-- What is still to come after reading is what comes after the entry handed out, or that entry if
it is the last. -/
theorem Follows.unread_read (hends : EndsOnce S) (h : r.Follows S c) :
    r.read.2.unread = S.toList.drop (min (c.next + 1) n) := by
  have hread := h.read_eq
  by_cases hkind : r.read.1.token.kind = .inputEnd
  · -- at the end of the input reading changes nothing, and neither does moving on
    have hend : r.read.1.token = .inputEnd := Position.token_eq_inputEnd hkind
    have hlast : c.next = Fin.last n := (hends c.next).1 (by rw [← hread, hend])
    obtain ⟨hunread, hunread'⟩ := unread_read_at_end hkind
    rw [hunread', ← hunread, h.unread, hlast, Fin.val_last, Nat.min_eq_right (Nat.le_succ n)]
  · have hne : c.next ≠ Fin.last n := by
      intro hlast
      apply hkind
      rw [hread, (hends c.next).2 hlast]
      rfl
    have hlt : (c.next : Nat) < n := Fin.val_lt_last hne
    have hunread := Reader.unread_read hkind
    rw [h.unread, drop_toList] at hunread
    rw [← (List.cons.inj hunread).2, Nat.min_eq_left hlt]

theorem follows_start {source : String} (hS : S.toList = locatedTokens source) :
    (ofSource source).Follows S (.start n) :=
  ⟨hS.symm, rfl⟩

/-- One call is answered alike, and afterwards the reader still follows the cursor. -/
theorem Follows.perform (hends : EndsOnce S) (h : r.Follows S c) (call : Call) :
    (r.perform call).1 = (c.perform S call).1 ∧
      (r.perform call).2.Follows S (c.perform S call).2 := by
  cases call with
  | read =>
    refine ⟨?_, h.unread_read hends, ?_⟩
    · show Reply.token r.read.1.token = .token (S.get c.next).token
      rw [h.read_eq]
    show some r.here.passTrivia.tokens = some (S.toList.drop c.next)
    rw [Position.tokens_passTrivia, ← h.unread]
    rfl
  | putBack =>
    refine ⟨rfl, ?_⟩
    show r.putBack.Follows S _
    have hmark := h.mark
    cases hback : c.readBack with
    | none =>
      rw [hback, Option.map_none, Option.map_eq_none_iff] at hmark
      rw [Cursor.perform_putBack_of_none hback]
      unfold putBack
      rw [hmark]
      exact h
    | some k =>
      rw [hback, Option.map_some, Option.map_eq_some_iff] at hmark
      obtain ⟨start, hstart, htokens⟩ := hmark
      rw [Cursor.perform_putBack_of_some hback]
      unfold putBack
      rw [hstart]
      exact ⟨htokens, rfl⟩
  | lineOfNext =>
    refine ⟨?_, ?_, h.mark⟩
    · show Reply.line r.lineOfNext.1 = .line (S.get c.next).line
      rw [lineOfNext_eq_line_read, h.read_eq]
    · exact r.unread_lineOfNext.trans h.unread

/-- All calls are answered alike. -/
theorem Follows.replies_eq (hends : EndsOnce S) (h : r.Follows S c) (calls : List Call) :
    r.replies calls = c.replies S calls := by
  induction calls generalizing r c with
  | nil => rfl
  | cons call calls ih =>
    obtain ⟨hreply, hnext⟩ := h.perform hends call
    rw [replies, Cursor.replies, hreply, ih hnext]

theorem Follows.after (hends : EndsOnce S) (h : r.Follows S c) (calls : List Call) :
    (r.after calls).Follows S (c.after S calls) := by
  induction calls generalizing r c with
  | nil => exact h
  | cons call calls ih => exact ih (h.perform hends call).2

/-- The tokens ahead of a position are a list that ends with its only end of the input. -/
theorem exists_endsOnce (p : Position) :
    ∃ (n : Nat) (S : Vector Token.Located (n + 1)), S.toList = p.tokens ∧ EndsOnce S := by
  obtain ⟨w, line, htokens, hw⟩ := p.tokens_eq_append_inputEnd
  have hlength : p.tokens.length = w.length + 1 := by
    rw [htokens, List.length_append, List.length_singleton]
  let S : Vector Token.Located (w.length + 1) := ⟨p.tokens.toArray, hlength⟩
  refine ⟨w.length, S, rfl, ?_⟩
  intro k
  have hget : some (S.get k) = (w ++ [⟨line, .inputEnd⟩])[(k : Nat)]? := by
    have hk : (k : Nat) < p.tokens.length := by
      rw [hlength]
      exact k.isLt
    rw [← htokens]
    exact (List.getElem?_eq_getElem hk).symm
  by_cases hk : (k : Nat) < w.length
  · rw [List.getElem?_append_left hk, List.getElem?_eq_getElem hk] at hget
    refine iff_of_false ?_ ?_
    · intro hend
      rw [Option.some.inj hget] at hend
      exact hw (List.mem_map.2 ⟨w[(k : Nat)], List.getElem_mem hk, hend⟩)
    · intro hlast
      rw [hlast, Fin.val_last] at hk
      exact Nat.lt_irrefl _ hk
  · have hlast : (k : Nat) = w.length := by omega
    rw [hlast, List.getElem?_concat_length] at hget
    refine iff_of_true ?_ (Fin.ext hlast)
    rw [Option.some.inj hget]

/-- There is one list of tokens with their lines, ending with its only end of the input, such that
whatever the calls and their order, a reader of the source answers as the cursor over the list. So
to ask for lines changes no other answer, and once the end of the input has been read, nothing else
is. -/
theorem replies_eq_replies_cursor (source : String) :
    ∃ (n : Nat) (S : Vector Token.Located (n + 1)),
      S.toList = locatedTokens source ∧
      (∀ k, (S.get k).token = .inputEnd ↔ k = Fin.last n) ∧
      (∀ calls, (ofSource source).replies calls = (Cursor.start n).replies S calls) ∧
      (∀ calls, ((ofSource source).replies calls).filter (!·.tellsLine) =
        (ofSource source).replies (calls.filter (· ≠ .lineOfNext))) ∧
      ∀ calls later t, ((ofSource source).after calls).read.1.token = .inputEnd →
        .token t ∈ ((ofSource source).after calls).read.2.replies later → t = .inputEnd := by
  obtain ⟨n, S, hS, hends⟩ := exists_endsOnce (.ofSource source)
  have hstart : (ofSource source).Follows S (.start n) := follows_start hS
  have hreplies := hstart.replies_eq hends
  refine ⟨n, S, hS, hends, hreplies, ?_, ?_⟩
  · intro calls
    rw [hreplies, hreplies, Cursor.filter_replies]
  · intro calls later t hend ht
    have hafter := hstart.after hends calls
    have hlast : (Cursor.after S (.start n) calls).next = Fin.last n := by
      rw [← hends, ← hafter.read_eq, hend]
    have hlater : ((ofSource source).after calls).read.2.replies later = _ :=
      (hafter.perform hends .read).2.replies_eq hends later
    rw [hlater] at ht
    rw [Cursor.eq_of_mem_replies_of_last_eq_last (congrArg some hlast) ht, (hends _).2 rfl]

end Reader

end BugsLang
