import BugsLang.Proofs.Matcher.Restart
import BugsLang.Proofs.Recovery

/-!
# Rejections of two sources

A source is rejected at the first token that the program left unread. If another source has the same
tokens, or at least the program comes out in the same way there, then it is rejected for the same
reason, at a token of its own.

## Main definitions

* `Rejection.mapFound`, `Rejection.down`: the rejection with another token found, or on another
  line.
* `Rejection.IsAt source i rejection`: the rejection is about the token with index `i`.

## Main statements

* `validate_eq_mapError`: two sources for which the program comes out in the same way.
* `exists_isAt_of_tokensOf_eq`: a rejection of a source and that of another with the same tokens.
* `validate_eq_of_locatedTokens_eq`: two sources with the same tokens on the same lines.
-/

namespace BugsLang

namespace Rejection

/-- The rejection, with the token found replaced by its image. -/
def mapFound (f : Token.Located → Token.Located) : Rejection → Rejection
  | fault d => fault { d with found := f d.found }
  | noProgram found => noProgram (f found)
  | leftover found => leftover (f found)

/-- The rejection, with its token found `n` lines further down. -/
def down (n : Nat) (rejection : Rejection) : Rejection :=
  rejection.mapFound (Token.Located.down n)

/-- The rejection is about the token of the source with this index, and that is the first one that
the program leaves unread. -/
def IsAt (source : String) (i : Nat) (rejection : Rejection) : Prop :=
  (locatedTokens source)[i]? = some rejection.found ∧
    ((Matcher.ofSource source).attempt .program).2.unread = (locatedTokens source).drop i

/-- Only the image of the token found matters. -/
theorem mapFound_found (f : Token.Located → Token.Located) (rejection : Rejection) :
    rejection.mapFound (fun _ => f rejection.found) = rejection.mapFound f := by
  cases rejection <;> rfl

end Rejection

open Matcher

variable {source source' : String} {rejection : Rejection} {t : Token.Located}

/-- What a rejection is about is the first token that the program leaves unread. -/
theorem isAt_of_unread_eq_drop {i : Nat} (h : validate source = .error rejection)
    (hleft : ((ofSource source).attempt .program).2.unread = (locatedTokens source).drop i) :
    rejection.IsAt source i := by
  obtain ⟨w, rest, -, hfound⟩ := exists_unread_of_rejection h
  refine ⟨?_, hleft⟩
  rw [← List.head?_drop, ← hleft, hfound, List.head?_cons]

/-- Where the program comes out in the same way, but for the token that it leaves, the source is
valid or rejected as the other one is. -/
theorem validate_eq_mapError {f : Token.Located → Token.Located}
    (houtcome : ((ofSource source').attempt .program).1 =
      ((ofSource source).attempt .program).1.mapFound f)
    (hnext : ((ofSource source').attempt .program).2.next =
      f ((ofSource source).attempt .program).2.next)
    (htoken : ((ofSource source').attempt .program).2.next.token =
      ((ofSource source).attempt .program).2.next.token) :
    validate source' = (validate source).mapError (Rejection.mapFound f) := by
  rw [validate_eq, validate_eq, houtcome, htoken, hnext]
  cases ((ofSource source).attempt .program).1 with
  | fault | unmatched => rfl
  | matched =>
    show (if _ then _ else _) = Except.mapError _ (if _ then _ else _)
    split <;> rfl

/-- A rejection of a source is about the token with some index. Another source with the same tokens
is rejected for the same reason, at the token with the same index. -/
theorem exists_isAt_of_tokensOf_eq
    (htokens : tokensOf (locatedTokens source') = tokensOf (locatedTokens source))
    (h : validate source = .error rejection) :
    ∃ i t, rejection.IsAt source i ∧ (locatedTokens source')[i]? = some t ∧
      validate source' = .error (rejection.mapFound fun _ => t) := by
  obtain ⟨w, rest, hunread, hleft⟩ := exists_unread_of_rejection h
  have hmap := htokens
  rw [hunread, tokensOf_append] at hmap
  obtain ⟨w', after, hunread', hw, hafter⟩ := List.map_eq_append_iff.1 hmap
  obtain ⟨t, rest', rfl, ht, -⟩ := List.map_eq_cons_iff.1 hafter
  have hlength : w'.length = w.length := by
    rw [← List.length_map Token.Located.token, hw, tokensOf, List.length_map]
  have hm := reachable_ofSource source
  have hdepth : (ofSource source').depth = (ofSource source).depth := rfl
  obtain ⟨houtcome, hleft'⟩ := attempt_of_tokensOf_eq .program (hm.hasRoom_iff.2 (Nat.zero_le _))
    hdepth hunread hunread' hw ht hleft
  refine ⟨w.length, t, isAt_of_unread_eq_drop h ?_, ?_, ?_⟩
  · rw [hleft, hunread, List.drop_left]
  · simp [hunread', ← hlength]
  · rw [validate_eq_mapError houtcome (next_of_unread hleft'), h]
    · rfl
    · rw [next_of_unread hleft', ht, next_of_unread hleft]

/-- A source with the tokens of a valid one is valid. -/
theorem validate_eq_ok_of_tokensOf_eq
    (htokens : tokensOf (locatedTokens source') = tokensOf (locatedTokens source))
    (h : validate source = .ok ()) : validate source' = .ok () := by
  rw [validate_eq_ok_iff_derives] at h ⊢
  rwa [htokens]

/-! ## The same tokens on the same lines -/

/-- A rule comes out in the same way wherever the same tokens are ahead on the same lines. -/
theorem Matcher.Reachable.attempt_eq_of_unread_eq {m m' : Matcher} (hm : m.Reachable)
    (hm' : m'.Reachable) (h : m'.unread = m.unread) (rule : Rule) :
    (m'.attempt rule).1 = (m.attempt rule).1 ∧
      (m'.attempt rule).2.unread = (m.attempt rule).2.unread := by
  obtain ⟨w, t, rest, hunread, hleft⟩ := hm.exists_unread rule
  rw [hleft]
  exact hm.attempt_eq hm' hunread hleft (h.trans hunread)

/-- Two sources with the same tokens on the same lines are both valid or rejected alike. -/
theorem validate_eq_of_locatedTokens_eq (h : locatedTokens source' = locatedTokens source) :
    validate source' = validate source := by
  obtain ⟨houtcome, hleft⟩ := (reachable_ofSource source).attempt_eq_of_unread_eq
    (reachable_ofSource source') h .program
  obtain ⟨rest, hunread⟩ := ((ofSource source).attempt .program).2.unread_eq_cons
  rw [validate_eq, validate_eq, houtcome, next_of_unread (hleft.trans hunread)]

end BugsLang
