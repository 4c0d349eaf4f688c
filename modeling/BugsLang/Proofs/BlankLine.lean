import BugsLang.Proofs.Matcher.Similar
import BugsLang.Proofs.Rejection
import BugsLang.Proofs.Text.Layout

/-!
# Blank lines

Behind the end of a line a blank line makes no difference. It is one more end of a line in a row,
and no rule reads only some of those.

## Main definitions

* `Spaced e behind us us'`: one more line ends in the second list, behind `e`.

## Main statements

* `keptByReading_spaced`: tokens stay so when they are read.
* `blank_line_makes_no_difference`: every rule, and the whole program.
-/

namespace BugsLang

open Matcher

variable {e t t' : Token.Located} {before behind us us' : List Token.Located}

/-- The second list has one more end of a line behind `e`, and what comes behind that is one line
further down. Or `e` has been read already, and all of the second list is one line further down. -/
inductive Spaced (e : Token.Located) (behind : List Token.Located) :
    List Token.Located → List Token.Located → Prop where
  | before (w : List Token.Located) :
      Spaced e behind (w ++ e :: behind) (w ++ e :: e.down 1 :: behind.map (Token.Located.down 1))
  | after {us : List Token.Located} (h : us <:+ behind) :
      Spaced e behind us (us.map (Token.Located.down 1))

namespace Spaced

theorem token_eq (h : Spaced e behind (t :: us) (t' :: us')) : t'.token = t.token := by
  generalize hus : t :: us = ts at h
  generalize hus' : t' :: us' = ts' at h
  cases h with
  | before w =>
    cases w with
    | nil => rw [(List.cons.inj hus).1, (List.cons.inj hus').1]
    | cons c w => rw [(List.cons.inj hus).1, (List.cons.inj hus').1]
  | after h =>
    rw [← hus] at hus'
    rw [(List.cons.inj hus').1]
    rfl

/-- To read a token that does not end a line is not to come past the blank line. -/
theorem tail (he : e.token.kind = .lineEnd) (h : Spaced e behind (t :: us) (t' :: us'))
    (hline : t.token.kind ≠ .lineEnd) : Spaced e behind us us' := by
  generalize hus : t :: us = ts at h
  generalize hus' : t' :: us' = ts' at h
  cases h with
  | before w =>
    cases w with
    | nil =>
      rw [(List.cons.inj hus).1] at hline
      exact absurd he hline
    | cons c w =>
      rw [(List.cons.inj hus).2, (List.cons.inj hus').2]
      exact .before w
  | after h =>
    rw [← hus] at hus' h
    rw [(List.cons.inj hus').2]
    exact .after ((List.suffix_cons t us).trans h)

/-- To read all ends of lines that come next is to come past the blank line or not to come to it. -/
theorem dropLineEnds (he : e.token.kind = .lineEnd) (h : Spaced e behind us us') :
    Spaced e behind (dropLineEnds us) (dropLineEnds us') := by
  cases h with
  | after h =>
    rw [dropLineEnds_map_down]
    exact .after ((List.dropWhile_suffix _).trans h)
  | before w =>
    induction w with
    | nil =>
      have he' : (e.down 1).token.kind = .lineEnd := he
      rw [List.nil_append, List.nil_append, dropLineEnds_cons_of_eq he, dropLineEnds_cons_of_eq he,
        dropLineEnds_cons_of_eq he', dropLineEnds_map_down]
      exact .after (List.dropWhile_suffix _)
    | cons c w ih =>
      rw [List.cons_append, List.cons_append]
      by_cases hc : c.token.kind = .lineEnd
      · rw [dropLineEnds_cons_of_eq hc, dropLineEnds_cons_of_eq hc]
        exact ih
      · rw [dropLineEnds_cons_of_ne hc, dropLineEnds_cons_of_ne hc]
        exact .before (c :: w)

/-- What is left of two such lists is told by one index, and so is how far down it is. -/
theorem exists_drop (h : Spaced e behind us us') (hus : us <:+ before ++ e :: behind) :
    ∃ i, us = (before ++ e :: behind).drop i ∧
      us' = (before ++ e :: e.down 1 :: behind.map (Token.Located.down 1)).drop
        (i + if i ≤ before.length then 0 else 1) ∧
      us'.head? = us.head?.map (Token.Located.down (if i ≤ before.length then 0 else 1)) := by
  cases h with
  | before w =>
    obtain ⟨x, hx⟩ := hus
    rw [← List.append_assoc, List.append_cancel_right_eq] at hx
    subst hx
    have hle : x.length ≤ (x ++ w).length := by
      rw [List.length_append]
      omega
    refine ⟨x.length, ?_, ?_, ?_⟩
    · rw [List.append_assoc, List.drop_left]
    · rw [if_pos hle, Nat.add_zero, List.append_assoc, List.drop_left]
    · rw [if_pos hle]
      cases w <;> rfl
  | after h =>
    obtain ⟨w, rfl⟩ := h
    have hlt : ¬ (before ++ e :: w).length ≤ before.length := by
      rw [List.length_append, List.length_cons]
      omega
    refine ⟨(before ++ e :: w).length, ?_, ?_, ?_⟩
    · rw [← List.cons_append, ← List.append_assoc, List.drop_left]
    · have hsplit : before ++ e :: e.down 1 :: (w ++ us).map (Token.Located.down 1) =
          (before ++ e :: e.down 1 :: w.map (Token.Located.down 1)) ++
            us.map (Token.Located.down 1) := by
        rw [List.map_append, List.append_assoc, List.cons_append, List.cons_append]
      have hlength : (before ++ e :: w).length + 1 =
          (before ++ e :: e.down 1 :: w.map (Token.Located.down 1)).length := by
        simp only [List.length_append, List.length_cons, List.length_map]
        omega
      rw [if_neg hlt, hsplit, hlength, List.drop_left]
    · rw [if_neg hlt, List.head?_map]

end Spaced

theorem keptByReading_spaced (he : e.token.kind = .lineEnd) (behind : List Token.Located) :
    KeptByReading (fun _ => True) (Spaced e behind) where
  of_append := fun _ h => h
  token_eq := Spaced.token_eq
  tail := fun h hline _ _ => h.tail he hline
  dropLineEnds := fun h _ => h.dropLineEnds he

/-- Behind a blank line the rules come out as they do without it. -/
theorem exists_attempt_of_blankLine {source source' : String} (he : e.token.kind = .lineEnd)
    (hsource : locatedTokens source = before ++ e :: behind)
    (hsource' : locatedTokens source' =
      before ++ e :: e.down 1 :: behind.map (Token.Located.down 1)) (rule : Rule) :
    ∃ i, let n := if i ≤ before.length then 0 else 1
      ((ofSource source).attempt rule).2.unread = (locatedTokens source).drop i ∧
      ((ofSource source').attempt rule).2.unread = (locatedTokens source').drop (i + n) ∧
      ((ofSource source').attempt rule).1 = ((ofSource source).attempt rule).1.down n ∧
      ((ofSource source').attempt rule).2.next =
        ((ofSource source).attempt rule).2.next.down n := by
  have hm := reachable_ofSource source
  have hsimilar : Similar (Spaced e behind) (ofSource source) (ofSource source') := by
    refine ⟨?_, rfl⟩
    rw [unread_ofSource, unread_ofSource, hsource, hsource']
    exact .before before
  obtain ⟨houtcome, hafter⟩ := attempt_similar (keptByReading_spaced he behind) hsimilar rule
    (hm.hasRoom_iff.2 (Nat.zero_le _)) trivial
  have hjust := hm.justified rule
  obtain ⟨w, hread⟩ := hjust.exists_reads
  have hsuffix : ((ofSource source).attempt rule).2.unread <:+ before ++ e :: behind := by
    rw [← hsource, ← unread_ofSource, hread.unread]
    exact List.suffix_append _ _
  obtain ⟨i, hleft, hleft', hhead⟩ := hafter.unread.exists_drop hsuffix
  rw [head?_unread, head?_unread, Option.map_some, Option.some.injEq] at hhead
  refine ⟨i, by rw [hleft, hsource], by rw [hleft', hsource'], ?_, hhead⟩
  rw [houtcome, hhead]
  exact hjust.mapFound_eq rfl _

/-- In front of a blank line the end of a line is ahead, and all the rest one line further down. -/
theorem Position.tokens_of_blankLine (v : List Char) (line : Nat) :
    (⟨' ' :: '\n' :: v, line⟩ : Position).tokens =
      ⟨line, .lineEnd⟩ :: (⟨v, line⟩ : Position).tokens.map (Token.Located.down 1) := by
  have hblank : isBlank ' ' = true := by decide
  rw [tokens_of_isBlank hblank rfl, tokens_of_lexeme (l := .lineEnd .lf) rfl trivial, ← tokens_down]
  rfl

/-- The tokens of a source with a blank line right behind the end of a line. -/
theorem CutBehind.exists_tokens_blankLine {u v : String} {style : LineEnd}
    (h : CutBehind (.lineEnd style) u v) :
    ∃ before e behind line, e.token = .lineEnd ∧
      locatedTokens u = before ++ [e, ⟨line, .inputEnd⟩] ∧
      locatedTokens (u ++ v) = before ++ e :: behind ∧
      locatedTokens (u ++ " \n" ++ v) =
        before ++ e :: e.down 1 :: behind.map (Token.Located.down 1) := by
  obtain ⟨before, hu, htokens⟩ := h.exists_tokens_lineEnd
  refine ⟨before, _, _, _, rfl, hu, htokens v (.inl rfl), ?_⟩
  have hline : " \n".toList = [' ', '\n'] := rfl
  have htext : (" \n" ++ v).toList = ' ' :: '\n' :: v.toList := by
    rw [String.toList_append, hline]
    rfl
  have hfeed : (" \n" ++ v).toList.head? ≠ some '\n' := by
    rw [htext]
    exact fun h => nomatch h
  rw [String.append_assoc, htokens _ (.inr hfeed), htext, Position.tokens_of_blankLine,
    Nat.add_comm 1]
  rfl

/-- A blank line right behind the end of a line makes no difference. The tokens before it stay on
their lines, it is one more end of a line, and those behind it are one line further down. Every rule
comes out as it does without the blank line and leaves the same tokens, apart from the one more end
of a line. The source is valid if it was so before. A fault or a rejection moves with the token that
it is about. -/
theorem blank_line_makes_no_difference {u v : String} {style : LineEnd}
    (hcut : CutBehind (.lineEnd style) u v) :
    let source := u ++ v
    let spaced := u ++ " \n" ++ v
    ∃ before e behind line,
      let shift (i : Nat) := if i ≤ before.length then 0 else 1
      e.token = .lineEnd ∧ locatedTokens u = before ++ [e, ⟨line, .inputEnd⟩] ∧
      locatedTokens source = before ++ e :: behind ∧
      locatedTokens spaced = before ++ e :: e.down 1 :: behind.map (Token.Located.down 1) ∧
      (∀ rule, ∃ i,
        ((ofSource source).attempt rule).2.unread = (locatedTokens source).drop i ∧
        ((ofSource spaced).attempt rule).2.unread = (locatedTokens spaced).drop (i + shift i) ∧
        ((ofSource spaced).attempt rule).1 = ((ofSource source).attempt rule).1.down (shift i) ∧
        ∀ d, ((ofSource source).attempt rule).1 = .fault d →
          (locatedTokens source)[i]? = some d.found) ∧
      (validate source = .ok () → validate spaced = .ok ()) ∧
      ∀ rejection, validate source = .error rejection →
        ∃ i, rejection.IsAt source i ∧ validate spaced = .error (rejection.down (shift i)) := by
  intro source spaced
  obtain ⟨before, e, behind, line, he, hu, hsource, hspaced⟩ := hcut.exists_tokens_blankLine
  have hkind : e.token.kind = .lineEnd := congrArg Token.kind he
  refine ⟨before, e, behind, line, he, hu, hsource, hspaced, ?_, ?_, ?_⟩
  · intro rule
    obtain ⟨i, hleft, hleft', houtcome, -⟩ :=
      exists_attempt_of_blankLine hkind hsource hspaced rule
    refine ⟨i, hleft, hleft', houtcome, ?_⟩
    intro d hfault
    obtain ⟨w, rest, -, hfound⟩ := exists_unread_of_fault (reachable_ofSource source) hfault
    rw [← List.head?_drop, ← hleft, hfound, List.head?_cons]
  · intro hvalid
    obtain ⟨i, -, -, houtcome, hnext⟩ :=
      exists_attempt_of_blankLine hkind hsource hspaced .program
    rw [validate_eq_mapError houtcome hnext (by rw [hnext, Token.Located.token_down]), hvalid]
    rfl
  · intro rejection hrejected
    obtain ⟨i, hleft, -, houtcome, hnext⟩ :=
      exists_attempt_of_blankLine hkind hsource hspaced .program
    refine ⟨i, isAt_of_unread_eq_drop hrejected hleft, ?_⟩
    rw [validate_eq_mapError houtcome hnext (by rw [hnext, Token.Located.token_down]), hrejected]
    rfl

/-- A blank line is put in front of a line on which a bracket stands where an expression has to
follow. -/
theorem blank_line_makes_no_difference_before_bracket :
    let u := "Bug b\x7b\r\n"
    let v := "move )\n"
    let d : Diagnostic := ⟨.move, .expression, ⟨2, .symbol, ")"⟩⟩
    CutBehind (.lineEnd .crlf) u v ∧ validate (u ++ v) = .error (.fault d) ∧
      validate (u ++ " \n" ++ v) = .error ((Rejection.fault d).down 1) := by
  intro u v d
  have hcut : CutBehind (.lineEnd .crlf) u v := by
    refine ⟨[.lexeme (.word ['B', 'u', 'g']), .trivia (.blanks [' ']), .lexeme (.word ['b']),
      .lexeme (.mark '\x7b')], [.lexeme (.word ['m', 'o', 'v', 'e']), .trivia (.blanks [' ']),
      .lexeme (.mark ')'), .lexeme (.lineEnd .lf)], ?_, ?_⟩ <;> decide +kernel
  have hrejected : validate (u ++ v) = .error (.fault d) := by decide +kernel
  refine ⟨hcut, hrejected, ?_⟩
  obtain ⟨before, e, behind, line, -, hbefore, -, -, -, -, hmoves⟩ :=
    blank_line_makes_no_difference hcut
  obtain ⟨i, hat, hmoved⟩ := hmoves _ hrejected
  -- three tokens come before the end of the line, and the bracket is none of them
  have htokens : locatedTokens u =
      [⟨1, .reserved, "Bug"⟩, ⟨1, .name, "b"⟩, ⟨1, .symbol, "\x7b"⟩] ++
        [⟨1, .lineEnd⟩, ⟨2, .inputEnd⟩] := by decide +kernel
  obtain ⟨rfl, -⟩ := List.append_inj' (hbefore.symm.trans htokens) rfl
  have hearlier : ∀ i ≤ 3, (locatedTokens (u ++ v))[i]? ≠ some d.found := by decide +kernel
  have hlater : ¬ i ≤ 3 := fun hi => hearlier i hi hat.1
  rw [hmoved]
  exact congrArg (fun n => Except.error ((Rejection.fault d).down n)) (if_neg hlater)

end BugsLang
