import BugsLang.Proofs.Rejection
import BugsLang.Proofs.Text.Layout
import BugsLang.Proofs.Text.LineStyle

/-!
# The look of a source

How a source is laid out, and how its lines end, has no part in whether it is valid. Layout that is
put between two tokens only moves what comes behind it, and a rejection moves with its token. To
write all line ends in the same style moves nothing.

## Main statements

* `layout_makes_no_difference`: blank characters and comments between two tokens.
* `line_end_style_makes_no_difference`: line feeds in place of other line ends.
-/

namespace BugsLang

open Matcher

/-- Of two lists, only the tokens in the second one are moved down. -/
theorem getElem?_append_map_down (before behind : List Token.Located) (n i : Nat) :
    (before ++ behind.map (Token.Located.down n))[i]? =
      (before ++ behind)[i]?.map (Token.Located.down (if i < before.length then 0 else n)) := by
  by_cases hi : i < before.length
  · have hzero : Token.Located.down 0 = id := rfl
    rw [if_pos hi, List.getElem?_append_left hi, List.getElem?_append_left hi, hzero,
      Option.map_id_fun, id]
  · rw [if_neg hi, List.getElem?_append_right (by omega), List.getElem?_append_right (by omega),
      List.getElem?_map]

/-- Layout between two tokens, or in front of the first one, makes no difference. The tokens are the
same. Those before the layout, which are those of `u`, stay on their lines, and those behind it are
as many lines further down as lines end in the layout. The source is valid if it was so before, and
a rejection moves with the token that it is about. -/
theorem layout_makes_no_difference {u v w : String} (hgap : IsGap u v) (hlayout : Layout w) :
    let n := (lineEnds w.toList).length
    ∃ before behind line,
      locatedTokens u = before ++ [⟨line, .inputEnd⟩] ∧
      locatedTokens (u ++ v) = before ++ behind ∧
      locatedTokens (u ++ w ++ v) = before ++ behind.map (Token.Located.down n) ∧
      tokensOf (locatedTokens (u ++ w ++ v)) = tokensOf (locatedTokens (u ++ v)) ∧
      (validate (u ++ v) = .ok () → validate (u ++ w ++ v) = .ok ()) ∧
      ∀ rejection, validate (u ++ v) = .error rejection →
        ∃ i, rejection.IsAt (u ++ v) i ∧
          validate (u ++ w ++ v) =
            .error (rejection.down (if i < before.length then 0 else n)) := by
  intro n
  obtain ⟨before, behind, line, hbefore, hall, hmoved⟩ := hgap.exists_tokens_layout hlayout
  have htokens : tokensOf (locatedTokens (u ++ w ++ v)) = tokensOf (locatedTokens (u ++ v)) := by
    rw [hall, hmoved, tokensOf_append, tokensOf_append, tokensOf_map_down]
  refine ⟨before, behind, line, hbefore, hall, hmoved, htokens,
    validate_eq_ok_of_tokensOf_eq htokens, ?_⟩
  intro rejection hrejected
  obtain ⟨i, t, hat, ht, hsame⟩ := exists_isAt_of_tokensOf_eq htokens hrejected
  refine ⟨i, hat, ?_⟩
  rw [hmoved, getElem?_append_map_down, ← hall, hat.1] at ht
  rw [hsame, ← Option.some.inj ht, Rejection.mapFound_found]
  rfl

/-- A comment and a tab are put in front of a bracket, which stands where a name has to follow. -/
theorem layout_makes_no_difference_before_bracket :
    let w := " /*\r\n*/\t"
    let d : Diagnostic := ⟨.bug, .name, ⟨1, .symbol, "("⟩⟩
    IsGap "Bug" "(" ∧ Layout w ∧ validate ("Bug" ++ "(") = .error (.fault d) ∧
      validate ("Bug" ++ w ++ "(") = .error ((Rejection.fault d).down 1) := by
  intro w d
  have hgap : IsGap "Bug" "(" := by
    have hcut : CutBehind (.word ['B', 'u', 'g']) "Bug" "(" :=
      ⟨[], [.lexeme (.mark '(')], by decide +kernel, by decide +kernel⟩
    exact .behind hcut trivial
  have hlayout : Layout w := by
    have htab : Filler ['\t'] := .blank (by decide) .nil
    have hcomment := @Filler.comment ['\r', '\n'] ['\t'] (by decide) htab
    exact ⟨' ', _, by decide +kernel, by decide, hcomment⟩
  have hrejected : validate ("Bug" ++ "(") = .error (.fault d) := by decide +kernel
  refine ⟨hgap, hlayout, hrejected, ?_⟩
  obtain ⟨before, behind, line, hbefore, -, -, -, -, hmoves⟩ :=
    layout_makes_no_difference hgap hlayout
  obtain ⟨i, hat, hmoved⟩ := hmoves _ hrejected
  -- the name of the section comes before the layout, and the bracket is not that name
  have htokens : locatedTokens "Bug" = [⟨1, .reserved, "Bug"⟩] ++ [⟨1, .inputEnd⟩] := by
    decide +kernel
  obtain ⟨rfl, -⟩ := List.append_inj' (hbefore.symm.trans htokens) rfl
  have hi : ¬ i < 1 := by
    intro hi
    obtain rfl : i = 0 := by omega
    exact absurd hat.1 (by decide +kernel)
  rw [hmoved, List.length_singleton, if_neg hi]
  decide +kernel

/-- It makes no difference whether the lines of a source end with line feeds, carriage returns or
pairs of them. With line feeds in place of all others the source has the same tokens on the same
lines, the program comes out in the same way, and the source is valid or rejected as it was. -/
theorem line_end_style_makes_no_difference (source : String) :
    let unified := String.ofList (unifyLineEnds source.toList)
    locatedTokens unified = locatedTokens source ∧
      programOutcome unified = programOutcome source ∧ validate unified = validate source := by
  intro unified
  have htokens : locatedTokens unified = locatedTokens source := locatedTokens_unifyLineEnds source
  obtain ⟨houtcome, -⟩ := (reachable_ofSource source).attempt_eq_of_unread_eq
    (reachable_ofSource unified) htokens .program
  exact ⟨htokens, houtcome, validate_eq_of_locatedTokens_eq htokens⟩

end BugsLang
