import BugsLang.Proofs.Grammar.Expectation
import BugsLang.Proofs.Matcher.Similar
import BugsLang.Proofs.Rejection
import BugsLang.Proofs.Text.Seam

/-!
# Programs one after the other

Behind a program whose last line has just ended another one can follow. The definitions of its bugs
are taken for more definitions of the first program, and the outcome is that of the second program,
only further down.

## Main statements

* `Ends.behind_lead`, `Ends.behind_repeated`: how matching goes on behind what has been read.
* `programs_compose`: the outcome of a program with another text behind it.
-/

namespace BugsLang

/-- The word that the definition of a bug starts with. -/
def bugWord : Token := ⟨.reserved, "Bug"⟩

namespace Matcher

variable {limit : Option Nat} {within : Rule} {p q : Phrase} {m m₁ : Matcher} {outcome : Outcome}
  {n : Nat} {u rest : List Token.Located} {t : Token.Located}

/-! ## Behind what has been read -/

/-- When the first part of a compound phrase is ahead, and the token behind it is not one to go on
with, then the rest of the compound phrase comes next. -/
theorem Ends.behind_lead (h : Ends limit within p m outcome m₁) (hlead : p.lead = some q)
    (hpred : p.predictive = true) (hroom : m.HasRoom limit n) (hunread : m.unread = u ++ t :: rest)
    (hderives : Derives Rule.phrase n q (tokensOf u))
    (hstops : ¬ admits q.continues t.token = true) :
    ∃ m', m'.unread = t :: rest ∧ m'.depth = m.depth ∧
      Resumes limit within (p.sequel .matched) m' outcome m₁ := by
  have hq := Phrase.predictive_of_lead hpred hlead
  have hroom₀ : m.HasRoom limit 0 :=
    fun bound hbound => Nat.le_of_add_right_le (hroom bound hbound)
  obtain ⟨o, m', hfirst, hresumes⟩ := (ends_iff_of_lead hlead).1 h
  have hjust := hfirst.justified hq hroom₀
  obtain ⟨rfl, hleft⟩ := hjust.matched_of_derives hroom hunread hderives fun hviable =>
    hstops (hviable.admits_continues hq hderives)
  exact ⟨m', hleft, hjust.depth_eq, hresumes⟩

/-- Any number of instances of a phrase and then a token that starts it begin with such a token. -/
theorem exists_cons_of_derives_repeated
    (hderives : Derives Rule.phrase n (.repeated p) (tokensOf u))
    (hstart : admits p.starts t.token = true) (rest : List Token.Located) :
    ∃ c others, u ++ t :: rest = c :: others ∧ admits p.starts c.token = true := by
  cases u with
  | nil => exact ⟨t, rest, rfl, hstart⟩
  | cons c u => exact ⟨c, u ++ t :: rest, rfl, hderives.admits_starts⟩

/-- When a repetition has been read up to a place where it starts again, it goes on from there. -/
theorem Ends.behind_repeated (h : Ends limit within (.repeated p) m outcome m₁)
    (hpred : (Phrase.repeated p).predictive = true) (hroom : m.HasRoom limit n)
    (hunread : m.unread = u ++ t :: rest)
    (hderives : Derives Rule.phrase n (.repeated p) (tokensOf u))
    (hstart : admits p.starts t.token = true) :
    ∃ m', m'.unread = t :: rest ∧ m'.depth = m.depth ∧
      Ends limit within (.repeated p) m' outcome m₁ := by
  generalize hq : Phrase.repeated p = q at hderives
  generalize hw : tokensOf u = w at hderives
  induction hderives generalizing m u with
  | none =>
    obtain rfl := Phrase.repeated.inj hq
    obtain rfl : u = [] := List.map_eq_nil_iff.1 hw
    exact ⟨m, hunread, rfl, h⟩
  | @more n _ a b ha hb _ ih =>
    obtain rfl := Phrase.repeated.inj hq
    obtain ⟨u₁, u₂, rfl, rfl, rfl⟩ := List.map_eq_append_iff.1 hw
    rw [List.append_assoc] at hunread
    -- behind the first instance comes a token that starts the phrase, and does not continue it
    obtain ⟨c, others, hbehind, hc⟩ := exists_cons_of_derives_repeated hb hstart rest
    obtain ⟨-, -, hapart⟩ := Phrase.predictive_repeated.1 hpred
    obtain ⟨m₂, hleft, hdepth, hresumes⟩ := h.behind_lead rfl hpred hroom (hbehind ▸ hunread) ha
      fun hcontinues => false_of_apart hapart hcontinues hc
    obtain ⟨m', hleft', hdepth', hends⟩ :=
      ih hresumes (hroom.of_depth_eq hdepth) (hleft.trans hbehind.symm) hq rfl
    exact ⟨m', hleft', hdepth'.trans hdepth, hends⟩
  | token | rule | seq | first | second | absent | present | required | bracketed => cases hq

/-! ## Programs -/

/-- Where a bug is to be defined next, a program is any number of definitions of bugs. -/
theorem Ends.program_of_bugWord (h : Ends limit .program Rule.program.phrase m outcome m₁)
    (hroom : m.HasRoom limit 0) (hnext : m.next.token = bugWord) :
    Ends limit .program (.repeated (.rule .bug)) m.peeked outcome m₁ := by
  obtain ⟨o, m₂, hfirst, hrest⟩ := (ends_iff_of_lead rfl).1 h
  obtain ⟨o₂, m₃, hshared, hbug⟩ := (ends_iff_of_lead rfl).1 hfirst
  obtain ⟨o₃, m₄, hhead, hsecond⟩ := (ends_iff_of_lead rfl).1 hshared
  -- there is no section with what all bugs share
  have hnone : ¬ Viable Rule.phrase (.rule .shared) [m.next.token] := by
    rw [hnext]
    exact fun hviable => absurd hviable.admits_starts (by decide)
  have hjust := hhead.justified rfl hroom
  obtain rfl := (hjust.eq_unmatched_iff rfl rfl).2 hnone
  obtain rfl := hjust.eq_peeked
  obtain ⟨rfl, rfl⟩ := resumes_outcome_iff.1 hsecond
  -- so the program starts with the definition of a bug, as the repetition does
  have hbug : Ends limit .program (.rule .bug) m.peeked o m₂ := hbug
  have hsome : Viable Rule.phrase (.rule .bug) [m.peeked.next.token] := by
    rw [next_peeked, hnext]
    exact viable_of_starts_eq rfl rfl rfl
  have hne := mt ((hbug.justified rfl hroom).eq_unmatched_iff rfl rfl).1 (not_not_intro hsome)
  refine (ends_iff_of_lead rfl).2 ⟨o, m₂, hbug, ?_⟩
  cases o with
  | matched | fault => exact hrest
  | unmatched => exact absurd rfl hne

/-- Behind a program another one comes out as any number of definitions of bugs. -/
theorem Ends.behind_program (h : Ends limit .program Rule.program.phrase m outcome m₁)
    (hroom : m.HasRoom limit n) (hunread : m.unread = u ++ t :: rest)
    (hderives : Derives Rule.phrase n Rule.program.phrase (tokensOf u)) (ht : t.token = bugWord) :
    ∃ m', m'.unread = t :: rest ∧ m'.depth = m.depth ∧
      Ends limit .program (.repeated (.rule .bug)) m' outcome m₁ := by
  obtain ⟨a, b, hab, ha, hb⟩ := derives_seq_iff.1 hderives
  obtain ⟨u₁, u₂, rfl, rfl, rfl⟩ := List.map_eq_append_iff.1 hab
  have hstart : admits (Phrase.rule .bug).starts t.token = true := by
    rw [ht]
    rfl
  rw [List.append_assoc] at hunread
  obtain ⟨c, others, hbehind, hc⟩ := exists_cons_of_derives_repeated hb hstart rest
  obtain ⟨m₂, hleft, hdepth, hresumes⟩ := h.behind_lead rfl (Rule.predictive_phrase .program) hroom
    (hbehind ▸ hunread) ha fun hcontinues => false_of_apart (by decide) hcontinues hc
  have hrest : Ends limit .program (.repeated (.rule .bug)) m₂ outcome m₁ := hresumes
  obtain ⟨m', hleft', hdepth', hends⟩ := hrest.behind_repeated rfl
    (hroom.of_depth_eq hdepth) (hleft.trans hbehind.symm) hb hstart
  exact ⟨m', hleft', hdepth'.trans hdepth, hends⟩

/-- Behind a program, and some lines further down, another one comes out as it does on its own, and
it is not missing. -/
theorem outcome_behind_program {source source' : String}
    (hunread : locatedTokens source' = u ++ (locatedTokens source).map (Token.Located.down n))
    (hderives : Derives Rule.phrase nestingLimit Rule.program.phrase (tokensOf u))
    (hnext : (ofSource source).next.token = bugWord) :
    ((ofSource source').attempt .program).1 = ((ofSource source).attempt .program).1.down n ∧
      ((ofSource source').attempt .program).2.next =
        ((ofSource source).attempt .program).2.next.down n ∧
      ((ofSource source).attempt .program).1 ≠ .unmatched := by
  have hroom : (ofSource source).HasRoom (some nestingLimit) 0 :=
    (reachable_ofSource source).hasRoom_iff.2 (Nat.zero_le _)
  have hroom' (k : Nat) (hk : k ≤ nestingLimit) :
      (ofSource source').HasRoom (some nestingLimit) k :=
    (reachable_ofSource source').hasRoom_iff.2 hk
  obtain ⟨rest, hrest⟩ := (ofSource source).unread_eq_cons
  rw [← unread_ofSource, ← unread_ofSource, hrest] at hunread
  have halone := (ends_attempt .program hroom).program_of_bugWord hroom hnext
  have hboth := ends_attempt .program (hroom' 0 (Nat.zero_le _))
  obtain ⟨m', hleft, hdepth, hbehind⟩ :=
    hboth.behind_program (hroom' nestingLimit (Nat.le_refl _)) hunread hderives hnext
  -- the definitions of bugs are the same in both sources, but for their lines
  have hsimilar : Similar (fun us us' => us' = us.map (Token.Located.down n))
      (ofSource source).peeked m' := by
    refine ⟨?_, hdepth⟩
    rw [hleft, unread_peeked, hrest]
    rfl
  have hpred : (Phrase.repeated (.rule .bug)).predictive = true := rfl
  have hpeeked : (ofSource source).peeked.HasRoom (some nestingLimit) 0 := hroom
  have hjust := halone.justified hpred hpeeked
  obtain ⟨m₁, hends, hlater⟩ := halone.exists_similar (keptByReading_map_down n) hpred
    (fun _ hmem => absurd hmem List.not_mem_nil) hpeeked hsimilar trivial
  obtain ⟨houtcome, hm₁⟩ := hbehind.unique hends
  have hsame : m₁.next = ((ofSource source).attempt .program).2.next.down n := by
    obtain ⟨others, hothers⟩ := ((ofSource source).attempt .program).2.unread_eq_cons
    have hall := hlater.unread
    rw [hothers] at hall
    exact next_of_unread hall
  refine ⟨?_, ?_, ?_⟩
  · rw [houtcome, hsame]
    exact hjust.mapFound_eq rfl _
  · rw [hm₁, hsame]
  · intro hunmatched
    rw [hunmatched] at hjust
    cases hjust.soft_of_unmatched

end Matcher

open Matcher

/-! ## Sources -/

/-- The tokens of a valid source are a program, but for the end of the input. -/
theorem derives_of_validate_eq_ok {source : String} {u : List Token.Located} {line : Nat}
    (hvalid : validate source = .ok ())
    (htokens : locatedTokens source = u ++ [⟨line, .inputEnd⟩]) :
    Derives Rule.phrase nestingLimit Rule.program.phrase (tokensOf u) := by
  have hinit : (tokensOf (locatedTokens source)).dropLast = tokensOf u := by
    rw [htokens, tokensOf_append]
    exact List.dropLast_concat
  rw [validate_eq_ok_iff_derives, hinit] at hvalid
  exact derives_rule_iff.1 (derives_phrase_iff_derives_definition.2 hvalid)

/-- A program is missing only where it is not matched. -/
theorem validate_ne_noProgram {source : String}
    (h : ((ofSource source).attempt .program).1 ≠ .unmatched) (found : Token.Located) :
    validate source ≠ .error (.noProgram found) := by
  rw [validate_eq]
  cases hcase : ((ofSource source).attempt .program).1 with
  | unmatched => exact absurd hcase h
  | fault d => exact fun heq => nomatch heq
  | matched =>
    by_cases hkind : ((ofSource source).attempt .program).2.next.token.kind = .inputEnd
    · rw [if_pos hkind]
      exact fun heq => nomatch heq
    · rw [if_neg hkind]
      exact fun heq => nomatch heq

/-- Behind the end of its last line a source can go on with another one that starts with the
definition of a bug. The tokens of the two come one after the other. -/
theorem CutBehind.exists_tokens_append {p q : String} {style : LineEnd}
    (hend : CutBehind (.lineEnd style) p "") (hmark : q.toList.head? ≠ some '\uFEFF')
    (hfirst : (ofSource q).next.token = bugWord) :
    ∃ u line, locatedTokens p = u ++ [⟨line, .inputEnd⟩] ∧
      locatedTokens (p ++ q) =
        u ++ (locatedTokens q).map (Token.Located.down (lineEnds p.toList).length) := by
  have hfeed : q.toList.head? ≠ some '\n' := by
    -- the first token would be the end of a line
    intro hfeed
    obtain ⟨rest, hq⟩ := List.head?_eq_some_iff.1 hfeed
    have hhead := (ofSource q).head?_unread
    rw [unread_ofSource, locatedTokens, Position.ofSource_of_head?_ne hmark,
      Position.tokens_of_lexeme (l := .lineEnd .lf) hq trivial, List.head?_cons] at hhead
    rw [← Option.some.inj hhead] at hfirst
    cases hfirst
  obtain ⟨before, hp, htokens⟩ := hend.exists_tokens_lineEnd
  refine ⟨before ++ [⟨lineBreaks p.toList, .lineEnd⟩], _, by rw [hp, List.append_cons], ?_⟩
  rw [htokens q (.inr hfeed), Position.tokens_eq_map_down hmark, List.append_cons, length_lineEnds]

/-- Programs compose. Behind a valid program that ends with the end of its last line another text
can be put that starts with the definition of a bug, and it is then valid or rejected as it is on
its own. A rejection is as many lines further down as there are in the first program, and a program
is never missing. -/
theorem programs_compose {p q : String} {style : LineEnd} (hvalid : validate p = .ok ())
    (hend : CutBehind (.lineEnd style) p "") (hmark : q.toList.head? ≠ some '\uFEFF')
    (hfirst : (tokensOf (locatedTokens q)).head? = some ⟨.reserved, "Bug"⟩) :
    validate (p ++ q) = (validate q).mapError (Rejection.down (lineEnds p.toList).length) ∧
      ∀ found, validate q ≠ .error (.noProgram found) := by
  have hnext : (ofSource q).next.token = bugWord := by
    rw [tokensOf, List.head?_map, ← unread_ofSource, head?_unread] at hfirst
    exact Option.some.inj hfirst
  obtain ⟨u, line, hp, hpq⟩ := hend.exists_tokens_append hmark hnext
  have hderives := derives_of_validate_eq_ok hvalid hp
  obtain ⟨houtcome, hleft, hfound⟩ := outcome_behind_program hpq hderives hnext
  refine ⟨?_, validate_ne_noProgram hfound⟩
  exact validate_eq_mapError houtcome hleft (by rw [hleft, Token.Located.token_down])

/-- The first program has four lines, which end in several ways. The second one has no brace. -/
theorem programs_compose_behind_carriage_return :
    let p := "Bug b\x7b\r\nturn 1/*\r*/\n\x7d\r"
    let q := "Bug c 5"
    let d : Diagnostic := ⟨.bug, .literal Phrase.openBrace, ⟨1, .number, "5.0"⟩⟩
    validate p = .ok () ∧ CutBehind (.lineEnd .cr) p "" ∧ q.toList.head? ≠ some '\uFEFF' ∧
      (tokensOf (locatedTokens q)).head? = some ⟨.reserved, "Bug"⟩ ∧
      validate q = .error (.fault d) ∧ validate (p ++ q) = .error ((Rejection.fault d).down 4) := by
  intro p q d
  have hvalid : validate p = .ok () := by decide +kernel
  have hend : CutBehind (.lineEnd .cr) p "" := by
    refine ⟨[.lexeme (.word ['B', 'u', 'g']), .trivia (.blanks [' ']), .lexeme (.word ['b']),
      .lexeme (.mark '\x7b'), .lexeme (.lineEnd .crlf), .lexeme (.word ['t', 'u', 'r', 'n']),
      .trivia (.blanks [' ']), .lexeme (.number (.ofStart ['1'])),
      .trivia (.blockComment ['\r', '*', '/']), .lexeme (.lineEnd .lf), .lexeme (.mark '\x7d')],
      [], ?_, ?_⟩ <;> decide +kernel
  have hmark : q.toList.head? ≠ some '\uFEFF' := by decide +kernel
  have hfirst : (tokensOf (locatedTokens q)).head? = some ⟨.reserved, "Bug"⟩ := by decide +kernel
  have hrejected : validate q = .error (.fault d) := by decide +kernel
  refine ⟨hvalid, hend, hmark, hfirst, hrejected, ?_⟩
  rw [(programs_compose hvalid hend hmark hfirst).1, hrejected]
  decide +kernel

end BugsLang
