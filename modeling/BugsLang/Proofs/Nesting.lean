import BugsLang.Proofs.Grammar.Brackets
import BugsLang.Proofs.Text.Respelling
import BugsLang.Proofs.Validation

/-!
# How deep valid sources are nested

In a valid source only so many brackets are open at a time as the limit allows, and the brace of the
section around them. This leaves out the braces of switch statements, which nothing limits: there
are valid sources in which these are nested as deep as one likes.

## Main definitions

* `nestedSwitches n`: switch statements within each other.
* `bugOfSwitches n`: a program that consists of them.

## Main statements

* `open_brackets_are_limited`: how many brackets are open in a valid source.
* `exists_valid_openBrackets`: no number of them is too many for nested switch statements.
-/

namespace BugsLang

open Phrase

variable {source : String} {w : List Token}

/-! ## Limited brackets -/

/-- Behind no token of a valid source are more brackets open than the limit allows and the brace of
the section, those of switch statements apart. Of these no more are open than words have been read
that switch statements begin with. -/
theorem open_brackets_are_limited (h : validate source = .ok ())
    (hw : w <+: tokensOf (locatedTokens source)) :
    (openBrackets w).count .limited ≤ nestingLimit + 1 ∧
      (openBrackets w).length ≤ nestingLimit + 1 + w.count .switchWord := by
  obtain ⟨tokens, -, htokens⟩ := exists_map_token_locatedTokens source
  have hsource : tokensOf (locatedTokens source) = tokens ++ [.inputEnd] := htokens
  rw [validate_eq_ok_iff_derives, hsource, List.dropLast_concat] at h
  obtain ⟨hclosed, hkeeps⟩ := keeps_of_derives_program h
  have hall : Brackets.Keeps (nestingLimit + 1) ⟨[], false⟩ (tokens ++ [.inputEnd]) := by
    rw [Brackets.keeps_append]
    refine ⟨hkeeps, ?_, trivial⟩
    -- nothing is open any more in front of the end of the input
    have hstack : (tokens.foldl Brackets.read ⟨[], false⟩).stack = [] := hclosed
    rw [Brackets.read_of_kind_ne_symbol (by decide), hstack]
    exact Nat.zero_le _
  obtain ⟨v, hv⟩ := hw
  rw [← hsource, ← hv, Brackets.keeps_append] at hall
  have hcount : (openBrackets w).count .limited ≤ nestingLimit + 1 :=
    hall.1.count_le (Nat.zero_le _)
  have hlength := length_openBrackets_le w
  exact ⟨hcount, by omega⟩

/-- In the parentheses three brackets are open, two of which are limited. -/
theorem open_brackets_are_limited_in_switch :
    let source := "Bug b \x7b\nswitch \x7b\ncase 1\nx = (2)\n\x7d\n\x7d\n"
    let w := (tokensOf (locatedTokens source)).take 13
    validate source = .ok () ∧ openBrackets w = [.limited, .ofSwitch, .limited] ∧
      (openBrackets w).count .limited ≤ nestingLimit + 1 ∧
      (openBrackets w).length ≤ nestingLimit + 1 + w.count .switchWord := by
  intro source w
  have hvalid : validate source = .ok () := validate_eq_ok_iff.2 (by decide +kernel)
  have hopen : openBrackets w = [.limited, .ofSwitch, .limited] := by decide +kernel
  exact ⟨hvalid, hopen, open_brackets_are_limited hvalid (List.take_prefix _ _)⟩

/-! ## Nested switch statements -/

/-- The beginning of a switch statement, up to the commands of its first case. -/
def switchHeader : List Token :=
  [.switchWord, ⟨.symbol, openBrace⟩, .lineEnd, ⟨.reserved, "case"⟩, ⟨.number, "1.0"⟩, .lineEnd]

/-- Switch statements with one case each, one within the other, `n` deep. -/
def nestedSwitches : Nat → List Token
  | 0 => []
  | n + 1 => switchHeader ++ nestedSwitches n ++ [⟨.symbol, closeBrace⟩, .lineEnd]

/-- The beginning of a bug, up to its commands. -/
def bugHeader : List Token :=
  [⟨.reserved, "Bug"⟩, ⟨.name, "b"⟩, ⟨.symbol, openBrace⟩, .lineEnd]

/-- A program with one bug, whose only command is a switch statement with `n` more within it. -/
def bugOfSwitches (n : Nat) : List Token :=
  bugHeader ++ nestedSwitches (n + 1) ++ [⟨.symbol, closeBrace⟩, .lineEnd]

theorem derives_exact (t : Token) : Derives Rule.definition 0 (token (.exact t)) [t] :=
  .token (decide_eq_true rfl)

theorem derives_lineEnd : Derives Rule.definition 0 (.rule .lineEnd) [.lineEnd] :=
  .rule (.seq (.token rfl) .none)

theorem derives_expression_of_number {t : Token} (h : t.kind = .number) :
    Derives Rule.definition 0 (.rule .expression) [t] := by
  have hoperand : Derives Rule.definition 0 (.rule .operand) [t] :=
    .rule (.second (.first (.token (decide_eq_true h))))
  have hfactor : Derives Rule.definition 0 (.rule .factor) [t] := .rule (.seq .absent hoperand)
  have hterm : Derives Rule.definition 0 (.rule .term) [t] := .rule (.seq hfactor .none)
  have hsum : Derives Rule.definition 0 (.rule .sum) [t] := .rule (.seq hterm .none)
  exact .rule (.seq hsum .none)

/-- A switch statement whose case has nested switch statements as its commands takes no limited
bracket. -/
theorem derives_command_nestedSwitches {n : Nat}
    (h : Derives Rule.definition 0 (.repeated (.rule .command)) (nestedSwitches n)) :
    Derives Rule.definition 0 (.rule .command) (nestedSwitches (n + 1)) := by
  have hone := derives_expression_of_number (t := ⟨.number, "1.0"⟩) rfl
  have hcase := Derives.seq (.seq (.seq (derives_exact ⟨.reserved, "case"⟩) hone) derives_lineEnd) h
  have hopen := Derives.seq
    (.seq (derives_exact .switchWord) (derives_exact ⟨.symbol, openBrace⟩)) derives_lineEnd
  have hswitch : Derives Rule.definition 0 (.rule .switch) _ :=
    .rule (.seq (.seq (.seq hopen (.more hcase .none)) (derives_exact ⟨.symbol, closeBrace⟩))
      derives_lineEnd)
  have hcommand : Derives Rule.definition 0 (.rule .command) _ :=
    .rule (.second (.rule (.second (.second (.second (.first hswitch))))))
  simpa [nestedSwitches, switchHeader] using hcommand

theorem derives_nestedSwitches (n : Nat) :
    Derives Rule.definition 0 (.repeated (.rule .command)) (nestedSwitches n) := by
  induction n with
  | zero => exact .none
  | succ n ih =>
    rw [← List.append_nil (nestedSwitches _)]
    exact .more (derives_command_nestedSwitches ih) .none

theorem derives_bugOfSwitches (n : Nat) :
    Derives Rule.definition 0 (.rule .program) (bugOfSwitches n) := by
  have hname : Derives Rule.definition 0 anyName [⟨.name, "b"⟩] := .token rfl
  have hopen := Derives.seq
    (.seq (.seq (derives_exact ⟨.reserved, "Bug"⟩) hname) (derives_exact ⟨.symbol, openBrace⟩))
    derives_lineEnd
  have hcommand := derives_command_nestedSwitches (derives_nestedSwitches n)
  have hbug : Derives Rule.definition 0 (.rule .bug) _ :=
    .rule (.seq (.seq (.seq (.seq (.seq (.seq (.seq hopen .none) .absent) hcommand) .none) .none)
      (derives_exact ⟨.symbol, closeBrace⟩)) derives_lineEnd)
  have hprogram : Derives Rule.definition 0 (.rule .program) _ :=
    .rule (.seq (.seq .absent hbug) .none)
  simpa [bugOfSwitches, bugHeader] using hprogram

/-- Within nested switch statements each of them has its brace open. -/
theorem exists_prefix_nestedSwitches (n : Nat) (b : Brackets) :
    ∃ u, u <+: nestedSwitches n ∧
      (u.foldl Brackets.read b).stack = List.replicate n .ofSwitch ++ b.stack := by
  induction n generalizing b with
  | zero => exact ⟨[], List.nil_prefix, rfl⟩
  | succ n ih =>
    have hheader : switchHeader.foldl Brackets.read b = ⟨.ofSwitch :: b.stack, false⟩ := rfl
    obtain ⟨u, hu, hstack⟩ := ih (switchHeader.foldl Brackets.read b)
    refine ⟨switchHeader ++ u, ?_, ?_⟩
    · rw [nestedSwitches, List.append_assoc]
      exact (List.prefix_append_right_inj _).2 (hu.trans (List.prefix_append _ _))
    · rw [List.foldl_append, hstack, hheader, List.replicate_succ', List.append_assoc]
      rfl

/-- However deep the switch statements are nested, the same tokens occur in them. -/
theorem mem_of_mem_nestedSwitches {n : Nat} {t : Token} (h : t ∈ nestedSwitches n) :
    t ∈ nestedSwitches 1 := by
  induction n with
  | zero => cases h
  | succ n ih =>
    rw [nestedSwitches, List.append_assoc, List.mem_append, List.mem_append] at h
    rcases h with h | h | h
    · exact List.mem_append_left _ (List.mem_append_left _ h)
    · exact ih h
    · exact List.mem_append_right _ h

theorem occurs_of_mem_bugOfSwitches {n : Nat} {t : Token} (h : t ∈ bugOfSwitches n) : t.Occurs := by
  have hmem : t ∈ bugOfSwitches 0 := by
    rw [bugOfSwitches, List.append_assoc, List.mem_append, List.mem_append] at h ⊢
    exact h.imp_right (Or.imp_left mem_of_mem_nestedSwitches)
  have htokens : (locatedTokens "Bug b \x7b\nswitch \x7b\ncase 1\n\x7d\n\x7d\n").map
      Token.Located.token = bugOfSwitches 0 ++ [.inputEnd] := by decide +kernel
  have hend : .inputEnd ∉ bugOfSwitches 0 := by decide
  refine Token.occurs_of_mem (htokens ▸ List.mem_append_left _ hmem) ?_
  rintro rfl
  exact hend hmem

/-- No number of open brackets is too many for a valid source, if they are those of switch
statements. -/
theorem exists_valid_openBrackets (n : Nat) :
    validate (respell (bugOfSwitches n ++ [.inputEnd])) = .ok () ∧
      ∃ w, w <+: tokensOf (locatedTokens (respell (bugOfSwitches n ++ [.inputEnd]))) ∧
        (openBrackets w).length = n + 2 := by
  have htokens : tokensOf (locatedTokens (respell (bugOfSwitches n ++ [.inputEnd]))) =
      bugOfSwitches n ++ [.inputEnd] := locatedTokens_respell fun t => occurs_of_mem_bugOfSwitches
  rw [validate_eq_ok_iff_derives, htokens, List.dropLast_concat]
  refine ⟨(derives_bugOfSwitches n).mono (Nat.zero_le _), ?_⟩
  have hheader : bugHeader.foldl Brackets.read ⟨[], false⟩ = ⟨[.limited], false⟩ := rfl
  obtain ⟨u, hu, hstack⟩ := exists_prefix_nestedSwitches (n + 1) ⟨[.limited], false⟩
  refine ⟨bugHeader ++ u, ?_, ?_⟩
  · rw [bugOfSwitches, List.append_assoc, List.append_assoc]
    exact (List.prefix_append_right_inj _).2 (hu.trans (List.prefix_append _ _))
  · rw [openBrackets, List.foldl_append, hheader, hstack, List.length_append,
      List.length_replicate]
    rfl

/-- A hundred switch statements within another one are accepted, and together with the brace of the
bug their braces are more brackets than the limit allows and one. -/
theorem switches_pass_the_limit :
    validate (respell (bugOfSwitches 100 ++ [.inputEnd])) = .ok () ∧
      ∃ w, w <+: tokensOf (locatedTokens (respell (bugOfSwitches 100 ++ [.inputEnd]))) ∧
        nestingLimit + 1 < (openBrackets w).length := by
  obtain ⟨hvalid, w, hw, hlength⟩ := exists_valid_openBrackets 100
  refine ⟨hvalid, w, hw, ?_⟩
  rw [hlength]
  decide

end BugsLang
