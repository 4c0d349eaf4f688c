import BugsLang.Proofs.Grammar.Agreement
import BugsLang.Proofs.Grammar.Definition
import BugsLang.Proofs.Matcher.Reading

/-!
# What an outcome tells

Each outcome of matching a phrase says something of all sentences of the phrase, seen from the
tokens that were read and the next one, which was looked at.

* A match has read a sentence, and no other sentence agrees with the text so far.
* No match means that no sentence agrees with the next token.
* A fault comes after tokens that begin a sentence, and no sentence agrees with them and the next
  token. If it is the limit that brought the fault, this holds of the sentences within the limit.

`Justified` states this, and `justified_of_run` proves it of every run, by recursion on the run with
one lemma for each way in which a phrase is made up.
-/

namespace BugsLang.Matcher

/-- The limit allows `n` more brackets to be open. -/
def HasRoom (m : Matcher) (limit : Option Nat) (n : Nat) : Prop :=
  ∀ bound ∈ limit, m.depth + n ≤ bound

/-- What the outcome of matching a phrase tells of its sentences. -/
inductive Justified (limit : Option Nat) (p : Phrase) (m : Matcher) : Outcome → Matcher → Prop where
  | matched {w : List Token.Located} {n : Nat} {m' : Matcher} (hread : m.Reads w m')
      (hroom : m.HasRoom limit n) (hderives : Derives Rule.phrase n p (tokensOf w))
      (honly : ∀ k x, Derives Rule.phrase k p x → Agrees (tokensOf w) m'.next.token x →
        x = tokensOf w) :
      Justified limit p m .matched m'
  | unmatched (hsoft : p.soft = true)
      (hnone : ∀ k x, Derives Rule.phrase k p x → ¬ Agrees [] m.next.token x) :
      Justified limit p m .unmatched m.peeked
  | fault {w : List Token.Located} {d : Diagnostic} {m' : Matcher} (hread : m.Reads w m')
      (hfound : d.found = m'.next) (hviable : Viable Rule.phrase p (tokensOf w))
      (hsoft : p.soft = true → w ≠ [])
      (hnone : ∀ k x, (d.expected = .lessNesting → m.HasRoom limit k) → Derives Rule.phrase k p x →
        ¬ Agrees (tokensOf w) m'.next.token x) :
      Justified limit p m (.fault d) m'

variable {limit : Option Nat} {p q : Phrase} {m m₁ m₂ : Matcher} {w : List Token.Located}
  {outcome : Outcome} {n k : Nat}

/-! ## Room for brackets -/

theorem HasRoom.max (hn : m.HasRoom limit n) (hk : m.HasRoom limit k) :
    m.HasRoom limit (max n k) := by
  rcases Nat.le_total n k with h | h
  · rwa [Nat.max_eq_right h]
  · rwa [Nat.max_eq_left h]

/-- Without a limit there is always room. -/
theorem hasRoom_none : m.HasRoom none n := by
  intro bound hbound
  cases hbound

/-- How much room there is depends on the open brackets alone. -/
theorem HasRoom.of_depth_eq (h : m.HasRoom limit n) (hdepth : m₁.depth = m.depth) :
    m₁.HasRoom limit n := by
  unfold HasRoom
  rwa [hdepth]

/-- Reading leaves as much room as there was. -/
theorem Reads.hasRoom_iff (h : m.Reads w m₁) : m₁.HasRoom limit n ↔ m.HasRoom limit n := by
  unfold HasRoom
  rw [h.depth]

/-- One bracket deeper there is room for one bracket less. -/
theorem hasRoom_deeper_iff :
    ({ m with depth := m.depth + 1 } : Matcher).HasRoom limit n ↔ m.HasRoom limit (n + 1) := by
  unfold HasRoom
  simp only [Nat.add_assoc, Nat.add_comm 1 n]

/-- Where the limit is not reached there is room for one more bracket. -/
theorem hasRoom_one_of_not_isFull (h : ¬ m.isFull limit = true) : m.HasRoom limit 1 := by
  intro bound hbound
  rw [hbound] at h
  have hlt : ¬ bound ≤ m.depth := fun hle => h (decide_eq_true hle)
  omega

/-- Where the limit is reached there is no room. -/
theorem not_hasRoom_of_isFull (h : m.isFull limit = true) : ¬ m.HasRoom limit (n + 1) := by
  intro hroom
  obtain ⟨bound, hbound, hle⟩ := (Option.any_eq_true _ _).1 h
  have hlt := hroom bound hbound
  have hfull := of_decide_eq_true hle
  omega

/-! ## Phrase by phrase -/

namespace Justified

/-- What an outcome tells depends on the derivations of the phrase, not on how it is written. -/
theorem congr (h : Justified limit p m outcome m₁) (hsoft : p.soft = q.soft)
    (hiff : ∀ n x, Derives Rule.phrase n p x ↔ Derives Rule.phrase n q x) :
    Justified limit q m outcome m₁ := by
  cases h with
  | matched hread hroom hderives honly =>
    refine .matched hread hroom ((hiff _ _).1 hderives) ?_
    intro k x hx
    exact honly k x ((hiff k x).2 hx)
  | unmatched hs hnone =>
    refine .unmatched (hsoft ▸ hs) ?_
    intro k x hx
    exact hnone k x ((hiff k x).2 hx)
  | fault hread hfound hviable hs hnone =>
    obtain ⟨v, n, hv⟩ := hviable
    refine .fault hread hfound ⟨v, n, (hiff n _).1 hv⟩ (fun hq => hs (hsoft.trans hq)) ?_
    intro k x hk hx
    exact hnone k x hk ((hiff k x).2 hx)

theorem token {pattern : Pattern} (hpred : (Phrase.token pattern).predictive = true)
    (hroom : m.HasRoom limit 0) :
    Justified limit (.token pattern) m (if (m.take pattern).1 then .matched else .unmatched)
      (m.take pattern).2 := by
  by_cases h : pattern.accepts m.next.token = true
  · rw [take_of_accepts h]
    have hend : m.next.token ≠ .inputEnd := by
      intro heq
      rw [heq, Phrase.predictive_token.1 hpred] at h
      exact Bool.false_ne_true h
    refine .matched (reads_next hend) hroom (.token h) ?_
    intro k x hx hagrees
    obtain ⟨t, -, rfl⟩ := derives_token_iff.1 hx
    obtain ⟨y, heq, -⟩ := hagrees
    obtain ⟨rfl, -⟩ := List.cons.inj heq
    rfl
  · rw [take_of_not_accepts h]
    refine .unmatched rfl ?_
    intro k x hx hagrees
    obtain ⟨t, ht, rfl⟩ := derives_token_iff.1 hx
    obtain ⟨y, heq, hy⟩ := hagrees
    rw [List.nil_append] at heq
    rw [← heq] at hy
    rw [hy t rfl] at ht
    exact h ht

theorem rule {r : Rule} (h : Justified limit r.phrase m outcome m₁) :
    Justified limit (.rule r) m outcome m₁ :=
  h.congr r.soft_phrase fun _ _ => derives_rule_iff.symm

/-- After the first phrase of a sequence has been matched, the outcome of the second one is that of
the sequence. -/
theorem seq (hp : Justified limit p m .matched m₁) (hq : Justified limit q m₁ outcome m₂)
    (hpred : (Phrase.seq p q).predictive = true) :
    Justified limit (.seq p q) m outcome m₂ := by
  cases hp with
  | @matched u n _ hread hroom hderives honly =>
  cases hq with
  | @matched v n' _ hread' hroom' hderives' honly' =>
    rw [hread.hasRoom_iff] at hroom'
    refine .matched (n := max n n') (hread.trans hread') (hroom.max hroom') ?_ ?_
    · rw [tokensOf_append]
      exact .seq (hderives.mono (Nat.le_max_left n n')) (hderives'.mono (Nat.le_max_right n n'))
    · intro k x hx hagrees
      rw [tokensOf_append] at hagrees ⊢
      obtain ⟨y, rfl, hy, hyagrees⟩ :=
        hagrees.exists_second hpred hderives honly hread'.head? hx
      rw [honly' k y hy hyagrees]
  | unmatched hsoft _ =>
    rw [(Phrase.predictive_seq.1 hpred).2.2.1] at hsoft
    exact absurd hsoft Bool.false_ne_true
  | @fault v d _ hread' hfound hviable hsoft hnone =>
    refine .fault (hread.trans hread') hfound ?_ ?_ ?_
    · rw [tokensOf_append]
      exact hviable.seq_right hderives.sentence
    · intro hs hnil
      obtain ⟨hu, -⟩ := List.append_eq_nil_iff.1 hnil
      subst hu
      exact hderives.ne_nil (Phrase.predictive_seq.1 hpred).1 hs rfl
    · intro k x hk hx hagrees
      rw [tokensOf_append] at hagrees
      obtain ⟨y, -, hy, hyagrees⟩ := hagrees.exists_second hpred hderives honly hread'.head? hx
      exact hnone k y (fun he => hread.hasRoom_iff.2 (hk he)) hy hyagrees

/-- If the first phrase of a sequence is not matched, its outcome is that of the sequence. -/
theorem seq_of_ne_matched (hp : Justified limit p m outcome m₁) (hne : outcome ≠ .matched)
    (hpred : (Phrase.seq p q).predictive = true) :
    Justified limit (.seq p q) m outcome m₁ := by
  obtain ⟨v, hv⟩ := exists_sentence q
  cases hp with
  | matched => exact absurd rfl hne
  | unmatched hsoft hnone =>
    refine .unmatched hsoft ?_
    intro k x hx hagrees
    obtain ⟨x₁, x₂, rfl, hx₁, hx₂⟩ := derives_seq_iff.1 hx
    obtain ⟨z, hz⟩ := exists_sentence p
    exact hnone k x₁ hx₁ (hagrees.left hpred ⟨z, hz⟩ hx₁ hx₂)
  | fault hread hfound hviable hsoft hnone =>
    refine .fault hread hfound (hviable.seq_left hv) hsoft ?_
    intro k x hk hx hagrees
    obtain ⟨x₁, x₂, rfl, hx₁, hx₂⟩ := derives_seq_iff.1 hx
    exact hnone k x₁ hk hx₁ (hagrees.left hpred hviable hx₁ hx₂)

/-- If the first phrase of a choice is matched or fails for good, that is the outcome. -/
theorem first (hp : Justified limit p m outcome m₁) (hne : outcome ≠ .unmatched)
    (hpred : (Phrase.choice p q).predictive = true) :
    Justified limit (.choice p q) m outcome m₁ := by
  obtain ⟨-, -, hsoftp, -, -⟩ := Phrase.predictive_choice.1 hpred
  cases hp with
  | matched hread hroom hderives honly =>
    refine .matched hread hroom (.first hderives) ?_
    intro k x hx hagrees
    rcases derives_choice_iff.1 hx with hx | hx
    · exact honly k x hx hagrees
    · obtain ⟨y, heq, -⟩ := hagrees
      rw [← List.append_nil x] at heq
      exact (false_of_choice_of_append_eq hpred hderives hx heq.symm).elim
  | unmatched => exact absurd rfl hne
  | @fault w d _ hread hfound hviable hsoft hnone =>
    obtain ⟨v, n, hv⟩ := hviable
    refine .fault hread hfound ⟨v, n, .first hv⟩ (fun _ => hsoft hsoftp) ?_
    intro k x hk hx hagrees
    rcases derives_choice_iff.1 hx with hx | hx
    · exact hnone k x hk hx hagrees
    · -- both phrases would begin with the first token that was read
      obtain ⟨y, rfl, -⟩ := hagrees
      cases w with
      | nil => exact hsoft hsoftp rfl
      | cons t w => exact false_of_choice hpred hv hx

/-- If the first phrase of a choice is not there, the outcome is that of the second one. -/
theorem second (hp : Justified limit p m .unmatched m₁) (hq : Justified limit q m₁ outcome m₂)
    (hpred : (Phrase.choice p q).predictive = true) :
    Justified limit (.choice p q) m outcome m₂ := by
  obtain ⟨-, -, -, hsoftq, -⟩ := Phrase.predictive_choice.1 hpred
  cases hp with
  | unmatched _ hnonep =>
  cases hq with
  | matched hread hroom hderives honly =>
    refine .matched hread.of_peeked (m.reads_peeked.hasRoom_iff.1 hroom) (.second hderives) ?_
    intro k x hx hagrees
    rcases derives_choice_iff.1 hx with hx | hx
    · exact (hnonep k x hx (hagrees.of_append (u := []) hread.of_peeked.head?)).elim
    · exact honly k x hx hagrees
  | unmatched _ hnone =>
    rw [peeked_peeked]
    refine .unmatched rfl ?_
    intro k x hx hagrees
    rcases derives_choice_iff.1 hx with hx | hx
    · exact hnonep k x hx hagrees
    · rw [next_peeked] at hnone
      exact hnone k x hx hagrees
  | fault hread hfound hviable hsoft hnone =>
    obtain ⟨v, n, hv⟩ := hviable
    refine .fault hread.of_peeked hfound ⟨v, n, .second hv⟩ (fun _ => hsoft hsoftq) ?_
    intro k x hk hx hagrees
    rcases derives_choice_iff.1 hx with hx | hx
    · exact hnonep k x hx (hagrees.of_append (u := []) hread.of_peeked.head?)
    · exact hnone k x (fun he => m.reads_peeked.hasRoom_iff.2 (hk he)) hx hagrees

/-- If a phrase is matched or fails for good, so it does where it may also be left out. -/
theorem optional (hp : Justified limit p m outcome m₁) (hne : outcome ≠ .unmatched)
    (hpred : p.predictive = true) (hsoft : p.soft = true) :
    Justified limit (.optional p) m outcome m₁ := by
  cases hp with
  | matched hread hroom hderives honly =>
    refine .matched hread hroom (.present hderives) ?_
    intro k x hx hagrees
    rcases derives_optional_iff.1 hx with rfl | hx
    · obtain ⟨y, heq, -⟩ := hagrees
      exact absurd (List.append_eq_nil_iff.1 heq.symm).1 (hderives.ne_nil hpred hsoft)
    · exact honly k x hx hagrees
  | unmatched => exact absurd rfl hne
  | @fault w d _ hread hfound hviable hs hnone =>
    obtain ⟨v, n, hv⟩ := hviable
    refine .fault hread hfound ⟨v, n, .present hv⟩ (fun _ => hs hsoft) ?_
    intro k x hk hx hagrees
    rcases derives_optional_iff.1 hx with rfl | hx
    · obtain ⟨y, heq, -⟩ := hagrees
      exact hs hsoft (List.map_eq_nil_iff.1 (List.append_eq_nil_iff.1 heq.symm).1)
    · exact hnone k x hk hx hagrees

/-- A phrase that is not there and may be left out is matched by nothing. -/
theorem optional_of_unmatched (hp : Justified limit p m .unmatched m₁)
    (hroom : m.HasRoom limit 0) : Justified limit (.optional p) m .matched m₁ := by
  cases hp with
  | unmatched _ hnone =>
    refine .matched m.reads_peeked hroom .absent ?_
    intro k x hx hagrees
    rcases derives_optional_iff.1 hx with rfl | hx
    · rfl
    · rw [next_peeked] at hagrees
      exact (hnone k x hx hagrees).elim

/-- A repetition has the outcome of the phrase and a repetition, if they are not left out. -/
theorem repeated (h : Justified limit (.optional (.seq p (.repeated p))) m outcome m₁) :
    Justified limit (.repeated p) m outcome m₁ :=
  h.congr rfl fun _ _ => derives_optional_iff.trans derives_repeated_iff.symm

/-- If a phrase is matched or fails for good, so it does where nothing else will do. -/
theorem required {expected : Expectation} (hp : Justified limit p m outcome m₁)
    (hne : outcome ≠ .unmatched) : Justified limit (.required p expected) m outcome m₁ := by
  cases hp with
  | matched hread hroom hderives honly =>
    refine .matched hread hroom (.required hderives) ?_
    intro k x hx
    exact honly k x (derives_required_iff.1 hx)
  | unmatched => exact absurd rfl hne
  | fault hread hfound hviable _ hnone =>
    obtain ⟨v, n, hv⟩ := hviable
    refine .fault hread hfound ⟨v, n, .required hv⟩ (fun hs => absurd hs Bool.false_ne_true) ?_
    intro k x hk hx
    exact hnone k x hk (derives_required_iff.1 hx)

/-- A phrase that is not there where nothing else will do is a fault at the next token. -/
theorem required_of_unmatched (within : Rule) (expected : Expectation)
    (hp : Justified limit p m .unmatched m₁) :
    Justified limit (.required p expected) m (m₁.refuse within expected).1
      (m₁.refuse within expected).2 := by
  cases hp with
  | unmatched _ hnone =>
    obtain ⟨v, n, hv⟩ := exists_sentence p
    rw [refuse_eq, peeked_peeked]
    refine .fault m.reads_peeked rfl ⟨v, n, .required hv⟩ ?_ ?_
    · intro hs
      exact absurd hs Bool.false_ne_true
    · intro k x _ hx hagrees
      rw [next_peeked] at hagrees
      exact hnone k x (derives_required_iff.1 hx) hagrees

/-- Where the limit is reached, opening one more bracket is a fault of the limit. -/
theorem bracketed_of_isFull (within : Rule) (hfull : m.isFull limit = true) :
    Justified limit (.bracketed p) m (m.refuse within .lessNesting).1
      (m.refuse within .lessNesting).2 := by
  obtain ⟨v, n, hv⟩ := exists_sentence p
  rw [refuse_eq]
  refine .fault m.reads_peeked m.next_peeked.symm ⟨v, n + 1, .bracketed hv⟩ ?_ ?_
  · intro hs
    exact absurd hs Bool.false_ne_true
  · intro k x hk hx _
    obtain ⟨j, rfl, -⟩ := derives_bracketed_iff.1 hx
    exact not_hasRoom_of_isFull hfull (hk rfl)

/-- Where there is room, the outcome is that of the phrase one bracket deeper. -/
theorem bracketed (hp : Justified limit p { m with depth := m.depth + 1 } outcome m₁)
    (hsoft : p.soft = false) :
    Justified limit (.bracketed p) m outcome { m₁ with depth := m₁.depth - 1 } := by
  have hreads : ∀ {w : List Token.Located} {m' : Matcher},
      ({ m with depth := m.depth + 1 } : Matcher).Reads w m' →
      m.Reads w { m' with depth := m'.depth - 1 } := by
    intro w m' h
    refine ⟨h.unread, ?_⟩
    show m'.depth - 1 = m.depth
    rw [h.depth]
    rfl
  cases hp with
  | matched hread hroom hderives honly =>
    refine .matched (hreads hread) (hasRoom_deeper_iff.1 hroom) (.bracketed hderives) ?_
    intro k x hx hagrees
    obtain ⟨j, -, hx⟩ := derives_bracketed_iff.1 hx
    exact honly j x hx hagrees
  | unmatched hs _ =>
    rw [hsoft] at hs
    exact absurd hs Bool.false_ne_true
  | fault hread hfound hviable _ hnone =>
    obtain ⟨v, n, hv⟩ := hviable
    refine .fault (hreads hread) hfound ⟨v, n + 1, .bracketed hv⟩ ?_ ?_
    · intro hs
      exact absurd hs Bool.false_ne_true
    · intro k x hk hx hagrees
      obtain ⟨j, rfl, hbody⟩ := derives_bracketed_iff.1 hx
      exact hnone j x (fun he => hasRoom_deeper_iff.2 (hk he)) hbody hagrees

end Justified

/-! ## Whole runs -/

/-- Matching leaves as many brackets open as there were. -/
theorem Justified.depth_eq (h : Justified limit p m outcome m₁) : m₁.depth = m.depth := by
  cases h with
  | matched hread => exact hread.depth
  | unmatched => exact m.depth_peeked
  | fault hread => exact hread.depth

/-- Matching leaves as much room as there was. -/
theorem Justified.hasRoom_iff (h : Justified limit p m outcome m₁) :
    m₁.HasRoom limit n ↔ m.HasRoom limit n := by
  unfold HasRoom
  rw [h.depth_eq]

/-- Where nothing is matched the next token has been looked at, and nothing else has happened. -/
theorem Justified.eq_peeked (h : Justified limit p m .unmatched m₁) : m₁ = m.peeked := by
  cases h with
  | unmatched => rfl

/-- Only a phrase that may turn out not to be there is not matched. -/
theorem Justified.soft_of_unmatched (h : Justified limit p m .unmatched m₁) : p.soft = true := by
  cases h with
  | unmatched hsoft => exact hsoft

/-- Whatever the outcome, all that has happened to the tokens is that some were read. -/
theorem Justified.exists_reads (h : Justified limit p m outcome m₁) : ∃ w, m.Reads w m₁ := by
  cases h with
  | matched hread | fault hread => exact ⟨_, hread⟩
  | unmatched => exact ⟨[], m.reads_peeked⟩

/-- The token found at a fault is the next one. -/
theorem Justified.found_eq {d : Diagnostic} (h : Justified limit p m (.fault d) m₁) :
    d.found = m₁.next := by
  cases h with
  | fault _ hfound => exact hfound

/-- What is matched has been read as a sentence. -/
theorem Justified.exists_sentence (h : Justified limit p m .matched m₁) :
    ∃ w, m.Reads w m₁ ∧ Sentence Rule.phrase p (tokensOf w) := by
  cases h with
  | matched hread _ hderives => exact ⟨_, hread, hderives.sentence⟩

/-- At a fault some tokens have been read, and then the token found is the first one unread. -/
theorem Justified.exists_unread {d : Diagnostic} (h : Justified limit p m (.fault d) m₁) :
    ∃ w rest, m.Reads w m₁ ∧ m₁.unread = d.found :: rest ∧ (p.soft = true → w ≠ []) := by
  cases h with
  | @fault w _ _ hread hfound _ hsoft =>
    obtain ⟨rest, hrest⟩ := m₁.unread_eq_cons
    rw [← hfound] at hrest
    exact ⟨w, rest, hread, hrest, hsoft⟩

/-- Every outcome is justified. -/
theorem justified_of_run {fuel : Nat} {within : Rule} (hpred : p.predictive = true)
    (hroom : m.HasRoom limit 0) (hrun : run limit fuel within p m = some (outcome, m₁)) :
    Justified limit p m outcome m₁ := by
  induction fuel generalizing within p m outcome m₁ with
  | zero => cases hrun
  | succ fuel ih =>
    cases p with
    | token pattern =>
      obtain ⟨rfl, rfl⟩ := Prod.mk.inj (Option.some.inj hrun)
      exact .token hpred hroom
    | rule r => exact (ih r.predictive_phrase hroom hrun).rule
    | seq p q =>
      obtain ⟨hp, hq, -⟩ := Phrase.predictive_seq.1 hpred
      rw [run] at hrun
      split at hrun
      · rename_i m' hfirst
        have hmatched := ih hp hroom hfirst
        exact hmatched.seq (ih hq (hmatched.hasRoom_iff.2 hroom) hrun) hpred
      · rename_i hne
        refine (ih hp hroom hrun).seq_of_ne_matched ?_ hpred
        rintro rfl
        exact hne _ hrun
    | choice p q =>
      obtain ⟨hp, hq, -⟩ := Phrase.predictive_choice.1 hpred
      rw [run] at hrun
      split at hrun
      · rename_i m' hfirst
        have hunmatched := ih hp hroom hfirst
        exact hunmatched.second (ih hq (hunmatched.hasRoom_iff.2 hroom) hrun) hpred
      · rename_i hne
        refine (ih hp hroom hrun).first ?_ hpred
        rintro rfl
        exact hne _ hrun
    | optional p =>
      obtain ⟨hp, hsoft⟩ := Phrase.predictive_optional.1 hpred
      rw [run] at hrun
      split at hrun
      · rename_i m' hfirst
        obtain ⟨rfl, rfl⟩ := Prod.mk.inj (Option.some.inj hrun)
        exact (ih hp hroom hfirst).optional_of_unmatched hroom
      · rename_i hne
        refine (ih hp hroom hrun).optional ?_ hp hsoft
        rintro rfl
        exact hne _ hrun
    | repeated p =>
      obtain ⟨hp, hsoft, -⟩ := Phrase.predictive_repeated.1 hpred
      have hseq := Phrase.predictive_seq_repeated hpred
      apply Justified.repeated
      rw [run] at hrun
      split at hrun
      · rename_i m' hfirst
        have hmatched := ih hp hroom hfirst
        have hrest := ih hpred (hmatched.hasRoom_iff.2 hroom) hrun
        refine (hmatched.seq hrest hseq).optional ?_ hseq hsoft
        rintro rfl
        cases hrest with
        | unmatched hs => exact absurd hs Bool.false_ne_true
      · rename_i m' hfirst
        obtain ⟨rfl, rfl⟩ := Prod.mk.inj (Option.some.inj hrun)
        refine Justified.optional_of_unmatched ?_ hroom
        exact (ih hp hroom hfirst).seq_of_ne_matched (fun h => nomatch h) hseq
      · rename_i hne hne'
        refine ((ih hp hroom hrun).seq_of_ne_matched ?_ hseq).optional ?_ hseq hsoft
        · rintro rfl
          exact hne _ hrun
        · rintro rfl
          exact hne' _ hrun
    | required p expected =>
      obtain ⟨hp, -⟩ := Phrase.predictive_required.1 hpred
      rw [run] at hrun
      split at hrun
      · rename_i m' hfirst
        have hfault := (ih hp hroom hfirst).required_of_unmatched within expected
        rwa [Option.some.inj hrun] at hfault
      · rename_i hne
        refine (ih hp hroom hrun).required ?_
        rintro rfl
        exact hne _ hrun
    | bracketed p =>
      obtain ⟨hp, hsoft⟩ := Phrase.predictive_bracketed.1 hpred
      rw [run] at hrun
      split at hrun
      · rename_i hfull
        have hfault := Justified.bracketed_of_isFull (p := p) within hfull
        rwa [Option.some.inj hrun] at hfault
      · rename_i hfull
        split at hrun
        · rename_i outcome' m' hbody
          obtain ⟨rfl, rfl⟩ := Prod.mk.inj (Option.some.inj hrun)
          have hdeeper : ({ m with depth := m.depth + 1 } : Matcher).HasRoom limit 0 :=
            hasRoom_deeper_iff.2 (hasRoom_one_of_not_isFull hfull)
          exact (ih hp hdeeper hbody).bracketed hsoft
        · cases hrun

end BugsLang.Matcher
