import BugsLang.Proofs.Matcher.Ending
import BugsLang.Proofs.Text.Shift

/-!
# Matchers with similar tokens ahead

The rules take no notice of lines, and the end of a line is always read together with the ends of
lines behind it. So let the tokens ahead of two matchers be similar, in a sense in which similar
tokens stay similar when one of them is read, or all ends of lines that come next. Then the two
matchers do the same. It is enough if this holds within the reach of the first one.

## Main definitions

* `Outcome.mapFound`: the outcome with another token found.
* `KeptByReading InReach S`: tokens that are similar stay so within reach.
* `Matcher.Similar S m m'`: the tokens ahead of the two are similar.

## Main statements

* `run_similar`: matching a phrase keeps two matchers similar.
* `attempt_similar`: the outcome of a rule for similar matchers.
-/

namespace BugsLang

/-! ## Other tokens found -/

/-- The outcome, with the token found at a fault replaced by its image. -/
def Outcome.mapFound (f : Token.Located → Token.Located) : Outcome → Outcome
  | .matched => .matched
  | .unmatched => .unmatched
  | .fault d => .fault { d with found := f d.found }

@[simp] theorem Outcome.mapFound_id (o : Outcome) : o.mapFound id = o := by
  cases o <;> rfl

/-- How to go on, with the token found at a fault replaced by its image. -/
def Phrase.Sequel.mapFound (f : Token.Located → Token.Located) : Phrase.Sequel → Phrase.Sequel
  | .outcome o => .outcome (o.mapFound f)
  | .phrase p => .phrase p
  | .refusal e => .refusal e

/-- Which token was found has no part in how to go on. -/
theorem Phrase.sequel_mapFound (p : Phrase) (o : Outcome) (f : Token.Located → Token.Located) :
    p.sequel (o.mapFound f) = (p.sequel o).mapFound f := by
  cases o <;> cases p <;> rfl

/-! ## Phrases apart from the ends of lines -/

/-- Whether the set has neither ends of lines nor the end of the input. -/
def Pattern.isContent (pattern : Pattern) : Bool :=
  pattern.disjoint (.kind .lineEnd) && pattern.disjoint (.kind .inputEnd)

theorem Pattern.kind_ne_of_isContent {pattern : Pattern} {t : Token}
    (h : pattern.isContent = true) (haccepts : pattern.accepts t = true) :
    t.kind ≠ .lineEnd ∧ t.kind ≠ .inputEnd := by
  obtain ⟨hline, hinput⟩ := Bool.and_eq_true_iff.1 h
  have hline := accepts_eq_false_of_disjoint hline haccepts
  have hinput := accepts_eq_false_of_disjoint hinput haccepts
  exact ⟨of_decide_eq_false hline, of_decide_eq_false hinput⟩

namespace Phrase

/-- The sets of tokens in the phrase, those in its rules apart. -/
def patterns : Phrase → List Pattern
  | token pattern => [pattern]
  | rule _ => []
  | seq p q | choice p q => p.patterns ++ q.patterns
  | optional p | repeated p | required p _ | bracketed p => p.patterns

variable {p q : Phrase} {o : Outcome}

theorem patterns_of_lead (hlead : p.lead = some q) : q.patterns ⊆ p.patterns := by
  cases p with
  | token | rule | bracketed => cases hlead
  | seq p _ | choice p _ =>
    rw [← Option.some.inj hlead]
    exact List.subset_append_left _ _
  | optional p | repeated p | required p _ =>
    rw [← Option.some.inj hlead]
    exact List.Subset.refl _

theorem patterns_of_sequel (hsequel : p.sequel o = .phrase q) : q.patterns ⊆ p.patterns := by
  unfold sequel at hsequel
  split at hsequel
  · rw [← Sequel.phrase.inj hsequel]
    exact List.subset_append_right _ _
  · rw [← Sequel.phrase.inj hsequel]
    exact List.subset_append_right _ _
  · cases hsequel
  · rw [← Sequel.phrase.inj hsequel]
    exact List.Subset.refl _
  · cases hsequel
  · cases hsequel
  · cases hsequel

end Phrase

/-- No rule but the one for it has the end of a line. -/
theorem Rule.isContent_of_mem_patterns {rule : Rule} (h : rule ≠ .lineEnd) :
    ∀ pattern ∈ rule.phrase.patterns, pattern.isContent = true := by
  cases rule with
  | lineEnd => exact absurd rfl h
  | _ => decide

/-! ## Similar tokens -/

/-- Lists of tokens that are similar begin with the same token, if perhaps on other lines. As long
as what is left of the first list is in reach, they stay similar when one token is read that is not
the end of a line, and when all ends of lines are read that come first. Whatever comes before what
is in reach is in reach, too. -/
structure KeptByReading (InReach : List Token.Located → Prop)
    (S : List Token.Located → List Token.Located → Prop) : Prop where
  of_append : ∀ {us} w, InReach us → InReach (w ++ us)
  token_eq : ∀ {t t' us us'}, S (t :: us) (t' :: us') → t'.token = t.token
  tail : ∀ {t t' us us'}, S (t :: us) (t' :: us') → t.token.kind ≠ .lineEnd →
    t.token.kind ≠ .inputEnd → InReach us → S us us'
  dropLineEnds : ∀ {us us'}, S us us' → InReach (dropLineEnds us) →
    S (dropLineEnds us) (dropLineEnds us')

theorem dropLineEnds_map_down (n : Nat) (us : List Token.Located) :
    dropLineEnds (us.map (Token.Located.down n)) = (dropLineEnds us).map (Token.Located.down n) :=
  List.dropWhile_map

/-- The same tokens on other lines are similar. -/
theorem keptByReading_map_down (n : Nat) :
    KeptByReading (fun _ => True) (fun us us' => us' = us.map (Token.Located.down n)) where
  of_append := fun _ h => h
  token_eq := by
    intro t t' us us' h
    rw [(List.cons.inj h).1]
    rfl
  tail := by
    intro t t' us us' h _ _ _
    exact (List.cons.inj h).2
  dropLineEnds := by
    intro us us' h _
    rw [h, dropLineEnds_map_down]

namespace Matcher

/-- The tokens ahead of the two matchers are similar, and as many brackets are open. -/
structure Similar (S : List Token.Located → List Token.Located → Prop) (m m' : Matcher) : Prop where
  unread : S m.unread m'.unread
  depth : m'.depth = m.depth

variable {InReach : List Token.Located → Prop} {S : List Token.Located → List Token.Located → Prop}
  {limit : Option Nat} {fuel : Nat} {within : Rule} {p : Phrase} {m m' m₁ : Matcher}
  {outcome : Outcome}

namespace Similar

theorem token_next (hS : KeptByReading InReach S) (h : Similar S m m') :
    m'.next.token = m.next.token := by
  obtain ⟨rest, hunread⟩ := m.unread_eq_cons
  obtain ⟨rest', hunread'⟩ := m'.unread_eq_cons
  have hsimilar := h.unread
  rw [hunread, hunread'] at hsimilar
  exact hS.token_eq hsimilar

theorem peeked (h : Similar S m m') : Similar S m.peeked m'.peeked := by
  refine ⟨?_, h.depth⟩
  rw [unread_peeked, unread_peeked]
  exact h.unread

/-- To read a token that ends neither a line nor the input keeps them similar. -/
theorem read (hS : KeptByReading InReach S) (h : Similar S m m')
    (hline : m.next.token.kind ≠ .lineEnd) (hinput : m.next.token.kind ≠ .inputEnd)
    (hreach : InReach ({ m with reader := m.reader.read.2 } : Matcher).unread) :
    Similar S { m with reader := m.reader.read.2 } { m' with reader := m'.reader.read.2 } := by
  have hnext := h.token_next hS
  obtain ⟨rest, hunread⟩ := m.unread_eq_cons
  obtain ⟨rest', hunread'⟩ := m'.unread_eq_cons
  have hsimilar := h.unread
  rw [hunread, hunread'] at hsimilar
  refine ⟨?_, h.depth⟩
  rw [unread_read_of_cons hunread hinput] at hreach ⊢
  rw [unread_read_of_cons hunread' (hnext ▸ hinput)]
  exact hS.tail hsimilar hline hinput hreach

theorem isFull_eq (h : Similar S m m') : m'.isFull limit = m.isFull limit := by
  unfold isFull
  rw [h.depth]

theorem deeper (h : Similar S m m') :
    Similar S { m with depth := m.depth + 1 } { m' with depth := m'.depth + 1 } :=
  ⟨h.unread, congrArg (· + 1) h.depth⟩

theorem shallower (h : Similar S m m') :
    Similar S { m with depth := m.depth - 1 } { m' with depth := m'.depth - 1 } :=
  ⟨h.unread, congrArg (· - 1) h.depth⟩

/-- The ends of lines that come next are read by both, or by neither. -/
theorem exists_ends_lineEnd (hS : KeptByReading InReach S) (h : Similar S m m')
    (hends : Ends limit within (.rule .lineEnd) m outcome m₁) (hreach : InReach m₁.unread) :
    ∃ m₁', Ends limit within (.rule .lineEnd) m' (outcome.mapFound fun _ => m₁'.next) m₁' ∧
      Similar S m₁ m₁' := by
  obtain ⟨m₂, hends₂, hunread, hdepth⟩ := Matcher.exists_ends_lineEnd limit within m
  obtain ⟨m₁', hends', hunread', hdepth'⟩ := Matcher.exists_ends_lineEnd limit within m'
  obtain ⟨rfl, rfl⟩ := hends.unique hends₂
  refine ⟨m₁', ?_, ?_, ?_⟩
  · rw [h.token_next hS] at hends'
    by_cases hkind : m.next.token.kind = .lineEnd
    · rw [if_pos hkind] at hends' ⊢
      exact hends'
    · rw [if_neg hkind] at hends' ⊢
      exact hends'
  · rw [hunread] at hreach ⊢
    rw [hunread']
    exact hS.dropLineEnds h.unread hreach
  · rw [hdepth, hdepth', h.depth]

end Similar

/-- Before a run a matcher is in reach that is so after it. -/
theorem inReach_of_justified (hS : KeptByReading InReach S)
    (hjust : Justified limit p m outcome m₁) (hreach : InReach m₁.unread) : InReach m.unread := by
  obtain ⟨w, hread⟩ := hjust.exists_reads
  rw [hread.unread]
  exact hS.of_append w hreach

/-- Matching a phrase keeps two matchers similar, if the first one stays in reach. The outcomes are
the same, each with the token found that is next for its matcher. The second run may have more ends
of lines to read. -/
theorem run_similar (hS : KeptByReading InReach S) (hpred : p.predictive = true)
    (hcontent : ∀ pattern ∈ p.patterns, pattern.isContent = true) (hroom : m.HasRoom limit 0)
    (h : Similar S m m') (hrun : run limit fuel within p m = some (outcome, m₁))
    (hreach : InReach m₁.unread) :
    ∃ m₁', Ends limit within p m' (outcome.mapFound fun _ => m₁'.next) m₁' ∧
      Similar S m₁ m₁' := by
  induction fuel generalizing within p m m' outcome m₁ with
  | zero => cases hrun
  | succ fuel ih =>
    cases hlead : p.lead with
    | some q =>
      have hq := Phrase.predictive_of_lead hpred hlead
      have hcontentq : ∀ pattern ∈ q.patterns, pattern.isContent = true :=
        fun pattern hmem => hcontent pattern (Phrase.patterns_of_lead hlead hmem)
      rw [run_of_lead hlead] at hrun
      obtain ⟨⟨o, m₂⟩, hfirst, hrun⟩ := Option.bind_eq_some_iff.1 hrun
      have hroom₂ := (justified_of_run hq hroom hfirst).hasRoom_iff.2 hroom
      -- whatever comes after the first part is done by the second matcher in the same way
      have hcont (hreach₂ : InReach m₂.unread) (hresume : ∀ m₂', Similar S m₂ m₂' → ∃ m₁',
          Resumes limit within ((p.sequel o).mapFound fun _ => m₂'.next) m₂'
            (outcome.mapFound fun _ => m₁'.next) m₁' ∧ Similar S m₁ m₁') :
          ∃ m₁', Ends limit within p m' (outcome.mapFound fun _ => m₁'.next) m₁' ∧
            Similar S m₁ m₁' := by
        obtain ⟨m₂', hends, hsimilar⟩ := ih hq hcontentq hroom h hfirst hreach₂
        obtain ⟨m₁', hresumes, hsimilar'⟩ := hresume m₂' hsimilar
        rw [← Phrase.sequel_mapFound] at hresumes
        exact ⟨m₁', (ends_iff_of_lead hlead).2 ⟨_, m₂', hends, hresumes⟩, hsimilar'⟩
      cases hsequel : p.sequel o with
      | phrase q' =>
        rw [hsequel] at hrun hcont
        have hq' := Phrase.predictive_of_sequel hpred hsequel
        have hcontentq' : ∀ pattern ∈ q'.patterns, pattern.isContent = true :=
          fun pattern hmem => hcontent pattern (Phrase.patterns_of_sequel hsequel hmem)
        refine hcont (inReach_of_justified hS (justified_of_run hq' hroom₂ hrun) hreach) ?_
        intro m₂' hsimilar
        exact ih hq' hcontentq' hroom₂ hsimilar hrun hreach
      | outcome known =>
        rw [hsequel] at hrun hcont
        obtain ⟨rfl, rfl⟩ := Prod.mk.inj (Option.some.inj hrun)
        exact hcont hreach fun m₂' hsimilar =>
          ⟨m₂', resumes_outcome_iff.2 ⟨rfl, rfl⟩, hsimilar⟩
      | refusal e =>
        rw [hsequel] at hrun hcont
        obtain ⟨rfl, rfl⟩ := Prod.mk.inj (Option.some.inj hrun)
        refine hcont (m₂.unread_peeked ▸ hreach) ?_
        intro m₂' hsimilar
        refine ⟨m₂'.peeked, ⟨0, ?_⟩, hsimilar.peeked⟩
        rw [next_peeked]
        rfl
    | none =>
      cases p with
      | token pattern =>
        rw [run] at hrun
        have hpattern := hcontent pattern (List.mem_singleton.2 rfl)
        by_cases haccepts : pattern.accepts m.next.token = true
        · obtain ⟨hline, hinput⟩ := Pattern.kind_ne_of_isContent hpattern haccepts
          rw [take_of_accepts haccepts] at hrun
          obtain ⟨rfl, rfl⟩ := Prod.mk.inj (Option.some.inj hrun)
          refine ⟨_, ends_token_of_accepts ?_, h.read hS hline hinput hreach⟩
          rwa [h.token_next hS]
        · rw [take_of_not_accepts haccepts] at hrun
          obtain ⟨rfl, rfl⟩ := Prod.mk.inj (Option.some.inj hrun)
          refine ⟨_, ends_token_of_not_accepts ?_, h.peeked⟩
          rwa [h.token_next hS]
      | rule r =>
        by_cases hr : r = .lineEnd
        · subst hr
          exact h.exists_ends_lineEnd hS ⟨fuel + 1, hrun⟩ hreach
        · obtain ⟨m₁', hends, hsimilar⟩ :=
            ih r.predictive_phrase (Rule.isContent_of_mem_patterns hr) hroom h hrun hreach
          exact ⟨m₁', ends_rule_iff.2 hends, hsimilar⟩
      | bracketed p =>
        obtain ⟨hp, -⟩ := Phrase.predictive_bracketed.1 hpred
        rw [run] at hrun
        by_cases hfull : m.isFull limit = true
        · rw [if_pos hfull] at hrun
          obtain ⟨rfl, rfl⟩ := Prod.mk.inj (Option.some.inj hrun)
          refine ⟨m'.peeked, ?_, h.peeked⟩
          rw [next_peeked]
          exact ends_bracketed_of_isFull (h.isFull_eq.trans hfull)
        · rw [if_neg hfull] at hrun
          have hdeeper : ({ m with depth := m.depth + 1 } : Matcher).HasRoom limit 0 :=
            hasRoom_deeper_iff.2 (hasRoom_one_of_not_isFull hfull)
          split at hrun
          · rename_i o m₂ hbody
            obtain ⟨rfl, rfl⟩ := Prod.mk.inj (Option.some.inj hrun)
            obtain ⟨m₂', hends, hsimilar⟩ := ih hp hcontent hdeeper h.deeper hbody hreach
            exact ⟨_, hends.bracketed (h.isFull_eq ▸ hfull), hsimilar.shallower⟩
          · cases hrun
      | seq | choice | optional | repeated | required => cases hlead

/-- However matching a phrase ends for a matcher, it ends so for a similar one. -/
theorem Ends.exists_similar (hends : Ends limit within p m outcome m₁)
    (hS : KeptByReading InReach S) (hpred : p.predictive = true)
    (hcontent : ∀ pattern ∈ p.patterns, pattern.isContent = true) (hroom : m.HasRoom limit 0)
    (h : Similar S m m') (hreach : InReach m₁.unread) :
    ∃ m₁', Ends limit within p m' (outcome.mapFound fun _ => m₁'.next) m₁' ∧
      Similar S m₁ m₁' := by
  obtain ⟨fuel, hrun⟩ := hends
  exact run_similar hS hpred hcontent hroom h hrun hreach

/-- Matching a rule keeps two matchers similar, if the first one stays in reach. The outcomes are
the same, each with the token found that is next for its matcher. -/
theorem attempt_similar (hS : KeptByReading InReach S) (h : Similar S m m') (rule : Rule)
    (hroom : m.HasRoom (some nestingLimit) 0) (hreach : InReach (m.attempt rule).2.unread) :
    (m'.attempt rule).1 = (m.attempt rule).1.mapFound (fun _ => (m'.attempt rule).2.next) ∧
      Similar S (m.attempt rule).2 (m'.attempt rule).2 := by
  have hroom' : m'.HasRoom (some nestingLimit) 0 := hroom.of_depth_eq h.depth
  -- as a phrase the rule has no tokens of its own
  have hcontent : ∀ pattern ∈ (Phrase.rule rule).patterns, pattern.isContent = true :=
    fun _ hmem => absurd hmem List.not_mem_nil
  have hends : Ends (some nestingLimit) rule (.rule rule) m _ _ :=
    ends_rule_iff.2 (ends_attempt rule hroom)
  obtain ⟨m₁', hends', hsimilar⟩ := hends.exists_similar hS rfl hcontent hroom h hreach
  obtain ⟨houtcome, rfl⟩ := (ends_attempt rule hroom').unique (ends_rule_iff.1 hends')
  exact ⟨houtcome, hsimilar⟩

end Matcher

end BugsLang
