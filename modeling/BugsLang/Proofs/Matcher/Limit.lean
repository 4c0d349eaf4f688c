import BugsLang.Proofs.Matcher.History
import BugsLang.Proofs.Matcher.Trace

/-!
# The limit on nesting

Blocks, parentheses and arguments share one limit. With the limit a run does what it does without,
up to the first bracket that is one too many. There it ends in a fault, and nothing on the way back
takes that up. So the frames of the run without the limit tell how the run with it ends.

## Main definitions

* `Matcher.Frame.exceeds`: too many brackets are open.
* `Matcher.Frame.EndsWhereExceeded`: how the frames of a run without the limit tell how the run with
  it ends.
* `Rule.opener`, `Phrase.bracketsOpenWith`: the symbol in front of the limited bracket of a rule.
* `Matcher.Frame.Opened`: that symbol has been read.

## Main statements

* `Frame.endsWhereExceeded`: a run with the limit, for every phrase.
* `isBracketed_of_find?_trace`: the first frame with too many brackets open is a bracket.
* `nesting_limit_is_exact`: every rule after any calls.
-/

namespace BugsLang

namespace Matcher

variable {n fuel : Nat} {f g : Frame} {q : Phrase}

/-- Whether more than `n` brackets are open once the phrase is entered. -/
def Frame.exceeds (n : Nat) (f : Frame) : Bool :=
  n < f.openBrackets

/-- The fault of the limit at a bracket, and the matcher that it leaves, with so many brackets
open. -/
def Frame.refusal (depth : Nat) (g : Frame) : Outcome × Matcher :=
  (.fault ⟨g.within, .lessNesting, g.matcher.next⟩, { g.matcher.peeked with depth := depth })

/-- A frame with too many brackets open is one of those within, if the phrase is no bracket. -/
theorem find?_trace (hbracketed : f.phrase.isBracketed = false) (hle : f.enclosing ≤ n) :
    (trace none (fuel + 1) f).find? (Frame.exceeds n) =
      ((f.children none fuel).flatMap (trace none fuel)).find? (Frame.exceeds n) := by
  rw [trace, List.find?_cons_of_neg]
  simp [Frame.exceeds, Frame.openBrackets, hbracketed, hle]

/-- With the limit a run ends at the first bracket that is one too many in the run without it, and
if there is none, the two runs are the same. -/
def Frame.EndsWhereExceeded (n fuel : Nat) (f : Frame) : Prop :=
  run (some n) fuel f.within f.phrase f.matcher =
    ((trace none fuel f).find? (exceeds n)).elim (run none fuel f.within f.phrase f.matcher)
      fun g => some (g.refusal f.matcher.depth)

namespace Frame.EndsWhereExceeded

theorem of_lead (hlead : f.phrase.lead = some q) (hf : f.Sound none) (hle : f.enclosing ≤ n)
    (hfirst : EndsWhereExceeded n fuel { f with phrase := q })
    (hlater : ∀ p m, Sound none { f with phrase := p, matcher := m } →
      EndsWhereExceeded n fuel { f with phrase := p, matcher := m }) :
    f.EndsWhereExceeded n (fuel + 1) := by
  unfold EndsWhereExceeded at hfirst ⊢
  rw [find?_trace (Phrase.isBracketed_of_lead hlead) hle, Frame.children_of_lead hlead,
    List.flatMap_cons, List.find?_append, run_of_lead hlead, run_of_lead hlead, hfirst]
  cases (trace none fuel { f with phrase := q }).find? (exceeds n) with
  | some g =>
    -- the first part ends in a fault, and so does the phrase
    rw [Option.elim_some, Option.bind_some, refusal, Phrase.sequel_fault]
    rfl
  | none =>
    rw [Option.elim_none, Option.none_or]
    -- the first part is the same in both runs, and they go on from the same matcher
    unfold later
    cases hrun : run none fuel f.within q f.matcher with
    | none => rfl
    | some first =>
      obtain ⟨o, m⟩ := first
      cases hsequel : f.phrase.sequel o with
      | phrase p =>
        have hsound := hf.child (.later hlead hrun hsequel)
        have hdepth : m.depth = f.matcher.depth := hsound.depth.trans hf.depth.symm
        have hends := hlater p m hsound
        simp only [EndsWhereExceeded] at hends
        simp only [hsequel, Option.bind_some, resume, List.flatMap_cons, List.flatMap_nil,
          List.append_nil]
        rw [hends, hdepth]
      | outcome known => simp [hsequel, resume]
      | refusal e => simp [hsequel, resume]

theorem of_rule {r : Rule} (hphrase : f.phrase = .rule r) (hle : f.enclosing ≤ n)
    (hbody : EndsWhereExceeded n fuel { f with within := r, phrase := r.phrase }) :
    f.EndsWhereExceeded n (fuel + 1) := by
  have hbracketed : f.phrase.isBracketed = false := by rw [hphrase]; rfl
  unfold EndsWhereExceeded at hbody ⊢
  rw [find?_trace hbracketed hle]
  simp only [children, hphrase, List.flatMap_cons, List.flatMap_nil, List.append_nil]
  exact hbody

theorem of_token {pattern : Pattern} (hphrase : f.phrase = .token pattern) (hle : f.enclosing ≤ n) :
    f.EndsWhereExceeded n (fuel + 1) := by
  have hbracketed : f.phrase.isBracketed = false := by rw [hphrase]; rfl
  unfold EndsWhereExceeded
  rw [find?_trace hbracketed hle]
  simp only [children, hphrase, List.flatMap_nil]
  rfl

theorem of_bracketed {p : Phrase} (hphrase : f.phrase = .bracketed p) (hf : f.Sound none)
    (hle : f.enclosing ≤ n)
    (hinside : f.enclosing + 1 ≤ n → EndsWhereExceeded n fuel
      ⟨f.within, p, { f.matcher with depth := f.matcher.depth + 1 }, f.enclosing + 1⟩) :
    f.EndsWhereExceeded n (fuel + 1) := by
  have hdepth := hf.depth
  have hopen : f.openBrackets = f.enclosing + 1 := by
    unfold openBrackets
    rw [hphrase]
    rfl
  unfold EndsWhereExceeded
  by_cases hroom : f.enclosing + 1 ≤ n
  · -- there is room, so both runs enter the bracket and leave it in the same way
    have hends := hinside hroom
    have hexceeds : ¬ f.exceeds n = true := by
      unfold exceeds
      rw [hopen]
      simpa using hroom
    have hfull : ¬ f.matcher.isFull (some n) = true := by
      unfold isFull
      simp only [Option.any_some, decide_eq_true_eq]
      omega
    have hfree : ¬ f.matcher.isFull none = true := Bool.false_ne_true
    simp only [EndsWhereExceeded] at hends
    rw [trace, List.find?_cons_of_neg hexceeds, hphrase, run, run, if_neg hfull, if_neg hfree,
      hends]
    simp only [children, hphrase, if_neg hfree, List.flatMap_cons, List.flatMap_nil,
      List.append_nil]
    cases (trace none fuel _).find? (exceeds n) with
    | none => rfl
    | some g => rfl
  · -- this bracket is the first one too many
    have hexceeds : f.exceeds n = true := by
      unfold exceeds
      rw [hopen]
      exact decide_eq_true (by omega)
    have hfull : f.matcher.isFull (some n) = true := by
      unfold isFull
      simp only [Option.any_some, decide_eq_true_eq]
      omega
    rw [trace, List.find?_cons_of_pos hexceeds, hphrase, run, if_pos hfull]
    rfl

end Frame.EndsWhereExceeded

/-- A run with the limit ends at the first bracket that is one too many in the run without it. -/
theorem Frame.endsWhereExceeded (hf : f.Sound none) (hle : f.enclosing ≤ n) :
    f.EndsWhereExceeded n fuel := by
  induction fuel generalizing f with
  | zero => rfl
  | succ fuel ih =>
    cases hlead : f.phrase.lead with
    | some q =>
      have hfirst : f.Child none fuel { f with phrase := q } := .first hlead
      exact .of_lead hlead hf hle (ih (hf.child hfirst) hle) fun p m hsound => ih hsound hle
    | none =>
      cases hphrase : f.phrase with
      | token pattern => exact .of_token hphrase hle
      | rule r =>
        have hbody : f.Child none fuel { f with within := r, phrase := r.phrase } := .body hphrase
        exact .of_rule hphrase hle (ih (hf.child hbody) hle)
      | bracketed p =>
        have hinside : f.Child none fuel ⟨f.within, p,
            { f.matcher with depth := f.matcher.depth + 1 }, f.enclosing + 1⟩ :=
          .inside hphrase Bool.false_ne_true
        exact .of_bracketed hphrase hf hle (ih (hf.child hinside))
      | seq | choice | optional | repeated | required =>
        rw [hphrase] at hlead
        cases hlead

/-! ## The symbol that opens a bracket -/

end Matcher

/-- The symbol that opens the limited bracket of the rule, if the rule has one. -/
def Rule.opener : Rule → Option Token
  | .block => some ⟨.symbol, Phrase.openBrace⟩
  | .operand | .arguments => some ⟨.symbol, "("⟩
  | _ => none

namespace Phrase

variable {p q r : Phrase} {opener : Option Token} {o : Outcome}

/-- Whether every limited bracket within the phrase comes right behind the opening symbol. -/
def bracketsOpenWith (opener : Option Token) : Phrase → Bool
  | token _ | rule _ => true
  | seq p q =>
    p.bracketsOpenWith opener && !p.isBracketed && q.bracketsOpenWith opener &&
      (!q.isBracketed || opener.any fun t => p = token (.exact t))
  | choice p q =>
    p.bracketsOpenWith opener && !p.isBracketed && q.bracketsOpenWith opener && !q.isBracketed
  | optional p | repeated p | required p _ | bracketed p =>
    p.bracketsOpenWith opener && !p.isBracketed

theorem bracketsOpenWith_of_lead (h : p.bracketsOpenWith opener = true) (hlead : p.lead = some q) :
    q.bracketsOpenWith opener = true ∧ q.isBracketed = false := by
  cases p with
  | token | rule | bracketed => cases hlead
  | seq p _ | choice p _ | optional p | repeated p | required p _ =>
    obtain rfl := Option.some.inj hlead
    simp_all [bracketsOpenWith]

/-- If a phrase goes on with a bracket, the first part of the phrase was the opening symbol. -/
theorem bracketsOpenWith_of_sequel (h : p.bracketsOpenWith opener = true)
    (hlead : p.lead = some q) (hsequel : p.sequel o = .phrase r) :
    r.bracketsOpenWith opener = true ∧
      (r.isBracketed = true → o = .matched ∧ ∃ t, q = token (.exact t) ∧ opener = some t) := by
  unfold sequel at hsequel
  split at hsequel
  · rw [← Sequel.phrase.inj hsequel]
    rw [← Option.some.inj hlead]
    simp only [bracketsOpenWith, Bool.and_eq_true, Bool.or_eq_true, Bool.not_eq_true',
      Option.any_eq_true, decide_eq_true_eq] at h
    obtain ⟨⟨-, hr⟩, hopens⟩ := h
    refine ⟨hr, fun hbracketed => ⟨rfl, ?_⟩⟩
    rw [hbracketed] at hopens
    obtain ⟨t, ht, heq⟩ := hopens.resolve_left (fun h => nomatch h)
    exact ⟨t, heq, ht⟩
  · rw [← Sequel.phrase.inj hsequel]
    simp_all [bracketsOpenWith]
  · cases hsequel
  · rw [← Sequel.phrase.inj hsequel]
    exact ⟨h, fun hbracketed => nomatch hbracketed⟩
  · cases hsequel
  · cases hsequel
  · cases hsequel

theorem bracketsOpenWith_inside (h : (bracketed p).bracketsOpenWith opener = true) :
    p.bracketsOpenWith opener = true ∧ p.isBracketed = false := by
  obtain ⟨hopens, hinside⟩ := Bool.and_eq_true_iff.1 h
  exact ⟨hopens, by simpa using hinside⟩

end Phrase

/-- The brackets of a rule come right behind its opening symbol. -/
theorem Rule.bracketsOpenWith_phrase (r : Rule) :
    r.phrase.bracketsOpenWith r.opener = true ∧ r.phrase.isBracketed = false := by
  cases r <;> exact ⟨rfl, rfl⟩

namespace Matcher

variable {limit : Option Nat} {n fuel : Nat} {f g : Frame} {m m' : Matcher} {within : Rule}
  {t : Token}

/-- A token that is matched has been read. -/
theorem exists_unread_of_run_token
    (hpred : (Phrase.token (.exact t)).predictive = true) (hroom : m.HasRoom limit 0)
    (hrun : run limit fuel within (.token (.exact t)) m = some (.matched, m')) :
    ∃ line, m.unread = ⟨line, t⟩ :: m'.unread := by
  obtain ⟨w, hread, _, hderives⟩ := (justified_of_run hpred hroom hrun).exists_sentence
  obtain ⟨u, ht, hu⟩ := derives_token_iff.1 hderives
  obtain ⟨s, rfl, hs⟩ := List.map_eq_singleton_iff.1 hu
  refine ⟨s.line, ?_⟩
  have hsame : u = t := of_decide_eq_true ht
  rw [hread.unread, ← hsame, ← hs]
  rfl

/-- The frame is one of a run from the matcher on. If it is a bracket, the opening symbol has just
been read. -/
structure Frame.Opened (m : Matcher) (f : Frame) : Prop where
  reads : ∃ u, m.unread = u ++ f.matcher.unread
  within : f.phrase.bracketsOpenWith f.within.opener = true
  opener : f.phrase.isBracketed = true →
    ∃ u t, m.unread = u ++ t :: f.matcher.unread ∧ f.within.opener = some t.token

/-- A phrase that is no bracket has nothing in front of it that opens one. -/
theorem Frame.Opened.of_isBracketed_eq_false (hreads : ∃ u, m.unread = u ++ f.matcher.unread)
    (hwithin : f.phrase.bracketsOpenWith f.within.opener = true)
    (hbracketed : f.phrase.isBracketed = false) : f.Opened m := by
  refine ⟨hreads, hwithin, ?_⟩
  intro h
  rw [hbracketed] at h
  cases h

theorem Frame.Opened.child (hf : f.Opened m) (hsound : f.Sound limit)
    (hg : f.Child limit fuel g) : g.Opened m := by
  cases hg with
  | @body r _ =>
    obtain ⟨hwithin, hbracketed⟩ := r.bracketsOpenWith_phrase
    exact .of_isBracketed_eq_false hf.reads hwithin hbracketed
  | inside hphrase _ =>
    have hwithin := hf.within
    rw [hphrase] at hwithin
    obtain ⟨hinside, hbracketed⟩ := Phrase.bracketsOpenWith_inside hwithin
    exact .of_isBracketed_eq_false hf.reads hinside hbracketed
  | first hlead =>
    obtain ⟨hfirst, hbracketed⟩ := Phrase.bracketsOpenWith_of_lead hf.within hlead
    exact .of_isBracketed_eq_false hf.reads hfirst hbracketed
  | later hlead hrun hsequel =>
    obtain ⟨hlater, hopens⟩ := Phrase.bracketsOpenWith_of_sequel hf.within hlead hsequel
    have hq := Phrase.predictive_of_lead hsound.predictive hlead
    obtain ⟨u, hu⟩ := hf.reads
    obtain ⟨v, hread⟩ := (justified_of_run hq hsound.hasRoom hrun).exists_reads
    refine ⟨⟨u ++ v, ?_⟩, hlater, ?_⟩
    · rw [hu, hread.unread, List.append_assoc]
    · intro hbracketed
      -- the first part of the phrase was the opening symbol, and it has been matched
      obtain ⟨rfl, t, rfl, hopener⟩ := hopens hbracketed
      obtain ⟨line, hunread⟩ := exists_unread_of_run_token hq hsound.hasRoom hrun
      exact ⟨u, ⟨line, t⟩, by rw [hu, hunread], hopener⟩

/-! ## The first bracket that is one too many -/

/-- What stands next within a frame has no more brackets around it than are open in the frame. -/
theorem Frame.Child.enclosing_le (hg : f.Child limit fuel g) : g.enclosing ≤ f.openBrackets := by
  cases hg with
  | inside hphrase _ =>
    show f.enclosing + 1 ≤ f.openBrackets
    simp [openBrackets, hphrase, Phrase.isBracketed]
  | body | first | later => exact Nat.le_add_right _ _

/-- The first frame with too many brackets open is a bracket, and it is only one too many. -/
theorem isBracketed_of_find?_trace (hle : f.enclosing ≤ n)
    (hfind : (trace limit fuel f).find? (Frame.exceeds n) = some g) :
    g.phrase.isBracketed = true ∧ g.openBrackets = n + 1 := by
  induction fuel generalizing f with
  | zero => cases hfind
  | succ fuel ih =>
    rw [trace] at hfind
    by_cases hexceeds : f.exceeds n = true
    · rw [List.find?_cons_of_pos hexceeds] at hfind
      obtain rfl := Option.some.inj hfind
      have hmany : n < f.openBrackets := of_decide_eq_true hexceeds
      unfold Frame.openBrackets at hmany ⊢
      -- of the brackets around the phrase there are not too many, so it is one itself
      by_cases hbracketed : f.phrase.isBracketed = true
      · rw [if_pos hbracketed] at hmany ⊢
        exact ⟨hbracketed, by omega⟩
      · rw [if_neg hbracketed] at hmany
        omega
    · rw [List.find?_cons_of_neg hexceeds, List.find?_flatMap] at hfind
      obtain ⟨child, hchild, hfind⟩ := List.exists_of_findSome?_eq_some hfind
      have hfew : f.openBrackets ≤ n := by simpa [Frame.exceeds] using hexceeds
      exact ih (Nat.le_trans (Frame.child_of_mem_children hchild).enclosing_le hfew) hfind

/-! ## Matching a rule -/

/-- All along a run of a rule every bracket has been opened by its symbol. -/
theorem opened_of_mem_traceOf (hdepth : m.depth = 0) (hroom : m.HasRoom limit 0) (rule : Rule)
    (hf : f ∈ traceOf limit m rule) : f.Opened m := by
  obtain ⟨hwithin, hbracketed⟩ := rule.bracketsOpenWith_phrase
  have hstart : Frame.Opened m ⟨rule, rule.phrase, m, 0⟩ :=
    .of_isBracketed_eq_false ⟨[], rfl⟩ hwithin hbracketed
  have hstep (fuel : Nat) (f g : Frame) (hf : f.Sound limit ∧ f.Opened m)
      (hg : f.Child limit fuel g) : g.Sound limit ∧ g.Opened m :=
    ⟨hf.1.child hg, hf.2.child hf.1 hg⟩
  exact (forall_mem_trace hstep ⟨.start hdepth hroom rule, hstart⟩ f hf).2

/-- What is matched without a limit tells how matching a rule ends. -/
theorem Reachable.attempt_eq_elim (hm : m.Reachable) (rule : Rule) :
    some (m.attempt rule) =
      ((traceOf none m rule).find? (Frame.exceeds nestingLimit)).elim
        (run none m.fuel rule rule.phrase m) fun g => some (g.refusal m.depth) := by
  have hroom : m.HasRoom (some nestingLimit) 0 := hm.hasRoom_iff.2 (Nat.zero_le _)
  rw [← run_eq_attempt rule hroom (Nat.le_refl _)]
  exact Frame.endsWhereExceeded (.start hm.depth_eq_zero hasRoom_none rule) (Nat.zero_le _)

/-- Behind the opening symbol of a bracket comes the next token. -/
theorem Frame.Opened.exists_unread (hf : f.Opened m) (hbracketed : f.phrase.isBracketed = true) :
    ∃ u opening rest, m.unread = u ++ opening :: f.matcher.next :: rest ∧
      f.matcher.unread = f.matcher.next :: rest ∧ f.within.opener = some opening.token := by
  obtain ⟨u, opening, hunread, hopener⟩ := hf.opener hbracketed
  obtain ⟨rest, hrest⟩ := f.matcher.unread_eq_cons
  rw [hrest] at hunread
  exact ⟨u, opening, rest, hunread, hrest, hopener⟩

/-- The limit makes no difference but at the first bracket that is one too many. As long as a rule
without the limit keeps to it, the limit changes nothing. Else the rule fails where that bracket has
been opened, at the token right behind the opening symbol. The depth never exceeds the limit, and
after the call it is what it was before. -/
theorem nesting_limit_is_exact (m : Matcher) (rule : Rule) (hm : m.Reachable) :
    ∃ free, run none m.fuel rule rule.phrase m = some free ∧
      ((∀ f ∈ traceOf none m rule, f.openBrackets ≤ nestingLimit) → m.attempt rule = free) ∧
      (∀ f, (traceOf none m rule).find? (Frame.exceeds nestingLimit) = some f →
        f.phrase.isBracketed = true ∧ f.openBrackets = nestingLimit + 1 ∧
        ∃ u opening found rest,
          m.unread = u ++ opening :: found :: rest ∧ f.matcher.unread = found :: rest ∧
          f.within.opener = some opening.token ∧
          (m.attempt rule).1 = .fault ⟨f.within, .lessNesting, found⟩ ∧
          (m.attempt rule).2.unread = found :: rest ∧ (m.attempt rule).2.depth = m.depth) ∧
      ∀ f ∈ traceOf (some nestingLimit) m rule,
        f.matcher.depth = f.enclosing ∧ f.matcher.depth ≤ nestingLimit := by
  have hdepth := hm.depth_eq_zero
  have hends := hm.attempt_eq_elim rule
  obtain ⟨free, hrun⟩ := Option.isSome_iff_exists.1 (run_fuel_isSome rule hasRoom_none)
  refine ⟨free, hrun, ?_, ?_, ?_⟩
  · intro hall
    have hnone : (traceOf none m rule).find? (Frame.exceeds nestingLimit) = none := by
      rw [List.find?_eq_none]
      intro f hf
      simpa [Frame.exceeds] using hall f hf
    rw [hnone, Option.elim_none, hrun] at hends
    exact Option.some.inj hends
  · intro f hfind
    have hmem := List.mem_of_find?_eq_some hfind
    have hopened := opened_of_mem_traceOf hdepth hasRoom_none rule hmem
    obtain ⟨hbracketed, hopen⟩ := isBracketed_of_find?_trace (Nat.zero_le _) hfind
    obtain ⟨u, opening, rest, hunread, hrest, hopener⟩ := hopened.exists_unread hbracketed
    rw [hfind, Option.elim_some] at hends
    refine ⟨hbracketed, hopen, u, opening, f.matcher.next, rest, hunread, hrest, hopener, ?_⟩
    rw [Option.some.inj hends]
    exact ⟨rfl, f.matcher.unread_peeked.trans hrest, rfl⟩
  · intro f hf
    have hroom : m.HasRoom (some nestingLimit) 0 := hm.hasRoom_iff.2 (Nat.zero_le _)
    have hsound := (Frame.Sound.start hdepth hroom rule).of_mem_trace hf
    exact ⟨hsound.depth, hsound.hasRoom nestingLimit rfl⟩

/-- A call with parentheses in its arguments is far from the limit. Of 101 parentheses the last one
is one too many. There the limit is reported, and not that the first of them is never closed. -/
theorem nesting_limit_is_exact_in_parentheses :
    let m := ofSource "f((2), 3)"
    let deep := ofSource (String.ofList (List.replicate 101 '(' ++ ['2']))
    run none m.fuel .call Rule.call.phrase m = some (m.attempt .call) ∧
      (m.attempt .call).1 = .matched ∧
      (deep.attempt .factor).1 = .fault ⟨.operand, .lessNesting, ⟨1, .number, "2.0"⟩⟩ ∧
      ∃ f, (traceOf none deep .factor).find? (Frame.exceeds nestingLimit) = some f ∧
        f.openBrackets = 101 ∧ f.within = .operand := by
  intro m deep
  have hm : m.Reachable := reachable_ofSource _
  have hdeep : deep.Reachable := reachable_ofSource _
  have hfew : ∀ f ∈ traceOf none m .call, f.openBrackets ≤ nestingLimit := by decide +kernel
  have hmatched : (m.attempt .call).1 = .matched := by decide +kernel
  have hfault : (deep.attempt .factor).1 =
      .fault ⟨.operand, .lessNesting, ⟨1, .number, "2.0"⟩⟩ := by decide +kernel
  have hunlimited : (run none deep.fuel .factor Rule.factor.phrase deep).map Prod.fst =
      some (.fault ⟨.operand, .literal ")", ⟨1, .inputEnd⟩⟩) := by decide +kernel
  obtain ⟨free, hrun, hsame, -, -⟩ := nesting_limit_is_exact m .call hm
  obtain ⟨free', hrun', hsame', hfirst, -⟩ := nesting_limit_is_exact deep .factor hdeep
  refine ⟨?_, hmatched, hfault, ?_⟩
  · rw [hsame hfew, hrun]
  · cases hfind : (traceOf none deep .factor).find? (Frame.exceeds nestingLimit) with
    | none =>
      -- if no bracket were too many, the unclosed one would be reported with the limit too
      have hall : ∀ f ∈ traceOf none deep .factor, f.openBrackets ≤ nestingLimit := by
        intro f hf
        simpa [Frame.exceeds] using List.find?_eq_none.1 hfind f hf
      rw [hsame' hall] at hfault
      rw [hrun', Option.map_some, hfault] at hunlimited
      cases hunlimited
    | some f =>
      obtain ⟨-, hopen, _, _, _, _, -, -, -, hlimited, -⟩ := hfirst f hfind
      have hwithin := Outcome.fault.inj (hlimited.symm.trans hfault)
      exact ⟨f, rfl, hopen, congrArg Diagnostic.rule hwithin⟩

end Matcher

end BugsLang
