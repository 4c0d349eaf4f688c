import BugsLang.Proofs.Matcher.Ending
import BugsLang.Proofs.Matcher.History
import BugsLang.Proofs.Matcher.Trace

/-!
# Progress

Why matching ends. From a phrase to one that is matched within it, either a token is read, or none
is and the way leads down the grammar, in which no rule stands at its own left. So a loop that goes
round again has read a token, and a rule that is entered within itself has read one before. The end
of the input is never read. Hence there are no more rounds and no more levels than tokens, and a
bound on recursion that is linear in the number of unread tokens is never reached.

## Main definitions

* `Matcher.Advances m m'`: from `m` to `m'` a token has been read that is not the end of the input.
* `Matcher.Frame.Descends f g`: from `f` to `g` a token has been read, or the way leads down.
* `Matcher.Frame.Enters r f`: the rule `r` is entered with the frame.

## Main statements

* `Frame.Child.descends`: one step within a run.
* `Frame.Sound.descends`: every frame that lies within another.
* `matching_ends`: every rule after any calls.
-/

namespace BugsLang

namespace Phrase

variable {p q q' : Phrase} {o : Outcome}

/-- The first part of a compound phrase is lower. -/
theorem height_lt_of_lead (hlead : p.lead = some q) : q.height < p.height := by
  cases p with
  | token | rule | bracketed => cases hlead
  | seq | choice =>
    obtain rfl := Option.some.inj hlead
    exact Nat.lt_succ_of_le (Nat.le_max_left _ _)
  | optional | repeated | required =>
    obtain rfl := Option.some.inj hlead
    exact Nat.lt_succ_self _

/-- What a compound phrase goes on with is lower, unless a token has been read for it. -/
theorem height_lt_of_sequel (hpred : p.predictive = true) (hlead : p.lead = some q)
    (hsequel : p.sequel o = .phrase q') :
    q'.height < p.height ∨ o = .matched ∧ q.nullable = false := by
  unfold sequel at hsequel
  split at hsequel
  · rename_i first second
    obtain rfl := Option.some.inj hlead
    obtain rfl := Sequel.phrase.inj hsequel
    cases hnull : first.nullable with
    | true =>
      left
      rw [height_seq, hnull, if_pos rfl]
      exact Nat.lt_succ_of_le (Nat.le_max_right _ _)
    | false => exact .inr ⟨rfl, rfl⟩
  · obtain rfl := Sequel.phrase.inj hsequel
    left
    rw [height_choice]
    exact Nat.lt_succ_of_le (Nat.le_max_right _ _)
  · cases hsequel
  · obtain rfl := Option.some.inj hlead
    obtain ⟨hq, hsoft, -⟩ := predictive_repeated.1 hpred
    exact .inr ⟨rfl, nullable_eq_false_of_soft hq hsoft⟩
  · cases hsequel
  · cases hsequel
  · cases hsequel

end Phrase

namespace Matcher

variable {limit : Option Nat} {fuel : Nat} {p : Phrase} {m m' m'' : Matcher} {f g h : Frame}
  {w : List Token.Located}

/-! ## Advancing -/

/-- From the one matcher to the other some tokens have been read, and the end of the input is not
among them. -/
def Advances (m m' : Matcher) : Prop :=
  ∃ w, w ≠ [] ∧ .inputEnd ∉ tokensOf w ∧ m.unread = w ++ m'.unread

/-- Whatever comes before tokens that are unread has no end of the input in it. -/
theorem inputEnd_not_mem (h : m.unread = w ++ m'.unread) : .inputEnd ∉ tokensOf w := by
  obtain ⟨u, line, hunread, hu⟩ := m.unread_eq_append_inputEnd
  obtain ⟨rest, hrest⟩ := m'.unread_eq_cons
  rw [hunread] at h
  have hw : w <+: u := by
    refine List.prefix_of_prefix_length_le ⟨_, h.symm⟩ (List.prefix_append _ _) ?_
    have hlength := congrArg List.length h
    rw [hrest] at hlength
    simp only [List.length_append, List.length_cons, List.length_nil] at hlength
    omega
  intro hmem
  exact hu ((hw.map Token.Located.token).subset hmem)

theorem Reads.advances (h : m.Reads w m') (hw : w ≠ []) : m.Advances m' :=
  ⟨w, hw, inputEnd_not_mem h.unread, h.unread⟩

theorem Advances.congr (h : m.Advances m') (h' : m''.unread = m'.unread) : m.Advances m'' := by
  unfold Advances
  rwa [h']

theorem Advances.trans (h : m.Advances m') (h' : m'.Advances m'') : m.Advances m'' := by
  obtain ⟨u, hu, -, hunread⟩ := h
  obtain ⟨v, -, -, hunread'⟩ := h'
  have happend : m.unread = (u ++ v) ++ m''.unread := by
    rw [hunread, hunread', List.append_assoc]
  exact ⟨u ++ v, List.append_ne_nil_of_left_ne_nil hu v, inputEnd_not_mem happend, happend⟩

/-- A match of a phrase that does not derive the empty list has read a token. -/
theorem Justified.advances (h : Justified limit p m .matched m') (hnull : p.nullable = false) :
    m.Advances m' := by
  cases h with
  | matched hread _ hderives =>
    apply hread.advances
    rintro rfl
    rw [hderives.nullable] at hnull
    cases hnull

/-! ## From frame to frame -/

namespace Frame

/-- On the way from the one frame to the other a token has been read, or none has been read and the
phrase is lower in the grammar. -/
def Descends (f g : Frame) : Prop :=
  f.matcher.Advances g.matcher ∨
    g.matcher.unread = f.matcher.unread ∧ g.phrase.height < f.phrase.height

theorem Descends.trans (hfg : f.Descends g) (hgh : g.Descends h) : f.Descends h := by
  rcases hfg with hfg | ⟨hfg, hlower⟩
  · rcases hgh with hgh | ⟨hgh, -⟩
    · exact .inl (hfg.trans hgh)
    · exact .inl (hfg.congr hgh)
  · rcases hgh with hgh | ⟨hgh, hlower'⟩
    · left
      unfold Advances at hgh ⊢
      rwa [hfg] at hgh
    · exact .inr ⟨hgh.trans hfg, Nat.lt_trans hlower' hlower⟩

/-- From a frame to one that is next within it. -/
theorem Child.descends (hf : f.Sound limit) (hg : f.Child limit fuel g) : f.Descends g := by
  cases hg with
  | @body r hphrase =>
    right
    refine ⟨rfl, ?_⟩
    rw [hphrase, r.height_phrase]
    exact Nat.lt_succ_self _
  | inside hphrase hfull =>
    right
    refine ⟨rfl, ?_⟩
    rw [hphrase, Phrase.height_bracketed]
    exact Nat.lt_succ_self _
  | first hlead => exact .inr ⟨rfl, Phrase.height_lt_of_lead hlead⟩
  | @later q p o m hlead hrun hsequel =>
    have hjust := justified_of_run (Phrase.predictive_of_lead hf.predictive hlead) hf.hasRoom hrun
    rcases Phrase.height_lt_of_sequel hf.predictive hlead hsequel with hlower | ⟨rfl, hnull⟩
    · obtain ⟨w, hread⟩ := hjust.exists_reads
      cases w with
      | nil => exact .inr ⟨hread.unread.symm, hlower⟩
      | cons t w => exact .inl (hread.advances (List.cons_ne_nil t w))
    · exact .inl (hjust.advances hnull)

/-- From a frame to any that lies within it. -/
theorem Sound.descends (hf : f.Sound limit) (hg : g ∈ (trace limit fuel f).tail) :
    f.Descends g := by
  cases fuel with
  | zero => cases hg
  | succ fuel =>
    obtain ⟨child, hchild, hg⟩ := List.mem_flatMap.1 hg
    have hchild := child_of_mem_children hchild
    have hstep : ∀ fuel h h', h.Sound limit ∧ f.Descends h → h.Child limit fuel h' →
        h'.Sound limit ∧ f.Descends h' := fun _ _ _ hh hh' =>
      ⟨hh.1.child hh', hh.2.trans (hh'.descends hh.1)⟩
    exact (forall_mem_trace hstep ⟨hf.child hchild, hchild.descends hf⟩ g hg).2

/-- The rule is entered with the frame. -/
def Enters (r : Rule) (f : Frame) : Prop :=
  f.within = r ∧ f.phrase = r.phrase

/-- A rule that is entered within itself has read a token before. -/
theorem Sound.advances_of_enters {r : Rule} (hf : f.Sound limit) (hfr : f.Enters r)
    (hg : g ∈ (trace limit fuel f).tail) (hgr : g.Enters r) : f.matcher.Advances g.matcher := by
  rcases hf.descends hg with hadvances | ⟨-, hlower⟩
  · exact hadvances
  · rw [hfr.2, hgr.2] at hlower
    exact absurd hlower (Nat.lt_irrefl _)

end Frame

/-! ## Matching ends -/

/-- A run starts with the frame in which the rule is entered. -/
theorem mem_traceOf_self (limit : Option Nat) (m : Matcher) (rule : Rule) :
    ⟨rule, rule.phrase, m, 0⟩ ∈ traceOf limit m rule := by
  have hpos : 0 < m.fuel := Nat.mul_pos (Nat.succ_pos _) (Nat.succ_pos _)
  obtain ⟨fuel, hfuel⟩ := Nat.exists_eq_add_of_lt hpos
  rw [traceOf, hfuel]
  exact List.mem_cons_self

/-- The fuel that is enough is linear in the number of unread tokens. -/
theorem run_eq_attempt_of_length_le (rule : Rule) (hroom : m.HasRoom (some nestingLimit) 0)
    (hfuel : 100 * m.unread.length ≤ fuel) :
    run (some nestingLimit) fuel rule rule.phrase m = some (m.attempt rule) := by
  have hheight := rule.height_le
  have hends : (run (some nestingLimit) fuel rule rule.phrase m).isSome :=
    run_isSome rule.predictive_phrase rule.shallow_phrase hroom (by omega)
  obtain ⟨⟨outcome, m'⟩, hrun⟩ := Option.isSome_iff_exists.1 hends
  obtain ⟨rfl, rfl⟩ := Ends.unique (ends_attempt rule hroom) ⟨fuel, hrun⟩
  exact hrun

/-- After any calls matching a rule ends, and a bound on recursion that is linear in the number of
unread tokens is never reached. No rule is matched without reading a token. All along the run, each
round of a loop that is followed by another reads a token, and so does each rule before it is
entered within itself. The token is never the end of the input. -/
theorem matching_ends (hm : m.Reachable) (rule : Rule) :
    (∀ fuel, 100 * m.unread.length ≤ fuel →
      run (some nestingLimit) fuel rule rule.phrase m = some (m.attempt rule)) ∧
    ((m.attempt rule).1 = .matched → m.Advances (m.attempt rule).2) ∧
    ∀ f ∈ traceOf (some nestingLimit) m rule,
      (∀ r m', f.Enters r → Ends (some nestingLimit) r r.phrase f.matcher .matched m' →
        f.matcher.Advances m') ∧
      (∀ p m', f.phrase = .repeated p → Ends (some nestingLimit) f.within p f.matcher .matched m' →
        f.matcher.Advances m') ∧
      ∀ r fuel g, f.Enters r → g ∈ (trace (some nestingLimit) fuel f).tail → g.Enters r →
        f.matcher.Advances g.matcher := by
  have hroom : m.HasRoom (some nestingLimit) 0 := hm.hasRoom_iff.2 (Nat.zero_le _)
  refine ⟨fun fuel => run_eq_attempt_of_length_le rule hroom, ?_, ?_⟩
  · intro hmatched
    have hjust := hm.justified rule
    rw [hmatched] at hjust
    exact hjust.advances rfl
  · intro f hf
    have hsound := (Frame.Sound.start hm.depth_eq_zero hroom rule).of_mem_trace hf
    refine ⟨?_, ?_, ?_⟩
    · intro r m' _ hends
      exact (hends.justified r.predictive_phrase hsound.hasRoom).advances r.nullable_phrase
    · intro p m' hphrase hends
      have hpred := hsound.predictive
      rw [hphrase] at hpred
      obtain ⟨hp, hsoft, -⟩ := Phrase.predictive_repeated.1 hpred
      exact (hends.justified hp hsound.hasRoom).advances (Phrase.nullable_eq_false_of_soft hp hsoft)
    · intro r fuel g hfr hg hgr
      exact hsound.advances_of_enters hfr hg hgr

/-- Two parentheses are opened behind a name, and then the source is at its end. Three tokens are
unread, so 300 nested steps are enough to find that out. Where the expression is entered for the
second time, the first parenthesis has been read. -/
theorem matching_ends_in_open_parentheses :
    let m := (ofSource "x ((").after [.reader .read]
    let f : Frame := ⟨.expression, Rule.expression.phrase, m, 0⟩
    m.Reachable ∧ m.unread.length = 3 ∧
      run (some nestingLimit) 300 .expression Rule.expression.phrase m =
        some (m.attempt .expression) ∧
      (m.attempt .expression).1 = .fault ⟨.operand, .expression, ⟨1, .inputEnd⟩⟩ ∧
      ∃ g ∈ (trace (some nestingLimit) 300 f).tail, g.Enters .expression ∧
        g.matcher.unread.length = 2 ∧ m.Advances g.matcher := by
  intro m f
  have hm : m.Reachable := ⟨_, _, rfl⟩
  have hlength : m.unread.length = 3 := by decide +kernel
  obtain ⟨hends, -, hframes⟩ := matching_ends hm .expression
  refine ⟨hm, hlength, hends 300 (by omega), by decide +kernel, ?_⟩
  have hf : f ∈ traceOf (some nestingLimit) m .expression := mem_traceOf_self _ m _
  have hfound : ∃ g ∈ (trace (some nestingLimit) 300 f).tail,
      (g.within = .expression ∧ g.phrase = Rule.expression.phrase) ∧
        g.matcher.unread.length = 2 := by decide +kernel
  obtain ⟨g, hg, hagain, hleft⟩ := hfound
  obtain ⟨-, -, hcycles⟩ := hframes f hf
  exact ⟨g, hg, hagain, hleft, hcycles .expression 300 g ⟨rfl, rfl⟩ hg hagain⟩

end Matcher

end BugsLang
