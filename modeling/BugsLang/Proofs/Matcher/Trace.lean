import BugsLang.Proofs.Matcher.Compound
import BugsLang.Proofs.Matcher.Fuel

/-!
# The calls of a run

A run matches a phrase by matching others within it. `trace` lists all of these, from the first to
the last, each with the number of brackets that are being matched around it. This number is counted
along the calls, and the run has no part in it. So it can be compared with the depth that the
matcher keeps, also in a run without a limit.

## Main definitions

* `Matcher.Frame`: a phrase that is matched in a run.
* `Matcher.Frame.openBrackets`: how many brackets are open once the phrase is entered.
* `Matcher.Frame.children`, `Matcher.Frame.Child`: the frames next within a frame.
* `Matcher.trace`: the frames of a run in their order.

## Main statements

* `forall_mem_trace`: what every frame hands on to those within it holds of the whole run.
* `Frame.Sound.of_mem_trace`: all along a run the depth that the matcher keeps is the number of open
  brackets, and it stays within the limit.
-/

namespace BugsLang

/-- Whether the phrase is a limited bracket. -/
def Phrase.isBracketed : Phrase → Bool
  | bracketed _ => true
  | token _ | rule _ | seq _ _ | choice _ _ | optional _ | repeated _ | required _ _ => false

theorem Phrase.isBracketed_of_lead {p q : Phrase} (hlead : p.lead = some q) :
    p.isBracketed = false := by
  cases p with
  | bracketed => cases hlead
  | _ => rfl

namespace Matcher

/-- A phrase that is matched in the course of a run. -/
structure Frame where
  /-- The rule that the phrase stands within. -/
  within : Rule
  /-- The phrase. -/
  phrase : Phrase
  /-- The matcher that starts on the phrase. -/
  matcher : Matcher
  /-- The number of limited brackets around the phrase that are being matched. -/
  enclosing : Nat
deriving DecidableEq, Repr

namespace Frame

/-- The number of limited brackets that are being matched once the phrase is entered. If it is one
of them, it counts too. -/
def openBrackets (f : Frame) : Nat :=
  f.enclosing + if f.phrase.isBracketed then 1 else 0

/-- What a compound phrase goes on with when its first part has been tried, if it goes on with
another phrase. -/
def later (limit : Option Nat) (fuel : Nat) (f : Frame) (lead : Phrase) : List Frame :=
  match run limit fuel f.within lead f.matcher with
  | none => []
  | some (o, m) =>
    match f.phrase.sequel o with
    | .phrase q => [{ f with phrase := q, matcher := m }]
    | .outcome _ | .refusal _ => []

/-- The phrases that are matched next within the phrase, from the first to the last. -/
def children (limit : Option Nat) (fuel : Nat) (f : Frame) : List Frame :=
  match f.phrase with
  | .token _ => []
  | .rule r => [{ f with within := r, phrase := r.phrase }]
  | .bracketed p =>
    if f.matcher.isFull limit then []
    else
      [{ f with
        phrase := p
        matcher := { f.matcher with depth := f.matcher.depth + 1 }
        enclosing := f.enclosing + 1 }]
  | .seq p _ | .choice p _ | .optional p | .repeated p | .required p _ =>
    { f with phrase := p } :: f.later limit fuel p

end Frame

/-- The frames of a run that starts with the frame, in the order in which they are entered. -/
def trace (limit : Option Nat) : (fuel : Nat) → Frame → List Frame
  | 0, _ => []
  | fuel + 1, f => f :: (f.children limit fuel).flatMap (trace limit fuel)

/-- The frames of matching a rule. -/
def traceOf (limit : Option Nat) (m : Matcher) (rule : Rule) : List Frame :=
  trace limit m.fuel ⟨rule, rule.phrase, m, 0⟩

variable {limit : Option Nat} {fuel : Nat} {f g : Frame} {q : Phrase} {m : Matcher}

/-- The first part of a compound phrase comes first, and then what the phrase goes on with. -/
theorem Frame.children_of_lead (hlead : f.phrase.lead = some q) :
    f.children limit fuel = { f with phrase := q } :: f.later limit fuel q := by
  unfold children
  split <;> simp_all [Phrase.lead]

/-- The ways in which a frame comes to be next within another. -/
inductive Frame.Child (limit : Option Nat) (fuel : Nat) (f : Frame) : Frame → Prop where
  /-- A rule is matched by what it consists of. -/
  | body {r : Rule} (hphrase : f.phrase = .rule r) :
      Child limit fuel f { f with within := r, phrase := r.phrase }
  /-- A bracket is entered. -/
  | inside {p : Phrase} (hphrase : f.phrase = .bracketed p)
      (hfull : ¬ f.matcher.isFull limit = true) :
      Child limit fuel f
        ⟨f.within, p, { f.matcher with depth := f.matcher.depth + 1 }, f.enclosing + 1⟩
  /-- The first part of a compound phrase is tried. -/
  | first {q : Phrase} (hlead : f.phrase.lead = some q) :
      Child limit fuel f { f with phrase := q }
  /-- A compound phrase goes on with another phrase. -/
  | later {q p : Phrase} {o : Outcome} {m : Matcher} (hlead : f.phrase.lead = some q)
      (hrun : run limit fuel f.within q f.matcher = some (o, m))
      (hsequel : f.phrase.sequel o = .phrase p) :
      Child limit fuel f { f with phrase := p, matcher := m }

theorem Frame.child_of_mem_children (hg : g ∈ f.children limit fuel) : f.Child limit fuel g := by
  cases hlead : f.phrase.lead with
  | some q =>
    rw [children_of_lead hlead] at hg
    rcases List.mem_cons.1 hg with rfl | hg
    · exact .first hlead
    · unfold later at hg
      split at hg
      · cases hg
      · rename_i o m hrun
        split at hg
        · rename_i p hsequel
          rw [List.mem_singleton.1 hg]
          exact .later hlead hrun hsequel
        · cases hg
        · cases hg
  | none =>
    unfold children at hg
    split at hg
    · cases hg
    · rename_i r hphrase
      rw [List.mem_singleton.1 hg]
      exact .body hphrase
    · rename_i p hphrase
      by_cases hfull : f.matcher.isFull limit = true
      · rw [if_pos hfull] at hg
        cases hg
      · rw [if_neg hfull] at hg
        rw [List.mem_singleton.1 hg]
        exact .inside hphrase hfull
    -- every other phrase has a first part
    all_goals simp_all [Phrase.lead]

/-- What holds of a frame, and is handed on from every frame to those within it, holds of the whole
run. -/
theorem forall_mem_trace {P : Frame → Prop}
    (hstep : ∀ fuel f g, P f → f.Child limit fuel g → P g) (hf : P f) :
    ∀ g ∈ trace limit fuel f, P g := by
  induction fuel generalizing f with
  | zero =>
    intro g hg
    cases hg
  | succ fuel ih =>
    intro g hg
    rcases List.mem_cons.1 hg with rfl | hg
    · exact hf
    · obtain ⟨child, hchild, hg⟩ := List.mem_flatMap.1 hg
      exact ih (hstep fuel f child hf (Frame.child_of_mem_children hchild)) g hg

/-! ## The depth along a run -/

/-- The depth that the matcher keeps is the number of brackets around the phrase, and the limit has
room for it. -/
structure Frame.Sound (limit : Option Nat) (f : Frame) : Prop where
  predictive : f.phrase.predictive = true
  depth : f.matcher.depth = f.enclosing
  hasRoom : f.matcher.HasRoom limit 0

namespace Frame.Sound

/-- Trying a part of a phrase keeps the depth. -/
theorem of_run {o : Outcome} {p : Phrase} (hf : f.Sound limit) (hq : q.predictive = true)
    (hrun : run limit fuel f.within q f.matcher = some (o, m)) (hp : p.predictive = true) :
    Sound limit { f with phrase := p, matcher := m } := by
  have hjust := justified_of_run hq hf.hasRoom hrun
  exact ⟨hp, hjust.depth_eq.trans hf.depth, hjust.hasRoom_iff.2 hf.hasRoom⟩

theorem child (hf : f.Sound limit) (hg : f.Child limit fuel g) : g.Sound limit := by
  cases hg with
  | body => exact ⟨Rule.predictive_phrase _, hf.depth, hf.hasRoom⟩
  | inside hphrase hfull =>
    have hpred := hf.predictive
    rw [hphrase] at hpred
    refine ⟨(Phrase.predictive_bracketed.1 hpred).1, congrArg (· + 1) hf.depth, ?_⟩
    exact hasRoom_deeper_iff.2 (hasRoom_one_of_not_isFull hfull)
  | first hlead => exact ⟨Phrase.predictive_of_lead hf.predictive hlead, hf.depth, hf.hasRoom⟩
  | later hlead hrun hsequel =>
    exact hf.of_run (Phrase.predictive_of_lead hf.predictive hlead) hrun
      (Phrase.predictive_of_sequel hf.predictive hsequel)

theorem of_mem_trace (hf : f.Sound limit) (hg : g ∈ trace limit fuel f) : g.Sound limit :=
  forall_mem_trace (fun _ _ _ => child) hf g hg

/-- Where no bracket is open a rule starts soundly. -/
theorem start (hdepth : m.depth = 0) (hroom : m.HasRoom limit 0) (rule : Rule) :
    Sound limit ⟨rule, rule.phrase, m, 0⟩ :=
  ⟨rule.predictive_phrase, hdepth, hroom⟩

end Frame.Sound

end Matcher

end BugsLang
