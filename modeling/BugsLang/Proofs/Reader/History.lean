import BugsLang.Reader.Call

/-!
# Histories of use of a reader

A reader is used by a sequence of calls. What every call keeps holds after any calls.

## Main definitions

* `Reader.replies`, `Reader.after`: the answers to a list of calls, and the reader after them.
* `Reader.Within Q r`: the reader only knows positions with the property.

## Main statements

* `Reader.Kept.after`, `Reader.kept_within`: what is kept by one call, or by one move.
-/

namespace BugsLang.Reader

/-- The answers to the calls, one after the other. -/
def replies (r : Reader) : List Call → List Reply
  | [] => []
  | call :: calls => (r.perform call).1 :: (r.perform call).2.replies calls

/-- The reader after the calls. -/
def after (r : Reader) : List Call → Reader
  | [] => r
  | call :: calls => (r.perform call).2.after calls

theorem after_append (r : Reader) (calls later : List Call) :
    r.after (calls ++ later) = (r.after calls).after later := by
  induction calls generalizing r with
  | nil => rfl
  | cons call calls ih => exact ih _

/-- Whether every call to a reader keeps the property. -/
def Kept (P : Reader → Prop) : Prop :=
  ∀ r call, P r → P (r.perform call).2

variable {P : Reader → Prop} {r : Reader}

theorem Kept.read (hkept : Kept P) (h : P r) : P r.read.2 :=
  hkept r .read h

theorem Kept.putBack (hkept : Kept P) (h : P r) : P r.putBack :=
  hkept r .putBack h

theorem Kept.after (hkept : Kept P) (h : P r) (calls : List Call) : P (r.after calls) := by
  induction calls generalizing r with
  | nil => exact h
  | cons call calls ih => exact ih (hkept r call h)

/-- Where the reader is, and where it would go back to, are positions with the property. -/
def Within (Q : Position → Prop) (r : Reader) : Prop :=
  Q r.here ∧ ∀ start ∈ r.mark, Q start

/-- A reader only ever passes over trivia and moves on past the token behind it. -/
theorem kept_within {Q : Position → Prop}
    (hmoves : ∀ p, Q p → Q p.passTrivia ∧ Q p.passTrivia.pastToken) : Kept (Within Q) := by
  intro r call h
  obtain ⟨hhere, hmark⟩ := h
  cases call with
  | read =>
    refine ⟨(hmoves _ hhere).2, ?_⟩
    intro start hstart
    rw [← Option.some.inj hstart]
    exact (hmoves _ hhere).1
  | putBack =>
    show Within Q r.putBack
    unfold putBack
    split
    · rename_i start hstart
      exact ⟨hmark start hstart, fun _ h => nomatch h⟩
    · exact ⟨hhere, hmark⟩
  | lineOfNext => exact ⟨(hmoves _ hhere).1, hmark⟩

end BugsLang.Reader
