/-!
# Numerals

A numeral is a sequence of decimal digits, possibly followed by a point and further digits. It is
kept as written, with its leading and trailing zeros; `Numeral.value` is the number it denotes.
-/

namespace BugsLang

/-- A numeral as written. -/
structure Numeral where
  /-- The digits before the point. -/
  whole : List Char
  /-- The digits after the point, or `none` where there is no point. -/
  fraction : Option (List Char)
deriving DecidableEq, Repr

namespace Numeral

/-- The digits after the point, none where there is no point. -/
def fractionDigits (n : Numeral) : List Char :=
  n.fraction.getD []

/-- The characters of the numeral. -/
def text (n : Numeral) : List Char :=
  match n.fraction with
  | none => n.whole
  | some digits => n.whole ++ '.' :: digits

/-- The longest numeral at the start of the text, for a text that starts with a digit. -/
def ofStart (s : List Char) : Numeral :=
  match s.dropWhile Char.isDigit with
  | '.' :: rest => ⟨s.takeWhile Char.isDigit, some (rest.takeWhile Char.isDigit)⟩
  | _ => ⟨s.takeWhile Char.isDigit, none⟩

/-- The number that the numeral denotes, exactly. -/
def value (n : Numeral) : Rat :=
  (Nat.ofDigitChars 10 (n.whole ++ n.fractionDigits) 0 : Nat) / 10 ^ n.fractionDigits.length

@[simp] theorem fractionDigits_none {whole : List Char} :
    (⟨whole, none⟩ : Numeral).fractionDigits = [] := rfl

@[simp] theorem fractionDigits_some {whole digits : List Char} :
    (⟨whole, some digits⟩ : Numeral).fractionDigits = digits := rfl

@[simp] theorem text_none {whole : List Char} : (⟨whole, none⟩ : Numeral).text = whole := rfl

@[simp] theorem text_some {whole digits : List Char} :
    (⟨whole, some digits⟩ : Numeral).text = whole ++ '.' :: digits := rfl

theorem text_ofStart_ne_nil {c : Char} {rest : List Char} (h : c.isDigit = true) :
    (ofStart (c :: rest)).text ≠ [] := by
  simp only [ofStart]
  split <;> simp [h]

end Numeral

end BugsLang
