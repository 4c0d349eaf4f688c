import BugsLang.Numeral.Basic
import BugsLang.Numeral.Shortest

/-!
# Canonical numerals

Numerals that denote one double have one canonical form: the shortest decimal that reads back as
that double, written positionally, with at least one digit on either side of the point. A numeral
too large for a double keeps its digits and only gains a fraction if it has none.
-/

namespace BugsLang

/-- The decimal in positional notation, with at least one digit on either side of the point. -/
def Decimal.toNumeral (d : Decimal) : Numeral :=
  let digits := Nat.toDigits 10 d.coefficient
  match d.exponent with
  | .ofNat zeros => ⟨digits ++ List.replicate zeros '0', some ['0']⟩
  | .negSucc places =>
    let padded := digits.leftpad (places + 2) '0'
    let point := padded.length - (places + 1)
    ⟨padded.take point, some (padded.drop point)⟩

/-- The canonical form of the numeral. -/
def Numeral.canonical (n : Numeral) : Numeral :=
  match nearestDouble? n.value with
  | some x => (Decimal.shortest x).toNumeral
  | none => ⟨n.whole, some (if n.fractionDigits.isEmpty then ['0'] else n.fractionDigits)⟩

end BugsLang
