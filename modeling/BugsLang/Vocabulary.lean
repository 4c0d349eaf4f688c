/-!
# Vocabulary

The words that have a meaning of their own: the reserved words, and the names of the colors on the
palette. A palette color is not reserved, so it can also name a variable or a bug.
-/

namespace BugsLang

/-- The reserved words. Case matters. -/
def reservedWords : List String :=
  ["Bug", "Allbugs", "move", "moveto", "turn", "turnto", "line", "loop", "exit", "if", "switch",
    "case", "do", "return", "var", "define", "using", "initially", "color"]

/-- The names of the colors on the palette. -/
def paletteColors : List String :=
  ["black", "blue", "cyan", "darkGray", "gray", "green", "lightGray", "magenta", "orange", "pink",
    "red", "white", "yellow"]

/-- Whether the word is reserved. -/
def isReserved (word : String) : Bool :=
  reservedWords.contains word

/-- Whether the word names a color of the palette. -/
def isPaletteColor (word : String) : Bool :=
  paletteColors.contains word

/-- No color of the palette is reserved. -/
theorem isReserved_eq_false_of_isPaletteColor {word : String} (h : isPaletteColor word = true) :
    isReserved word = false := by
  have hmem : word ∈ paletteColors := by simpa [isPaletteColor] using h
  have hall : ∀ w ∈ paletteColors, isReserved w = false := by decide
  exact hall word hmem

end BugsLang
