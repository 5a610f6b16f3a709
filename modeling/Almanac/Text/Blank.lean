/-! Blank characters are those with the Unicode property White_Space.
Trimming and cutting a text into words use this one set throughout the library.
-/

namespace Almanac.Text

/-- The code points with the property White_Space, as inclusive ranges in increasing order. -/
def blankRanges : List (Nat × Nat) :=
  [(0x0009, 0x000D), (0x0020, 0x0020), (0x0085, 0x0085), (0x00A0, 0x00A0), (0x1680, 0x1680),
    (0x2000, 0x200A), (0x2028, 0x2029), (0x202F, 0x202F), (0x205F, 0x205F), (0x3000, 0x3000)]

/-- A character is blank when its code point lies in one of the blank ranges. -/
def isBlank (c : Char) : Bool :=
  blankRanges.any fun range => range.1 ≤ c.toNat && c.toNat ≤ range.2

/-- What follows the leading blanks. -/
def skipBlank (s : List Char) : List Char :=
  s.dropWhile isBlank

/-- A text without its leading and trailing blanks. -/
def trim (s : String) : String :=
  .ofList (skipBlank (skipBlank s.toList).reverse).reverse

/-- The maximal runs of characters that are not blank, in order. -/
def words (s : String) : List (List Char) :=
  (s.toList.splitOnP isBlank).filter (!·.isEmpty)

/-- Skipping leading blanks drops nothing from a text that starts with another character. -/
theorem skipBlank_cons_of_not_blank {c : Char} (s : List Char) (h : isBlank c = false)
    : skipBlank (c :: s) = c :: s := by
  simp [skipBlank, h]

end Almanac.Text
