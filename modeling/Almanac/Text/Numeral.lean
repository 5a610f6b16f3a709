/-! Decimal numerals: reading runs of ASCII digits, writing numbers with a least width, and
writing the fraction of a second with no more groups of three digits than it needs.
-/

namespace Almanac.Text

/-- The number that a nonempty run of decimal digits writes. -/
def natOfDigits? (digits : List Char) : Option Nat :=
  if !digits.isEmpty && digits.all Char.isDigit then
    some (Nat.ofDigitChars 10 digits 0)
  else
    none

/-- The number that a numeral with an optional plus sign writes, when it is at most `max`. -/
def natUpTo? (max : Nat) (s : String) : Option Nat :=
  let digits :=
    match s.toList with
    | '+' :: rest => rest
    | rest => rest
  (natOfDigits? digits).filter (· ≤ max)

/-- The decimal digits of a number, at least `width` of them. -/
def padded (width n : Nat) : List Char :=
  let digits := Nat.toDigits 10 n
  List.replicate (width - digits.length) '0' ++ digits

/-- A count of nanoseconds below one second, as a fraction: nothing for none, else the shortest of
three, six or nine digits that is exact. -/
def fraction (nanos : Nat) : List Char :=
  if nanos = 0 then []
  else if nanos % 1000000 = 0 then '.' :: padded 3 (nanos / 1000000)
  else if nanos % 1000 = 0 then '.' :: padded 6 (nanos / 1000)
  else '.' :: padded 9 nanos

/-- A fraction given by `width` digits, without its trailing zeros; nothing when all are zero. -/
def trimmedFraction (width n : Nat) : List Char :=
  if n = 0 then []
  else '.' :: ((padded width n).reverse.dropWhile (· = '0')).reverse

end Almanac.Text
