/-! Hexadecimal digits: written in lower case, read in either case. -/

namespace Almanac.Text

/-- The lower-case digit of a number below sixteen. -/
def hexDigit (n : Nat) : Char :=
  if n < 10 then .ofNat (48 + n) else .ofNat (87 + n)

def hexValue? (c : Char) : Option Nat :=
  if c.isDigit then some (c.toNat - 48)
  else if 'a' ≤ c ∧ c ≤ 'f' then some (c.toNat - 87)
  else if 'A' ≤ c ∧ c ≤ 'F' then some (c.toNat - 55)
  else none

/-- The last `width` hexadecimal digits of a number. -/
def hex : (width n : Nat) → List Char
  | 0, _ => []
  | width + 1, n => hex width (n / 16) ++ [hexDigit (n % 16)]

/-- The number that a run of hexadecimal digits writes, after the value `start` of the digits
before it. -/
def natOfHex? : (digits : List Char) → (start : Nat) → Option Nat
  | [], start => some start
  | c :: rest, start => (hexValue? c).bind fun digit => natOfHex? rest (16 * start + digit)

theorem length_hex (width n : Nat)
    : (hex width n).length = width := by
  induction width generalizing n with
  | zero => rfl
  | succ width ih => simp [hex, ih]

end Almanac.Text
