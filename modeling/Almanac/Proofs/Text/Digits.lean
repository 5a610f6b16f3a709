import Almanac.Text.Hex
import Almanac.Text.Numeral
import Mathlib.Algebra.Group.Nat.Defs

/-! Digits that are written are read back: decimal ones with any padding, hexadecimal ones with any
width.
-/

namespace Almanac.Text

-------------------------------------------------------------------------------
-- Decimal digits
-------------------------------------------------------------------------------

/-- A numeral is read if it has digits and nothing else. -/
theorem natOfDigits?_eq_some_iff {digits : List Char} {n : Nat}
    : natOfDigits? digits = some n
      ↔ digits ≠ [] ∧ (∀ c ∈ digits, c.isDigit) ∧ Nat.ofDigitChars 10 digits 0 = n := by
  simp [natOfDigits?, and_assoc]

@[simp]
theorem natOfDigits?_toDigits (n : Nat) : natOfDigits? (Nat.toDigits 10 n) = some n :=
  natOfDigits?_eq_some_iff.mpr
    ⟨Nat.toDigits_ne_nil, fun _ h => Nat.isDigit_of_mem_toDigits (by omega) (by omega) h,
      Nat.ofDigitChars_ten_toDigits⟩

/-- A run of digits writes less than the power of ten that has one digit more, digit by digit. -/
theorem natOfDigits?_lt {digits : List Char} {n : Nat} (read : natOfDigits? digits = some n)
    : n < 10 ^ digits.length := by
  obtain ⟨-, all_digits, rfl⟩ := natOfDigits?_eq_some_iff.mp read
  clear read
  induction digits with
  | nil => decide
  | cons c rest ih =>
      obtain ⟨c_digit, rest_digits⟩ := List.forall_mem_cons.mp all_digits
      have range : c.toNat ≤ 57 := (Char.isDigit_iff_toNat.mp c_digit).2
      have digit : 10 * 0 + (c.toNat - '0'.toNat) ≤ 9 := by
        rw [show '0'.toNat = 48 from rfl]
        omega
      have first := Nat.mul_le_mul_left (10 ^ rest.length) digit
      have others := ih rest_digits
      rw [Nat.ofDigitChars_cons, Nat.ofDigitChars_eq_ofDigitChars_zero, List.length_cons,
        Nat.pow_succ]
      omega

/-- Only zero begins with a zero. -/
theorem head?_toDigits_ne_zero {n : Nat} (positive : 0 < n)
    : (Nat.toDigits 10 n).head? ≠ some '0' := by
  induction n using Nat.strongRecOn with
  | ind n ih =>
      rcases Nat.lt_or_ge n 10 with single | several
      · have plain : ∀ digit < 10, 0 < digit → Nat.digitChar digit ≠ '0' := by decide
        simpa [Nat.toDigits_of_lt_base single] using plain n single positive
      · have first := ih (n / 10) (by omega) (by omega)
        obtain ⟨c, tail, digits⟩ := List.exists_cons_of_ne_nil (Nat.toDigits_ne_nil (n := n / 10))
        rw [Nat.toDigits_of_base_le (by omega) several, digits]
        rwa [digits] at first

/-- A whole number is written with its sign, if any, and its digits. -/
theorem toList_toString_int (n : Int)
    : (toString n).toList
        = if 0 ≤ n then Nat.toDigits 10 n.natAbs else '-' :: Nat.toDigits 10 n.natAbs := by
  rw [Int.toString_eq_repr, Int.repr_eq_if]
  split
  case isTrue positive =>
      rw [Nat.toList_repr, (by omega : n.toNat = n.natAbs)]
  case isFalse negative =>
      rw [String.toList_append, Nat.toList_repr, (by omega : (-n).toNat = n.natAbs)]
      rfl

theorem isDigit_of_mem_padded {width n : Nat} {c : Char} (mem : c ∈ padded width n)
    : c.isDigit := by
  rcases List.mem_append.mp mem with zero | digit
  · rw [List.eq_of_mem_replicate zero]
    rfl
  · exact Nat.isDigit_of_mem_toDigits (by omega) (by omega) digit

theorem padded_ne_nil (width n : Nat) : padded width n ≠ [] := by
  simp [padded, Nat.toDigits_ne_nil]

@[simp]
theorem natOfDigits?_padded (width n : Nat) : natOfDigits? (padded width n) = some n := by
  refine natOfDigits?_eq_some_iff.mpr ⟨padded_ne_nil width n, fun _ => isDigit_of_mem_padded, ?_⟩
  simp [padded, Nat.ofDigitChars_append, Nat.ofDigitChars_replicate_zero]

/-- A number that fits in a width takes just that width. -/
theorem length_padded {width n : Nat} (positive : 0 < width) (fits : n < 10 ^ width)
    : (padded width n).length = width := by
  have short := (Nat.length_toDigits_le_iff (b := 10) (by omega) positive).mpr fits
  simp only [padded, List.length_append, List.length_replicate]
  omega

/-- Zeros behind a numeral multiply it. -/
theorem natOfDigits?_append_zeros {digits : List Char} {n : Nat}
    (read : natOfDigits? digits = some n) (zeros : Nat)
    : natOfDigits? (digits ++ List.replicate zeros '0') = some (10 ^ zeros * n) := by
  obtain ⟨some_digit, all_digits, value⟩ := natOfDigits?_eq_some_iff.mp read
  refine natOfDigits?_eq_some_iff.mpr ⟨by simp [some_digit], fun c mem => ?_, ?_⟩
  · rcases List.mem_append.mp mem with digit | zero
    · exact all_digits c digit
    · rw [List.eq_of_mem_replicate zero]
      rfl
  · rw [Nat.ofDigitChars_append, value, Nat.ofDigitChars_replicate_zero]

/-- A fraction of `width` digits counts as many nanoseconds as its number with nine digits. -/
theorem natOfDigits?_nine {width n : Nat} (positive : 0 < width) (narrow : width ≤ 9)
    (fits : n < 10 ^ width)
    : natOfDigits? ((padded width n ++ List.replicate 9 '0').take 9)
        = some (10 ^ (9 - width) * n) := by
  have length := length_padded positive fits
  have cut : (padded width n ++ List.replicate 9 '0').take 9
      = padded width n ++ List.replicate (9 - width) '0' := by
    rw [List.take_append, List.take_of_length_le (by omega), List.take_replicate, length]
    congr 2
    omega
  rw [cut]
  exact natOfDigits?_append_zeros (natOfDigits?_padded width n) _

-------------------------------------------------------------------------------
-- Hexadecimal digits
-------------------------------------------------------------------------------

theorem hexValue?_hexDigit {n : Nat} (fits : n < 16) : hexValue? (hexDigit n) = some n := by
  revert n
  decide

/-- Reading in two parts goes on from where the first one ended. -/
theorem natOfHex?_append (front back : List Char) (start : Nat)
    : natOfHex? (front ++ back) start = (natOfHex? front start).bind (natOfHex? back) := by
  induction front generalizing start with
  | nil => rfl
  | cons c front ih => simp [natOfHex?, ih, Option.bind_assoc]

/-- The last digits of a number give it up to the power of sixteen that they reach. -/
theorem natOfHex?_hex (width n start : Nat)
    : natOfHex? (hex width n) start = some (16 ^ width * start + n % 16 ^ width) := by
  induction width generalizing n with
  | zero => simp [hex, natOfHex?, Nat.mod_one]
  | succ width ih =>
      have last : hexValue? (hexDigit (n % 16)) = some (n % 16) := hexValue?_hexDigit (by omega)
      have split : n % 16 ^ (width + 1) = 16 * (n / 16 % 16 ^ width) + n % 16 := by
        rw [Nat.pow_succ, Nat.mul_comm, Nat.mod_mul]
        omega
      simp only [hex, natOfHex?_append, ih, natOfHex?, last, Option.bind_some, split]
      rw [Nat.pow_succ, Nat.mul_add, Nat.mul_comm (16 ^ width) 16, Nat.mul_assoc, Nat.add_assoc]

/-- A number that fits in a width of digits is read back from them. -/
theorem natOfHex?_hex_of_lt {width n : Nat} (fits : n < 16 ^ width)
    : natOfHex? (hex width n) 0 = some n := by
  rw [natOfHex?_hex, Nat.mod_eq_of_lt fits, Nat.mul_zero, Nat.zero_add]

end Almanac.Text
