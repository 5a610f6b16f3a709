import Almanac.Proofs.Text.Digits
import Almanac.Uuid
import Mathlib.Algebra.Ring.Nat

/-! Identifiers are read back from their texts. -/

namespace Almanac

namespace Text

/-- Hexadecimal digits are no hyphens. -/
theorem hyphen_not_mem_hex (width n : Nat) : '-' ∉ hex width n := by
  induction width generalizing n with
  | zero => simp [hex]
  | succ width ih =>
      have last : hexDigit (n % 16) ≠ '-' := by
        have plain : ∀ digit < 16, hexDigit digit ≠ '-' := by decide
        exact plain _ (by omega)
      simp [hex, ih, last.symm]

end Text

namespace Uuid

theorem not_hyphen_of_not_mem {s : List Char} (plain : '-' ∉ s) (c : Char) (mem : c ∈ s)
    : decide (c = '-') = false := by
  rw [decide_eq_false_iff_not]
  rintro rfl
  exact plain mem

/-- Cutting at the hyphens finds groups of the given sizes, which hold the digits. -/
theorem splitOnP_hyphenate {sizes : List Nat} {digits : List Char} (some_size : sizes ≠ [])
    (length : digits.length = sizes.sum) (plain : '-' ∉ digits)
    : ((hyphenate sizes digits).splitOnP (· = '-')).map List.length = sizes
      ∧ ((hyphenate sizes digits).splitOnP (· = '-')).flatten = digits := by
  fun_induction hyphenate sizes digits with
  | case1 => exact absurd rfl some_size
  | case2 size digits =>
      have whole : digits.take size = digits := List.take_of_length_le (by simp [length])
      rw [whole, List.splitOnP_eq_singleton (not_hyphen_of_not_mem plain)]
      simp [length]
  | case3 size sizes digits more ih =>
      have front : '-' ∉ digits.take size := fun mem => plain (List.mem_of_mem_take mem)
      obtain ⟨sizes_eq, digits_eq⟩ :=
        ih more (by simp [length]) fun mem => plain (List.mem_of_mem_drop mem)
      rw [List.splitOnP_append_cons_of_forall_mem (not_hyphen_of_not_mem front) _ (by decide)]
      simp [sizes_eq, digits_eq, length]

theorem length_hyphenate {sizes : List Nat} {digits : List Char} (some_size : sizes ≠ [])
    (length : digits.length = sizes.sum)
    : (hyphenate sizes digits).length + 1 = sizes.sum + sizes.length := by
  fun_induction hyphenate sizes digits with
  | case1 => exact absurd rfl some_size
  | case2 size digits => simp_all
  | case3 size sizes digits more ih =>
      have rest := ih more (by simp [length])
      simp only [List.length_append, List.length_cons, List.length_take, List.sum_cons]
        at length ⊢
      omega

theorem ofHyphenated?_hyphenate (u : Uuid)
    : ofHyphenated? (hyphenate groups (Text.hex 32 u.bits.toNat)) = some u := by
  have length : (Text.hex 32 u.bits.toNat).length = groups.sum := Text.length_hex _ _
  have fits : u.bits.toNat < 16 ^ 32 := u.bits.isLt
  obtain ⟨sizes, digits⟩ :=
    splitOnP_hyphenate (by decide) length (Text.hyphen_not_mem_hex 32 u.bits.toNat)
  simp [ofHyphenated?, sizes, digits, ofPlain?, Text.length_hex, Text.natOfHex?_hex_of_lt fits]

@[simp]
theorem ofText?_text (u : Uuid) : ofText? u.text = some u := by
  have length : (Text.hex 32 u.bits.toNat).length = groups.sum := Text.length_hex _ _
  have size : (hyphenate groups (Text.hex 32 u.bits.toNat)).length = 36 := by
    simpa [groups] using length_hyphenate (by decide) length
  simp [ofText?, text, size, ofHyphenated?_hyphenate]

end Uuid

end Almanac
