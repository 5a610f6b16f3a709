import Almanac.Json.Printer
import Almanac.Proofs.Json.Numeral
import Almanac.Proofs.Json.Spelling
import Almanac.Proofs.Text.Digits

/-! Strings and numbers of documents as they are written. A string is spelled piece by piece, as its
characters are escaped.
-/

namespace Almanac.Json

open Text (Symbol)

-------------------------------------------------------------------------------
-- Strings
-------------------------------------------------------------------------------

/-- Each character is spelled by its escape. -/
theorem escape_spelled (c : Char) : (Piece.char c).Spelled ((escape c).map .char) := by
  by_cases letter : c = '"' ∨ c = '\\' ∨ c = '\x08' ∨ c = '\x0c' ∨ c = '\n' ∨ c = '\x0d' ∨ c = '\t'
  · rcases letter with rfl | rfl | rfl | rfl | rfl | rfl | rfl <;> exact .letter (by decide)
  · simp only [not_or] at letter
    by_cases control : c.toNat < 0x20
    · have writes : WritesUnit (Text.hex 4 c.toNat) c.toNat :=
        ⟨Text.length_hex 4 c.toNat, Text.natOfHex?_hex_of_lt (by omega)⟩
      simpa [escape, letter, control] using Piece.Spelled.unit writes
    · simpa [escape, letter, control]
        using Piece.Spelled.plain letter.1 letter.2.1 (Nat.le_of_not_lt control)

theorem spells_flatMap_escape (s : List Char)
    : Spells (s.map .char) ((s.flatMap escape).map .char) := by
  induction s with
  | nil => exact .nil
  | cons c s ih =>
      rw [List.flatMap_cons, List.map_append]
      exact .cons (escape_spelled c) ih

theorem forms_map_char (s : List Char) : Forms (s.map .char) s := by
  induction s with
  | nil => exact .nil
  | cons c s ih => exact .char ih

/-- A text is spelled by the escapes of its characters. -/
theorem content_flatMap_escape (s : String)
    : Content (some s) ((s.toList.flatMap escape).map .char) :=
  .text (spells_flatMap_escape s.toList) (forms_map_char s.toList)

-------------------------------------------------------------------------------
-- Numbers
-------------------------------------------------------------------------------

theorem whole_toDigits (n : Nat) : Whole (Nat.toDigits 10 n) where
  digits := {
    nonempty := Nat.toDigits_ne_nil
    all := fun _ mem => Nat.isDigit_of_mem_toDigits (by omega) (by omega) mem }
  leading := by
    rcases Nat.eq_zero_or_pos n with rfl | positive
    · exact .inr rfl
    · exact .inl (Text.head?_toDigits_ne_zero positive)

/-- A whole number is written as a numeral. -/
theorem numeral_toString_int (n : Int) : Numeral (toString n).toList := by
  have unsigned : Unsigned (Nat.toDigits 10 n.natAbs) [] [] :=
    ⟨whole_toDigits n.natAbs, .absent, .absent⟩
  rw [Text.toList_toString_int]
  split
  case isTrue => simpa using Numeral.plain unsigned
  case isFalse => simpa using Numeral.negative unsigned

end Almanac.Json
