import Almanac.Text.Utf8

/-! The bytes of a text are cut into its characters again, with no stray byte among them. -/

namespace Almanac.Text.Utf8

/-- A character is found at the head of its bytes, whatever follows them. -/
theorem first?_utf8EncodeChar_append (c : Char) (rest : List UInt8)
    : first? (String.utf8EncodeChar c ++ rest) = some c := by
  have short : (String.utf8EncodeChar c).length ≤ 4 := by
    rw [String.length_utf8EncodeChar]
    exact c.utf8Size_le_four
  rw [first?, List.take_append, List.take_of_length_le short, List.toByteArray_append]
  exact ByteArray.utf8DecodeChar?_utf8EncodeChar_append

/-- The bytes to be skipped are passed over. -/
theorem symbolsFrom_append (skipped rest : List UInt8)
    : symbolsFrom skipped.length (skipped ++ rest) = symbolsFrom 0 rest := by
  induction skipped with
  | nil => rfl
  | cons b skipped ih => simpa [symbolsFrom] using ih

theorem symbols_utf8EncodeChar_append (c : Char) (rest : List UInt8)
    : symbols (String.utf8EncodeChar c ++ rest) = .char c :: symbols rest := by
  have first := first?_utf8EncodeChar_append c rest
  have size := String.length_utf8EncodeChar c
  cases bytes : String.utf8EncodeChar c with
  | nil => exact absurd bytes String.utf8EncodeChar_ne_nil
  | cons b tail =>
      rw [bytes] at first size
      have skip : c.utf8Size - 1 = tail.length := by simp [← size]
      rw [symbols, List.cons_append, symbolsFrom]
      simp only [List.cons_append] at first
      simp [first, skip, symbolsFrom_append, symbols]

@[simp]
theorem symbols_encode (s : List Char) : symbols (encode s) = s.map .char := by
  induction s with
  | nil => rfl
  | cons c s ih =>
      rw [encode, List.flatMap_cons, symbols_utf8EncodeChar_append, ← encode, ih, List.map_cons]

end Almanac.Text.Utf8
