import Almanac.Proofs.Order
import Almanac.Text.Utf8
import Mathlib.Algebra.Group.Nat.Defs
import Mathlib.Data.Char
import Mathlib.Tactic.SplitIfs

/-! The order of byte strings. Bytes of texts are in the order of their code points, and bytes of
identifiers in the order of their numbers.
-/

namespace Almanac

namespace Text

/-- Byte strings compare by the first byte that tells them apart; what ends first comes first. -/
def compareBytes : List UInt8 → List UInt8 → Ordering
  | [], [] => .eq
  | [], _ :: _ => .lt
  | _ :: _, [] => .gt
  | a :: as, b :: bs => (compare a.toNat b.toNat).then (compareBytes as bs)

theorem compareBytes_swap (as bs : List UInt8)
    : (compareBytes as bs).swap = compareBytes bs as := by
  induction as generalizing bs with
  | nil => cases bs <;> rfl
  | cons a as ih =>
      cases bs with
      | nil => rfl
      | cons b bs =>
          simp only [compareBytes, Ordering.swap_then, ih]
          rw [Nat.compare_swap]

/-- What both begin with does not matter. -/
theorem compareBytes_append (common as bs : List UInt8)
    : compareBytes (common ++ as) (common ++ bs) = compareBytes as bs := by
  induction common with
  | nil => rfl
  | cons c common ih => simp [compareBytes, ih]

theorem compareBytes_of_lt {a b : Nat} (less : a < b) (fits : b < 256) (as bs : List UInt8)
    : compareBytes (UInt8.ofNat a :: as) (UInt8.ofNat b :: bs) = .lt := by
  have first : (UInt8.ofNat a).toNat = a := by simpa using Nat.mod_eq_of_lt (Nat.lt_trans less fits)
  have second : (UInt8.ofNat b).toNat = b := by simpa using Nat.mod_eq_of_lt fits
  simp [compareBytes, first, second, Nat.compare_eq_lt.mpr less]

theorem compareBytes_of_eq {a b : Nat} (same : a = b) (as bs : List UInt8)
    : compareBytes (UInt8.ofNat a :: as) (UInt8.ofNat b :: bs) = compareBytes as bs := by
  simp [compareBytes, same]

def scalarBytes (v : Nat) : List UInt8 :=
  if v ≤ 0x7f then [.ofNat v]
  else if v ≤ 0x7ff then [.ofNat (v / 64 % 0x20 + 0xc0), .ofNat (v % 0x40 + 0x80)]
  else if v ≤ 0xffff then
    [.ofNat (v / 4096 % 0x10 + 0xe0), .ofNat (v / 64 % 0x40 + 0x80), .ofNat (v % 0x40 + 0x80)]
  else
    [.ofNat (v / 262144 % 0x08 + 0xf0), .ofNat (v / 4096 % 0x40 + 0x80),
      .ofNat (v / 64 % 0x40 + 0x80), .ofNat (v % 0x40 + 0x80)]

theorem utf8EncodeChar_eq (c : Char) : String.utf8EncodeChar c = scalarBytes c.val.toNat := rfl

/-- The bytes of a smaller code point come first, whatever follows. Longer ones begin with greater
bytes, and those of one length hold the digits of the code points. -/
theorem compareBytes_scalarBytes {v w : Nat} (less : v < w) (bounded : w < 0x110000)
    (as bs : List UInt8)
    : compareBytes (scalarBytes v ++ as) (scalarBytes w ++ bs) = .lt := by
  -- Encodings of different lengths differ in the lead byte already. The cases that are left have
  -- the same length.
  unfold scalarBytes
  split_ifs <;> simp only [List.cons_append, List.nil_append] <;> first
    | omega
    | exact compareBytes_of_lt (by omega) (by omega) _ _
    | skip
  · rcases (by omega : v / 64 < w / 64 ∨ v / 64 = w / 64 ∧ v % 64 < w % 64) with lead | ⟨same, last⟩
    · exact compareBytes_of_lt (by omega) (by omega) _ _
    · rw [compareBytes_of_eq (by omega)]
      exact compareBytes_of_lt (by omega) (by omega) _ _
  · rcases (by omega : v / 4096 < w / 4096 ∨ v / 4096 = w / 4096 ∧ v / 64 % 64 < w / 64 % 64
        ∨ v / 4096 = w / 4096 ∧ v / 64 % 64 = w / 64 % 64 ∧ v % 64 < w % 64)
      with lead | ⟨same, next⟩ | ⟨same, same', last⟩
    · exact compareBytes_of_lt (by omega) (by omega) _ _
    · rw [compareBytes_of_eq (by omega)]
      exact compareBytes_of_lt (by omega) (by omega) _ _
    · rw [compareBytes_of_eq (by omega), compareBytes_of_eq (by omega)]
      exact compareBytes_of_lt (by omega) (by omega) _ _
  · rcases (by omega : v / 262144 < w / 262144
        ∨ v / 262144 = w / 262144 ∧ v / 4096 % 64 < w / 4096 % 64
        ∨ v / 262144 = w / 262144 ∧ v / 4096 % 64 = w / 4096 % 64 ∧ v / 64 % 64 < w / 64 % 64
        ∨ v / 262144 = w / 262144 ∧ v / 4096 % 64 = w / 4096 % 64 ∧ v / 64 % 64 = w / 64 % 64
          ∧ v % 64 < w % 64)
      with lead | ⟨same, next⟩ | ⟨same, same', next⟩ | ⟨same, same', same'', last⟩
    · exact compareBytes_of_lt (by omega) (by omega) _ _
    · rw [compareBytes_of_eq (by omega)]
      exact compareBytes_of_lt (by omega) (by omega) _ _
    · rw [compareBytes_of_eq (by omega), compareBytes_of_eq (by omega)]
      exact compareBytes_of_lt (by omega) (by omega) _ _
    · rw [compareBytes_of_eq (by omega), compareBytes_of_eq (by omega),
        compareBytes_of_eq (by omega)]
      exact compareBytes_of_lt (by omega) (by omega) _ _

/-- The bytes of a smaller character come first. -/
theorem compareBytes_char_of_lt {c d : Char} (less : c < d) (as bs : List UInt8)
    : compareBytes (String.utf8EncodeChar c ++ as) (String.utf8EncodeChar d ++ bs) = .lt := by
  have bounded : d.val.toNat < 0x110000 := by
    have := d.valid
    simp only [UInt32.isValidChar, Nat.isValidChar] at this
    omega
  rw [utf8EncodeChar_eq, utf8EncodeChar_eq]
  exact compareBytes_scalarBytes less bounded as bs

theorem compareBytes_nil_encode (c : Char) (s : List Char)
    : compareBytes [] (Utf8.encode (c :: s)) = .lt := by
  cases bytes : Utf8.encode (c :: s) with
  | nil =>
      have empty : String.utf8EncodeChar c = [] := (List.append_eq_nil_iff.mp bytes).1
      exact absurd empty String.utf8EncodeChar_ne_nil
  | cons b bs => rfl

/-- Bytes of lists of characters are in the order of the lists, by induction on both. -/
theorem compareBytes_encode (s t : List Char)
    : compareBytes (Utf8.encode s) (Utf8.encode t) = compareOfLessAndEq s t := by
  induction s generalizing t with
  | nil =>
      cases t with
      | nil => rfl
      | cons d t =>
          rw [Utf8.encode, List.flatMap_nil, compareBytes_nil_encode]
          simp [compareOfLessAndEq]
  | cons c s ih =>
      cases t with
      | nil =>
          rw [← compareBytes_swap, Utf8.encode, List.flatMap_nil, compareBytes_nil_encode]
          simp [compareOfLessAndEq]
      | cons d t =>
          rcases lt_trichotomy c d with less | rfl | greater
          · have first := compareBytes_char_of_lt less (Utf8.encode s) (Utf8.encode t)
            have before : c :: s < d :: t := List.cons_lt_cons_iff.mpr (.inl less)
            simpa [Utf8.encode, compareOfLessAndEq, before] using first
          · have rest := compareBytes_append (String.utf8EncodeChar c) (Utf8.encode s)
              (Utf8.encode t)
            simp only [Utf8.encode, List.flatMap_cons] at rest ih ⊢
            rw [rest, ih]
            simp [compareOfLessAndEq]
          · have first := compareBytes_char_of_lt greater (Utf8.encode t) (Utf8.encode s)
            have notBefore : ¬c :: s < d :: t := by
              rw [List.cons_lt_cons_iff]
              rintro (less | ⟨rfl, -⟩)
              · exact lt_asymm less greater
              · exact lt_irrefl _ greater
            have differ : c ≠ d := ne_of_gt greater
            rw [← compareBytes_swap]
            simpa [Utf8.encode, compareOfLessAndEq, notBefore, differ] using first

/-- Texts compare by their bytes as they compare by their code points. -/
theorem compareBytes_text (s t : String)
    : compareBytes (Utf8.encode s.toList) (Utf8.encode t.toList) = compare s t := by
  rw [compareBytes_encode]
  have parts : compare s t = compareOfLessAndEq s t := rfl
  simp only [parts, compareOfLessAndEq, String.toList_inj]
  rfl

end Text

namespace Text

/-- The lowest bytes of a number, the highest of them first. -/
def bigEndian : (width : Nat) → Nat → List UInt8
  | 0, _ => []
  | width + 1, n => .ofNat (n / 256 ^ width % 256) :: bigEndian width n

/-- Of two numbers in the same base the higher digits decide, then the lowest one. -/
theorem compare_digits {base low low' : Nat} (high high' : Nat) (fits : low < base)
    (fits' : low' < base)
    : compare (base * high + low) (base * high' + low')
      = (compare high high').then (compare low low') := by
  rcases Nat.lt_trichotomy high high' with less | rfl | greater
  · have room : base * high + base ≤ base * high' := Nat.mul_le_mul_left base less
    rw [Nat.compare_eq_lt.mpr less, Nat.compare_eq_lt.mpr (by omega)]
    rfl
  · rcases Nat.lt_trichotomy low low' with less | rfl | greater
    · rw [Nat.compare_eq_lt.mpr less, Nat.compare_eq_lt.mpr (by omega)]
      simp
    · simp
    · rw [Nat.compare_eq_gt.mpr greater, Nat.compare_eq_gt.mpr (by omega)]
      simp
  · have room : base * high' + base ≤ base * high := Nat.mul_le_mul_left base greater
    rw [Nat.compare_eq_gt.mpr greater, Nat.compare_eq_gt.mpr (by omega)]
    rfl

/-- Bytes of numbers that they can hold are in the order of the numbers, by induction on how many
bytes there are. -/
theorem compareBytes_bigEndian (width a b : Nat)
    : compareBytes (bigEndian width a) (bigEndian width b)
      = compare (a % 256 ^ width) (b % 256 ^ width) := by
  induction width with
  | zero => simp [bigEndian, compareBytes, Nat.mod_one]
  | succ width ih =>
      have split (n : Nat)
          : n % 256 ^ (width + 1) = 256 ^ width * (n / 256 ^ width % 256) + n % 256 ^ width := by
        rw [Nat.pow_succ, Nat.mod_mul]
        omega
      have low (n : Nat) : n % 256 ^ width < 256 ^ width := Nat.mod_lt _ (Nat.pow_pos (by omega))
      have byte (n : Nat) : (UInt8.ofNat (n % 256)).toNat = n % 256 := by simp
      rw [split, split, compare_digits _ _ (low a) (low b), bigEndian, bigEndian, compareBytes,
        byte, byte, ih]

end Text

def Uuid.bytes (u : Uuid) : List UInt8 :=
  Text.bigEndian 16 u.bits.toNat

/-- Identifiers compare by their bytes as they compare as numbers. -/
theorem Uuid.compareBytes_bytes (a b : Uuid) : Text.compareBytes a.bytes b.bytes = compare a b := by
  rw [bytes, bytes, Text.compareBytes_bigEndian]
  rw [Nat.mod_eq_of_lt (show a.bits.toNat < 256 ^ 16 from a.bits.isLt),
    Nat.mod_eq_of_lt (show b.bits.toNat < 256 ^ 16 from b.bits.isLt)]
  rfl

end Almanac
