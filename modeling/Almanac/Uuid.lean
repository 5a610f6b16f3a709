import Almanac.Text.Hex

/-! Identifiers of 128 bits, their text, and the identifiers that a store issues.
Identifiers compare as numbers, which is the order of their bytes.
-/

namespace Almanac

/-- An identifier of 128 bits. -/
structure Uuid where
  bits : BitVec 128
  deriving DecidableEq, Repr

namespace Uuid

def nil : Uuid :=
  ⟨0⟩

instance : Inhabited Uuid :=
  ⟨nil⟩

instance : Ord Uuid :=
  ⟨fun a b => compare a.bits.toNat b.bits.toNat⟩

instance : LT Uuid :=
  ⟨fun a b => a.bits.toNat < b.bits.toNat⟩

instance (a b : Uuid) : Decidable (a < b) :=
  inferInstanceAs (Decidable (a.bits.toNat < b.bits.toNat))

/-- How many digits stand between the hyphens. -/
def groups : List Nat :=
  [8, 4, 4, 4, 12]

/-- Cuts digits into groups of the given sizes and joins them by hyphens. -/
def hyphenate : (sizes : List Nat) → List Char → List Char
  | [], _ => []
  | [size], digits => digits.take size
  | size :: sizes, digits => digits.take size ++ '-' :: hyphenate sizes (digits.drop size)

/-- The text of an identifier: lower-case digits in hyphenated groups. -/
def text (u : Uuid) : String :=
  .ofList (hyphenate groups (Text.hex 32 u.bits.toNat))

instance : ToString Uuid :=
  ⟨text⟩

/-- Reads thirty-two digits without hyphens. -/
def ofPlain? (s : List Char) : Option Uuid :=
  if s.length = 32 then (Text.natOfHex? s 0).map fun n => ⟨.ofNat 128 n⟩ else none

def ofHyphenated? (s : List Char) : Option Uuid :=
  let parts := s.splitOnP (· = '-')
  if parts.map List.length = groups then ofPlain? parts.flatten else none

/-- Reads an identifier: plain digits, hyphenated digits, hyphenated digits in braces, or
hyphenated digits as a uniform resource name. -/
def ofText? (s : String) : Option Uuid :=
  let chars := s.toList
  if chars.length = 32 then ofPlain? chars
  else if chars.length = 36 then ofHyphenated? chars
  else if chars.length = 38 ∧ chars.head? = some '\x7b' ∧ chars.getLast? = some '\x7d' then
    ofHyphenated? (chars.drop 1).dropLast
  else if chars.length = 45 ∧ (chars.take 9).map Char.toLower = "urn:uuid:".toList then
    ofHyphenated? (chars.drop 9)
  else
    none

/-- The identifier that a store issues after `count` others: a time-ordered identifier, version 7,
whose time field advances with every one. -/
def issued (count : Nat) : Uuid :=
  ⟨.ofNat 128 ((0x01935B1FA000 + count) * 0x100000000000000000000 + 0x7C3E9D4152F0A6B8E7C5)⟩

end Uuid

end Almanac
