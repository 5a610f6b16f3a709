import Almanac.Json.Reader
import Mathlib.Algebra.Group.Nat.Defs

/-! The ways to spell a string of a document.
A character stands for itself, or is escaped by a letter, by its code, or by the two halves of its
code. A string that has half a code on its own, or a stray byte, is well formed and no text.
-/

namespace Almanac.Json

open Text (Symbol)

-------------------------------------------------------------------------------
-- Spellings
-------------------------------------------------------------------------------

/-- The letters that escape a character, with the character. -/
def letters : List (Char × Char) :=
  [('"', '"'), ('\\', '\\'), ('/', '/'), ('b', '\x08'), ('f', '\x0c'), ('n', '\n'), ('r', '\x0d'),
    ('t', '\t')]

/-- Whether hexadecimal digits, in either case, write a code of sixteen bits. -/
def WritesUnit (digits : List Char) (unit : Nat) : Prop :=
  digits.length = 4 ∧ Text.natOfHex? digits 0 = some unit

/-- The ways to spell a piece of a string. -/
inductive Piece.Spelled : Piece → List Symbol → Prop where
  | plain {c : Char} (quote : c ≠ '"') (backslash : c ≠ '\\') (printable : 0x20 ≤ c.toNat)
    : Spelled (.char c) [.char c]
  | letter {e c : Char} (listed : (e, c) ∈ letters) : Spelled (.char c) [.char '\\', .char e]
  | unit {c : Char} {digits : List Char} (writes : WritesUnit digits c.toNat)
    : Spelled (.char c) (.char '\\' :: .char 'u' :: digits.map .char)
  | half {code : Nat} {digits : List Char} (writes : WritesUnit digits code)
    (surrogate : 0xD800 ≤ code ∧ code ≤ 0xDFFF)
    : Spelled (.half code) (.char '\\' :: .char 'u' :: digits.map .char)
  | stray (b : UInt8) : Spelled .stray [.stray b]

/-- The ways to spell pieces in a row. -/
inductive Spells : List Piece → List Symbol → Prop where
  | nil : Spells [] []
  | cons {p : Piece} {ps : List Piece} {front back : List Symbol} (first : p.Spelled front)
    (others : Spells ps back)
    : Spells (p :: ps) (front ++ back)

/-- The characters that pieces make. The high half of a code goes with the low half behind it. -/
inductive Forms : List Piece → List Char → Prop where
  | nil : Forms [] []
  | char {c : Char} {ps : List Piece} {s : List Char} (others : Forms ps s)
    : Forms (.char c :: ps) (c :: s)
  | pair {high low : Nat} {c : Char} {ps : List Piece} {s : List Char} (isHigh : high < 0xDC00)
    (isLow : 0xDC00 ≤ low) (code : c.toNat = 0x10000 + (high - 0xD800) * 0x400 + (low - 0xDC00))
    (others : Forms ps s)
    : Forms (.half high :: .half low :: ps) (c :: s)

/-- The ways to spell what stands between the quotes of a string. -/
inductive Content : Option String → List Symbol → Prop where
  | text {ps : List Piece} {body : List Symbol} {s : String} (spells : Spells ps body)
    (forms : Forms ps s.toList)
    : Content (some s) body
  | noText {ps : List Piece} {body : List Symbol} (spells : Spells ps body)
    (formless : ∀ s, ¬Forms ps s)
    : Content none body

-------------------------------------------------------------------------------
-- Pieces
-------------------------------------------------------------------------------

theorem escaped?_eq_some_iff {e c : Char} : escaped? e = some c ↔ (e, c) ∈ letters := by
  constructor
  · intro read
    unfold escaped? at read
    split at read <;> cases read <;> decide
  · intro listed
    simp only [letters, List.mem_cons, Prod.mk.injEq, List.not_mem_nil, or_false] at listed
    rcases listed with ⟨rfl, rfl⟩ | ⟨rfl, rfl⟩ | ⟨rfl, rfl⟩ | ⟨rfl, rfl⟩ | ⟨rfl, rfl⟩ | ⟨rfl, rfl⟩
      | ⟨rfl, rfl⟩ | ⟨rfl, rfl⟩ <;> rfl

theorem WritesUnit.exists_digits {digits : List Char} {code : Nat} (writes : WritesUnit digits code)
    : ∃ a b c d, digits = [a, b, c, d] ∧ Text.natOfHex? [a, b, c, d] 0 = some code := by
  obtain ⟨length, read⟩ := writes
  match digits, length with
  | [a, b, c, d], _ => exact ⟨a, b, c, d, rfl, read⟩

theorem pieces?_unit {digits : List Char} {code : Nat} (writes : WritesUnit digits code)
    (rest : List Symbol)
    : pieces? (.char '\\' :: .char 'u' :: (digits.map .char ++ rest))
        = (pieces? rest).map fun (ps, rest) => (.ofUnit code :: ps, rest) := by
  obtain ⟨a, b, c, d, rfl, read⟩ := writes.exists_digits
  simp [pieces?, read]

theorem toNat_ofNat {code : Nat} (valid : code.isValidChar) : (Char.ofNat code).toNat = code := by
  rw [Char.ofNat, dif_pos valid]
  rfl

theorem ofUnit_toNat (c : Char) : Piece.ofUnit c.toNat = .char c := by
  have valid : c.toNat < 0xD800 ∨ 0xDFFF < c.toNat ∧ c.toNat < 0x110000 := c.valid
  rw [Piece.ofUnit, if_neg (by omega), Char.ofNat_toNat]

/-- Each piece is read back from its spellings. -/
theorem pieces?_append {p : Piece} {front : List Symbol} (spelled : p.Spelled front)
    (rest : List Symbol)
    : pieces? (front ++ rest) = (pieces? rest).map fun (ps, rest) => (p :: ps, rest) := by
  cases spelled with
  | @plain c quote backslash printable =>
      have control : ¬c.toNat < 0x20 := by omega
      simp [pieces?, backslash, control]
  | @letter e c listed =>
      have read := escaped?_eq_some_iff.mpr listed
      have other : e ≠ 'u' := by
        rintro rfl
        cases read
      simp [pieces?, read, other]
  | @unit c digits writes =>
      rw [List.cons_append, List.cons_append, pieces?_unit writes, ofUnit_toNat]
  | @half code digits writes surrogate =>
      rw [List.cons_append, List.cons_append, pieces?_unit writes, Piece.ofUnit, if_pos surrogate]
  | stray b => simp [pieces?]

theorem pieces?_of_spells {ps : List Piece} {body : List Symbol} (spells : Spells ps body)
    (rest : List Symbol)
    : pieces? (body ++ .char '"' :: rest) = some (ps, rest) := by
  induction spells with
  | nil => rfl
  | cons first others ih => rw [List.append_assoc, pieces?_append first, ih, Option.map_some]

theorem hexValue?_lt {c : Char} {digit : Nat} (read : Text.hexValue? c = some digit)
    : digit < 16 := by
  unfold Text.hexValue? at read
  split at read
  case isTrue decimal =>
    have atMost : c.toNat ≤ 57 := (Char.isDigit_iff_toNat.mp decimal).2
    cases read
    omega
  case isFalse =>
    split at read
    case isTrue lower =>
      have atMost : c.toNat ≤ 102 := lower.2
      cases read
      omega
    case isFalse =>
      split at read
      case isTrue upper =>
        have atMost : c.toNat ≤ 70 := upper.2
        cases read
        omega
      case isFalse => cases read

theorem natOfHex?_lt {digits : List Char} {start n : Nat}
    (read : Text.natOfHex? digits start = some n)
    : n < 16 ^ digits.length * (start + 1) := by
  induction digits generalizing start with
  | nil =>
      cases read
      simp
  | cons c digits ih =>
      obtain ⟨digit, value, others⟩ := Option.bind_eq_some_iff.mp read
      have bound := hexValue?_lt value
      refine Nat.lt_of_lt_of_le (ih others) ?_
      rw [List.length_cons, Nat.pow_succ, Nat.mul_assoc]
      exact Nat.mul_le_mul_left _ (by omega)

theorem ofUnit_spelled {digits : List Char} {code : Nat} (writes : WritesUnit digits code)
    : (Piece.ofUnit code).Spelled (.char '\\' :: .char 'u' :: digits.map .char) := by
  unfold Piece.ofUnit
  split
  case isTrue surrogate => exact .half writes surrogate
  case isFalse ordinary =>
    have small : code < 0x10000 := by simpa [writes.1] using natOfHex?_lt writes.2
    have valid : code.isValidChar := by
      simp only [Nat.isValidChar]
      omega
    refine .unit ?_
    rwa [toNat_ofNat valid]

theorem exists_spells_cons {p : Piece} {front s rest : List Symbol} {ps : List Piece}
    (spelled : p.Spelled front)
    (read : ((pieces? s).map fun (ps, rest) => (p :: ps, rest)) = some (ps, rest))
    (others : ∀ {ps rest}, pieces? s = some (ps, rest) →
      ∃ body, Spells ps body ∧ s = body ++ .char '"' :: rest)
    : ∃ body, Spells ps body ∧ front ++ s = body ++ .char '"' :: rest := by
  obtain ⟨⟨ps, rest⟩, found, same⟩ := Option.map_eq_some_iff.mp read
  cases same
  obtain ⟨body, spells, rfl⟩ := others found
  exact ⟨front ++ body, .cons spelled spells, (List.append_assoc ..).symm⟩

/-- What is read as pieces spells them, by induction on the reader's own recursion. -/
theorem spells_of_pieces? {s rest : List Symbol} {ps : List Piece}
    (read : pieces? s = some (ps, rest))
    : ∃ body, Spells ps body ∧ s = body ++ .char '"' :: rest := by
  fun_induction pieces? s generalizing ps rest with
  | case1 => cases read
  | case2 b s ih => exact exists_spells_cons (.stray b) read ih
  | case3 s =>
      cases read
      exact ⟨[], .nil, rfl⟩
  | case4 a b c d s ih =>
      obtain ⟨code, written, read⟩ := Option.bind_eq_some_iff.mp read
      exact exists_spells_cons (ofUnit_spelled ⟨rfl, written⟩) read ih
  | case5 e s other ih =>
      obtain ⟨c, escaped, read⟩ := Option.bind_eq_some_iff.mp read
      exact exists_spells_cons (.letter (escaped?_eq_some_iff.mp escaped)) read ih
  | case6 => cases read
  | case7 c s quote _ _ plain ih =>
      rw [not_or, Nat.not_lt] at plain
      exact exists_spells_cons (.plain quote plain.1 plain.2) read ih

-------------------------------------------------------------------------------
-- Characters
-------------------------------------------------------------------------------

/-- A string that is spelled has no half of a code but halves of pairs. -/
theorem Spells.surrogate {ps : List Piece} {body : List Symbol} (spells : Spells ps body)
    {code : Nat} (mem : .half code ∈ ps)
    : 0xD800 ≤ code ∧ code ≤ 0xDFFF := by
  induction spells with
  | nil => cases mem
  | cons first others ih =>
      rcases List.mem_cons.mp mem with rfl | later
      · cases first with
        | half writes surrogate => exact surrogate
      · exact ih later

theorem joined?_of_forms {ps : List Piece} {s : List Char} (forms : Forms ps s)
    : joined? ps = some s := by
  induction forms with
  | nil => rfl
  | char others ih => simp [joined?, ih]
  | pair isHigh isLow code others ih =>
      simp [joined?, isHigh, isLow, ih, ← code, Char.ofNat_toNat]

/-- Pieces that are joined make the characters, when every half is one. -/
theorem forms_of_joined? {ps : List Piece} {s : List Char}
    (halves : ∀ code, .half code ∈ ps → 0xD800 ≤ code ∧ code ≤ 0xDFFF)
    (joined : joined? ps = some s)
    : Forms ps s := by
  fun_induction joined? ps generalizing s with
  | case1 =>
      cases joined
      exact .nil
  | case2 c ps ih =>
      obtain ⟨s, others, rfl⟩ := Option.map_eq_some_iff.mp joined
      exact .char (ih (fun code mem => halves code (.tail _ mem)) others)
  | case3 high low ps ordered ih =>
      obtain ⟨s, others, rfl⟩ := Option.map_eq_some_iff.mp joined
      have first := halves high List.mem_cons_self
      have second := halves low (.tail _ List.mem_cons_self)
      have valid : Nat.isValidChar (0x10000 + (high - 0xD800) * 0x400 + (low - 0xDC00)) := by
        simp only [Nat.isValidChar]
        omega
      refine .pair ordered.1 ordered.2 ?_
        (ih (fun code mem => halves code (.tail _ (.tail _ mem))) others)
      exact toNat_ofNat valid
  | case4 => cases joined
  | case5 => cases joined

/-- The content of a string is read from its spellings, and from nothing else. -/
theorem content?_eq_some_iff {s rest : List Symbol} {content : Option String}
    : content? s = some (content, rest)
      ↔ ∃ body, Content content body ∧ s = body ++ .char '"' :: rest := by
  constructor
  · intro read
    obtain ⟨⟨ps, rest⟩, pieces, same⟩ := Option.map_eq_some_iff.mp read
    cases same
    obtain ⟨body, spells, rfl⟩ := spells_of_pieces? pieces
    refine ⟨body, ?_, rfl⟩
    cases joined : joined? ps with
    | none =>
        refine .noText spells fun s forms => ?_
        rw [joined?_of_forms forms] at joined
        cases joined
    | some s =>
        refine .text spells ?_
        rw [String.toList_ofList]
        exact forms_of_joined? (fun _ => spells.surrogate) joined
  · rintro ⟨body, spelled, rfl⟩
    cases spelled with
    | text spells forms =>
        simp [content?, pieces?_of_spells spells, joined?_of_forms forms]
    | @noText ps _ spells formless =>
        have apart : joined? ps = none := Option.eq_none_iff_forall_ne_some.mpr fun s joined =>
          formless s (forms_of_joined? (fun _ => spells.surrogate) joined)
        simp [content?, pieces?_of_spells spells, apart]

end Almanac.Json
