import Almanac.Event.Document
import Almanac.Proofs.Json.Document
import Almanac.Proofs.Json.Members
import Almanac.Proofs.Time.Timestamp
import Almanac.Proofs.Time.Truncation
import Almanac.Proofs.Uuid
import Mathlib.Data.List.Nodup

/-! The parts of records are read back: fields by their names, and in them texts, identifiers,
instants and spans.
-/

namespace Almanac.Json

open Time

-------------------------------------------------------------------------------
-- Records
-------------------------------------------------------------------------------

/-- A record whose names differ gives its members for fields, whichever names are asked for. -/
theorem fields?_record {members : List (String × Json)} (nodup : (members.map Prod.fst).Nodup)
    (names : List String)
    : (record members).fields? names = some members := by
  refine fields?_object_eq_some_iff.mpr ⟨rfl, fun name _ => ?_⟩
  have apart : ((members.map asMember).map Prod.fst).Nodup := by
    simpa [Function.comp_def, asMember] using List.Nodup.map (Option.some_injective String) nodup
  rw [length_given]
  exact List.nodup_iff_count.mp apart (some name)

theorem plain_record {members : List (String × Json)}
    (plain : ∀ member ∈ members, Plain member.2)
    : Plain (record members) := by
  induction members with
  | nil => trivial
  | cons member members ih =>
      obtain ⟨first, others⟩ := List.forall_mem_cons.mp plain
      exact ⟨rfl, first, ih others⟩

section Lookup

variable {α : Type} (fields : List (String × Json)) (name other : String) (v : Json)

theorem lookup_cons_eq_if
    : ((other, v) :: fields).lookup name = if name = other then some v else fields.lookup name := by
  rw [List.lookup_cons]
  by_cases same : name = other
  · rw [if_pos same, beq_iff_eq.mpr same]
  · rw [if_neg same, beq_eq_false_iff_ne.mpr same]

theorem required?_cons (read : Json → Option α)
    : required? ((other, v) :: fields) name read
        = if name = other then read v else required? fields name read := by
  by_cases same : name = other <;> simp [required?, lookup_cons_eq_if, same]

theorem defaulted?_cons (default : α) (read : Json → Option α)
    : defaulted? ((other, v) :: fields) name default read
        = if name = other then read v else defaulted? fields name default read := by
  by_cases same : name = other <;> simp [defaulted?, lookup_cons_eq_if, same]

end Lookup

-------------------------------------------------------------------------------
-- Fields
-------------------------------------------------------------------------------

@[simp]
theorem plain_text (s : String) : Plain (text s) := rfl

@[simp]
theorem plain_ofUuid (u : Uuid) : Plain (ofUuid u) := rfl

@[simp]
theorem plain_ofInstant (t : Instant) : Plain (ofInstant t) := rfl

@[simp]
theorem plain_int (n : Int) : Plain (int n) :=
  isNumeral_iff.mpr (numeral_toString_int n)

@[simp]
theorem text?_text (s : String) : (text s).text? = some s := by
  simp [text, text?]

@[simp]
theorem uuid?_ofUuid (u : Uuid) : (ofUuid u).uuid? = some u := by
  simp [uuid?, ofUuid]

/-- An instant is read back as clocks show it. -/
@[simp]
theorem instant?_ofInstant (t : Instant) : (ofInstant t).instant? = some t.shown := by
  simp [instant?, ofInstant, Instant.ofTimestamp?_timestamp]

/-- A word is read back from its sign and its digits, the least one too. -/
theorem word?_int {n : Int} (fits : Span.fitsWord n) : (int n).word? = some n := by
  simp only [int, word?, Text.toList_toString_int]
  by_cases positive : 0 ≤ n
  · rw [if_pos positive]
    split
    case h_1 digits same =>
        have mem : '-' ∈ Nat.toDigits 10 n.natAbs := same ▸ List.mem_cons_self
        exact absurd (Nat.isDigit_of_mem_toDigits (by omega) (by omega) mem) (by decide)
    case h_2 =>
        have size : (n.natAbs : Int) = n := by omega
        simp [size, fits]
  · rw [if_neg positive]
    have size : -(n.natAbs : Int) = n := by omega
    have some_unit : 0 < n.natAbs := by omega
    simp only [Text.natOfDigits?_toDigits, Option.filter, some_unit, decide_true, if_true,
      Option.bind_some, size, fits]

/-- A span is read back from its whole microseconds, when a word holds them. -/
theorem span?_int_wholeMicros {s : Span} (fits : Span.fitsWord s.wholeMicros)
    : (int s.wholeMicros).span? = some s.truncate := by
  simp [span?, word?_int fits, Span.truncate, Span.micros?, fits, Span.ofMicros?, Span.ofNanos?,
    s.wholeMicros_bounds]

@[simp]
theorem plain_optional_instant (mark : Option Instant)
    : Plain ((mark.map ofInstant).getD .null) := by
  cases mark with
  | none => trivial
  | some t => exact plain_ofInstant t

/-- A mark that may be missing is read back as clocks show it. -/
theorem optional?_instant? (mark : Option Instant)
    : optional? instant? ((mark.map ofInstant).getD .null) = some (mark.map Instant.shown) := by
  cases mark with
  | none => rfl
  | some t =>
      have read := instant?_ofInstant t
      simp only [ofInstant, text] at read
      simp [ofInstant, text, optional?, read]

end Almanac.Json
