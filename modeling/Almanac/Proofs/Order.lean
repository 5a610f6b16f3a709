import Almanac.Time.Instant
import Almanac.Uuid
import Mathlib.Order.Defs.LinearOrder

/-! Identifiers, instants and spans are linearly ordered, and truncation respects the order. -/

namespace Almanac

namespace Uuid

theorem toNat_injective {a b : Uuid} (same : a.bits.toNat = b.bits.toNat) : a = b := by
  cases a
  cases b
  exact congrArg Uuid.mk (BitVec.eq_of_toNat_eq same)

instance : LinearOrder Uuid where
  le a b := a.bits.toNat ≤ b.bits.toNat
  le_refl a := Nat.le_refl _
  le_trans a b c := Nat.le_trans
  lt_iff_le_not_ge a b := Nat.lt_iff_le_and_not_ge
  le_antisymm a b ab ba := toNat_injective (Nat.le_antisymm ab ba)
  le_total a b := Nat.le_total _ _
  toDecidableLE a b := inferInstanceAs (Decidable (a.bits.toNat ≤ b.bits.toNat))
  compare_eq_compareOfLessAndEq a b := by
    have same : a = b ↔ a.bits.toNat = b.bits.toNat := ⟨fun same => same ▸ rfl, toNat_injective⟩
    simp only [compareOfLessAndEq, same]
    rfl

end Uuid

namespace Time

namespace Instant

theorem ext_of_eq {a b : Instant} (second : a.second = b.second) (nano : a.nano = b.nano)
    : a = b := by
  cases a
  cases b
  simp_all

theorem lt_iff {a b : Instant}
    : a < b ↔ a.second < b.second ∨ (a.second = b.second ∧ a.nano < b.nano) :=
  Iff.rfl

/-- Instants are ordered by their seconds first, so a leap second lies before the second that
follows it. -/
theorem le_iff {a b : Instant}
    : a ≤ b ↔ a.second < b.second ∨ (a.second = b.second ∧ a.nano ≤ b.nano) := by
  have : a ≤ b ↔ ¬b < a := Iff.rfl
  rw [this, lt_iff]
  omega

instance : LinearOrder Instant where
  le_refl a := le_iff.mpr (by omega)
  le_trans a b c := by
    simp only [le_iff]
    omega
  lt_iff_le_not_ge a b := by
    simp only [le_iff, lt_iff]
    omega
  le_antisymm a b ab ba := by
    rw [le_iff] at ab ba
    exact ext_of_eq (by omega) (by omega)
  le_total a b := by
    simp only [le_iff]
    omega
  toDecidableLE := inferInstance
  compare_eq_compareOfLessAndEq a b := by
    have same : a = b ↔ a.second = b.second ∧ a.nano = b.nano :=
      ⟨fun same => same ▸ ⟨rfl, rfl⟩, fun same => ext_of_eq same.1 same.2⟩
    simp only [compareOfLessAndEq, same, lt_iff]
    have parts : compare a b
        = (compareOfLessAndEq a.second b.second).then (compareOfLessAndEq a.nano b.nano) := rfl
    rw [parts, compareOfLessAndEq, compareOfLessAndEq]
    rcases Int.lt_trichotomy a.second b.second with before | eq | after
    · simp [before]
    · simp [eq]
    · have notBefore : ¬a.second < b.second := by omega
      have differ : a.second ≠ b.second := by omega
      simp [notBefore, differ]

theorem truncate_le (a : Instant) : a.truncate ≤ a :=
  le_iff.mpr (.inr ⟨rfl, Nat.sub_le _ _⟩)

/-- Truncation keeps the order, though not a strict one. -/
theorem truncate_mono {a b : Instant} (le : a ≤ b) : a.truncate ≤ b.truncate := by
  rw [le_iff] at le ⊢
  simp only [truncate]
  omega

@[simp]
theorem truncate_truncate (a : Instant) : a.truncate.truncate = a.truncate := by
  refine ext_of_eq rfl ?_
  simp only [truncate]
  omega

end Instant

namespace Span

theorem nanos_injective {a b : Span} (same : a.nanos = b.nanos) : a = b := by
  cases a
  cases b
  simp_all

instance : LinearOrder Span where
  le a b := a.nanos ≤ b.nanos
  lt a b := a.nanos < b.nanos
  le_refl a := Int.le_refl _
  le_trans a b c := Int.le_trans
  lt_iff_le_not_ge a b := Int.lt_iff_le_and_not_ge
  le_antisymm a b ab ba := nanos_injective (Int.le_antisymm ab ba)
  le_total a b := Int.le_total _ _
  toDecidableLE a b := inferInstanceAs (Decidable (a.nanos ≤ b.nanos))
  toDecidableLT a b := inferInstanceAs (Decidable (a.nanos < b.nanos))
  compare_eq_compareOfLessAndEq a b := by
    have same : a = b ↔ a.nanos = b.nanos := ⟨fun same => same ▸ rfl, nanos_injective⟩
    simp only [compareOfLessAndEq, same]
    rfl

end Span

end Time

end Almanac
