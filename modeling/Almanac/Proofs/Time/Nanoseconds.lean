import Almanac.Proofs.Order

/-! Instants as counts of nanoseconds.
A plain count has no place for leap seconds. Each instant therefore counts others on a timeline of
its own, which has the leap second that the instant lies in, if it lies in one, and no other. There,
moving the instant is adding, and fails just when the sum is past either end of the instants.
-/

namespace Almanac.Time.Instant

variable {t s origin moved : Instant} {nanos : Int}

-------------------------------------------------------------------------------
-- Counts
-------------------------------------------------------------------------------

/-- Whether an instant lies in a leap second. -/
def IsLeap (t : Instant) : Prop :=
  1000000000 ≤ t.nano

/-- The nanoseconds from the start of 1970 to an instant when no leap second counts. A leap second
is whole in the nanosecond before it. -/
def plainCount (t : Instant) : Int :=
  t.second * 1000000000 + min t.nano 999999999

/-- The nanoseconds from the start of 1970 to an instant, as an origin counts them: the leap second
that the origin lies in counts, and no other. -/
def count (origin t : Instant) : Int :=
  if 1000000000 ≤ origin.nano then
    if t.second < origin.second then t.plainCount
    else if t.second = origin.second then t.toNanos
    else t.plainCount + 1000000000
  else t.plainCount

theorem plainCount_of_not_isLeap (ordinary : ¬t.IsLeap) : t.plainCount = t.toNanos := by
  simp only [IsLeap] at ordinary
  simp only [plainCount, toNanos]
  omega

theorem count_self (t : Instant) : t.count t = t.toNanos := by
  unfold count
  split
  · simp
  · rename_i ordinary
    exact plainCount_of_not_isLeap ordinary

/-- Away from leap seconds a count is plain. -/
theorem count_of_not_isLeap (plain : ¬origin.IsLeap) (ordinary : ¬t.IsLeap)
    : origin.count t = t.toNanos := by
  unfold count
  rw [if_neg (by simpa [IsLeap] using plain), plainCount_of_not_isLeap ordinary]

/-- Out of any second but a leap second, nanoseconds follow instants. -/
theorem toNanos_le_toNanos (ordinary : ¬t.IsLeap) (le : t ≤ s) : t.toNanos ≤ s.toNanos := by
  simp only [IsLeap] at ordinary
  rw [le_iff] at le
  simp only [toNanos]
  omega

theorem le_count (origin t : Instant) : -8334601228800000000000 ≤ origin.count t := by
  have seconds := t.second_range
  simp only [count, plainCount, toNanos]
  omega

/-- No count passes the end of the last second, or of a leap second after it that counts. -/
theorem count_lt (origin t : Instant)
    : origin.count t < 8210266876800000000000
      ∨ origin.IsLeap ∧ origin.count t < 8210266876801000000000 := by
  have seconds := t.second_range
  have range := t.nano_range
  simp only [count, plainCount, toNanos, IsLeap]
  omega

-------------------------------------------------------------------------------
-- The order of counts
-------------------------------------------------------------------------------

/-- Whether an instant has a count of its own: it lies in no leap second but that of the origin. -/
def Counts (origin t : Instant) : Prop :=
  t.IsLeap → origin.IsLeap ∧ t.second = origin.second

/-- Instants compare as their counts do with one that has a count of its own. -/
theorem lt_iff_count_lt (counts : origin.Counts t) : s < t ↔ origin.count s < origin.count t := by
  have range := s.nano_range
  have range' := t.nano_range
  simp only [Counts, IsLeap] at counts
  simp only [lt_iff, count, plainCount, toNanos]
  split <;> omega

theorem le_iff_count_le (counts : origin.Counts t) : t ≤ s ↔ origin.count t ≤ origin.count s := by
  rw [← not_lt, lt_iff_count_lt counts, Int.not_lt]

/-- An instant is told by its count among those that have one. -/
theorem eq_of_count_eq (counts : origin.Counts s) (counts' : origin.Counts t)
    (same : origin.count s = origin.count t)
    : s = t :=
  le_antisymm ((le_iff_count_le counts).mpr (Int.le_of_eq same))
    ((le_iff_count_le counts').mpr (Int.le_of_eq same.symm))

-------------------------------------------------------------------------------
-- Moving an instant
-------------------------------------------------------------------------------

/-- Moving an instant is adding to its count. -/
theorem of_shift? (reached : t.shift? nanos = some moved)
    : t.Counts moved ∧ t.count moved = t.toNanos + nanos := by
  have range := moved.nano_range
  simp only [Counts, count, IsLeap, plainCount]
  simp only [shift?] at reached
  split at reached
  · split at reached
    · obtain ⟨second_eq, nano_eq⟩ := make?_eq_some_iff.mp reached
      simp only [toNanos]
      omega
    · obtain ⟨short, sum⟩ := ofNanos?_eq_some_iff.mp reached
      simp only [toNanos] at sum ⊢
      omega
  · obtain ⟨short, sum⟩ := ofNanos?_eq_some_iff.mp reached
    simp only [toNanos] at sum ⊢
    omega

/-- An instant cannot be moved just when the sum is before every instant or after every one. -/
theorem shift?_eq_none_iff
    : t.shift? nanos = none
      ↔ (∀ s, t.toNanos + nanos < t.count s) ∨ ∀ s, t.count s < t.toNanos + nanos := by
  constructor
  · intro out
    have range := t.nano_range
    have seconds := t.second_range
    simp only [shift?] at out
    split at out
    · split at out
      · rw [make?_eq_none_iff] at out
        omega
      · -- Past the leap second that it lies in, an instant can only be moved too far on.
        rw [ofNanos?_eq_none_iff] at out
        refine .inr fun s => ?_
        have most := t.count_lt s
        simp only [toNanos] at out ⊢
        omega
    · rw [ofNanos?_eq_none_iff] at out
      refine out.imp (fun before s => ?_) fun after s => ?_
      · exact Int.lt_of_lt_of_le before (t.le_count s)
      · have most := t.count_lt s
        simp only [toNanos, IsLeap] at after most ⊢
        omega
  · intro out
    cases reached : t.shift? nanos with
    | none => rfl
    | some moved =>
        have sum := (of_shift? reached).2
        rcases out with before | after
        · exact absurd sum (Int.ne_of_gt (before moved))
        · exact absurd sum (Int.ne_of_lt (after moved))

/-- There is one instant at most that another is moved to. -/
theorem shift?_eq_some_iff
    : t.shift? nanos = some moved ↔ t.Counts moved ∧ t.count moved = t.toNanos + nanos := by
  refine ⟨of_shift?, fun ⟨counts, sum⟩ => ?_⟩
  cases reached : t.shift? nanos with
  | none =>
      rcases shift?_eq_none_iff.mp reached with before | after
      · exact absurd sum (Int.ne_of_gt (before moved))
      · exact absurd sum (Int.ne_of_lt (after moved))
  | some other =>
      obtain ⟨counts', sum'⟩ := of_shift? reached
      rw [eq_of_count_eq counts' counts (sum'.trans sum.symm)]

/-- Going back fails only before the earliest instant. -/
theorem exists_shift?_of_nonpos (back : nanos ≤ 0)
    (late : -8334601228800000000000 ≤ t.toNanos + nanos)
    : ∃ moved, t.shift? nanos = some moved := by
  rw [← Option.ne_none_iff_exists']
  intro out
  rcases shift?_eq_none_iff.mp out with before | after
  · have seconds := t.second_range
    have first := before .earliest
    simp only [count, plainCount, earliest] at first
    simp only [toNanos] at first late
    omega
  · have last := after t
    rw [t.count_self] at last
    omega

-------------------------------------------------------------------------------
-- A leap second
-------------------------------------------------------------------------------

/-- Late in the leap second at the end of June 2015. -/
def lateInLeapSecond : Instant :=
  .ofParts 1435708799 1900000000 (by omega)

/-- The first instant after it. -/
def afterLeapSecond : Instant :=
  .ofParts 1435708800 0 (by omega)

end Almanac.Time.Instant
