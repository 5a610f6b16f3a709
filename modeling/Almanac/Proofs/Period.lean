import Almanac.Period
import Almanac.Proofs.Order
import Almanac.Proofs.Time.Months
import Almanac.Proofs.Time.Truncation
import Mathlib.Data.List.Chain

/-! Windows that follow each other. The last instant of a window is a microsecond before the next
one, which leaves nothing between them in whole microseconds but a leap second that ends where the
next window begins.
-/

namespace Almanac

namespace Time.Instant

-------------------------------------------------------------------------------
-- Steps of instants
-------------------------------------------------------------------------------

variable {t s moved : Instant} {second : Int} {nano : Nat}

theorem ofNanos?_eq_make? {nanos : Int} (short : nano < 1000000000)
    (sum : nanos = second * 1000000000 + nano)
    : ofNanos? nanos = make? second nano := by
  have seconds : nanos / 1000000000 = second := by omega
  have rest : (nanos % 1000000000).toNat = nano := by omega
  rw [ofNanos?, seconds, rest]

/-- Days later by some seconds, an instant of a leap second is one of the second after it. -/
theorem shift?_seconds (t : Instant) (seconds : Int) (later : 1 ≤ seconds)
    : t.shift? (seconds * 1000000000) = make? (t.second + seconds) (t.nano % 1000000000) := by
  have range := t.nano_range
  simp only [shift?, toNanos]
  split
  · rw [if_neg (by omega)]
    exact ofNanos?_eq_make? (by omega) (by omega)
  · exact ofNanos?_eq_make? (by omega) (by omega)

theorem of_shift?_seconds (seconds : Int) (later : 1 ≤ seconds)
    (reached : t.shift? (seconds * 1000000000) = some moved)
    : moved.second = t.second + seconds ∧ moved.nano = t.nano % 1000000000 := by
  rwa [shift?_seconds t seconds later, make?_eq_some_iff] at reached

/-- The microsecond before an instant. A leap second is passed over from the start of the next. -/
theorem shift?_back (t : Instant)
    : t.shift? (-1000)
      = if 1000 ≤ t.nano then make? t.second (t.nano - 1000)
        else make? (t.second - 1) (t.nano + 999999000) := by
  have range := t.nano_range
  simp only [shift?, toNanos]
  split
  · have inside : ((t.nano : Int) + -1000).toNat = t.nano - 1000 := by omega
    rw [if_pos (by omega), if_pos (by omega), inside]
  · split
    · exact ofNanos?_eq_make? (by omega) (by omega)
    · exact ofNanos?_eq_make? (by omega) (by omega)

theorem of_back (back : t.shift? (-1000) = some moved)
    : moved.second = t.second ∧ moved.nano + 1000 = t.nano
      ∨ moved.second + 1 = t.second ∧ t.nano < 1000 ∧ moved.nano = t.nano + 999999000 := by
  rw [shift?_back] at back
  split at back
  · obtain ⟨second_eq, nano_eq⟩ := make?_eq_some_iff.mp back
    omega
  · obtain ⟨second_eq, nano_eq⟩ := make?_eq_some_iff.mp back
    omega

/-- Whether an instant lies in a leap second that ends at another, or less than a microsecond
before that. The microsecond before the other comes before all of the leap second. -/
def passesOver (t s : Instant) : Bool :=
  t.nano < 1000 && s.second + 1 = t.second && 1000000000 ≤ s.nano

/-- A boundary passes over an instant in the leap second before it exactly if it lies in the first
microsecond of its own second. -/
theorem passesOver_iff
    : t.passesOver s ↔ t.nano < 1000 ∧ s.second + 1 = t.second ∧ 1000000000 ≤ s.nano := by
  simp [passesOver, and_assoc]

/-- Of the instants in whole microseconds, those up to the microsecond before an instant are those
before it, but for a leap second that it passes over. -/
theorem IsWhole.le_back_iff (whole : s.IsWhole) (reached : t.shift? (-1000) = some moved)
    : s ≤ moved.truncate ↔ s < t.truncate ∧ ¬t.passesOver s := by
  have range := t.nano_range
  have back := of_back reached
  simp only [IsWhole] at whole
  rw [le_iff, lt_iff, passesOver_iff]
  simp only [truncate]
  omega

theorem exists_make? (range : -8334601228800 ≤ second ∧ second ≤ 8210266876799)
    (fits : nano < 2000000000)
    : ∃ t, make? second nano = some t :=
  ⟨⟨second, nano, range, fits⟩, make?_eq_some_iff.mpr ⟨rfl, rfl⟩⟩

/-- Every instant past the first second has one a microsecond before it. -/
theorem exists_back (late : -8334601228800 < t.second)
    : ∃ moved, t.shift? (-1000) = some moved := by
  have range := t.second_range
  have fits := t.nano_range
  rw [shift?_back]
  split
  · exact exists_make? range (by omega)
  · exact exists_make? (by omega) (by omega)

end Time.Instant

namespace Period

open Time

variable {p : Period} {w n s : Instant} {rest : List Instant}

-------------------------------------------------------------------------------
-- A window and the next one
-------------------------------------------------------------------------------

/-- A window is at least a day long, by cases on its length. -/
theorem add_le_second (next : p.next? w = some n) : w.second + 86400 ≤ n.second := by
  cases p with
  | day => exact (Instant.of_shift?_seconds 86400 (by omega) next).1.ge
  | week =>
      have later := (Instant.of_shift?_seconds 604800 (by omega) next).1
      omega
  | month =>
      have days := Date.add_le_toDayNumber_nextMonth w.isValid_date
      have later := (Instant.make?_eq_some_iff.mp next).1
      have now := w.toDayNumber_date
      omega

/-- Windows begin at the latest instant at the latest. A month later is not in the leap second after
it: the last day of the last year is the next day of no month. -/
theorem le_latest_of_next? (next : p.next? w = some n) : n ≤ .latest := by
  have range := n.second_range
  rw [Instant.le_iff]
  simp only [Instant.latest]
  cases p with
  | day =>
      have rest := (Instant.of_shift?_seconds 86400 (by omega) next).2
      omega
  | week =>
      have rest := (Instant.of_shift?_seconds 604800 (by omega) next).2
      omega
  | month =>
      have apart := Date.toDayNumber_nextMonth_ne w.isValid_date 262142
      have lastDay : Date.toDayNumber ⟨262142, 12, 31⟩ = 95026236 := by decide
      have later := (Instant.make?_eq_some_iff.mp next).1
      have inDay := w.secondOfDay_lt
      omega

/-- A window that another one follows ends one microsecond before it. -/
theorem back_lastOf (next : p.next? w = some n) : n.shift? (-1000) = some (p.lastOf w) := by
  have later := add_le_second next
  have range := w.second_range
  obtain ⟨moved, back⟩ := n.exists_back (by omega)
  simp [lastOf, next, back]

/-- Of the instants in whole microseconds, a window reaches all before the next one but those of a
leap second that is passed over. -/
theorem le_lastOf_iff (next : p.next? w = some n) (whole : s.IsWhole)
    : s ≤ (p.lastOf w).truncate ↔ s < n.truncate ∧ ¬n.passesOver s :=
  whole.le_back_iff (back_lastOf next)

/-- A window ends before the next one starts, also after truncation. -/
theorem truncate_lastOf_lt (next : p.next? w = some n)
    : (p.lastOf w).truncate < n.truncate :=
  ((le_lastOf_iff next (Instant.isWhole_truncate _)).mp le_rfl).1

/-- A window is not empty, unless it begins after the latest instant. -/
theorem truncate_le_lastOf (p : Period) (inTime : w ≤ .latest)
    : w.truncate ≤ (p.lastOf w).truncate := by
  cases next : p.next? w with
  | none => simpa [lastOf, next] using Instant.truncate_mono inTime
  | some n =>
      have later := add_le_second next
      rw [le_lastOf_iff next w.isWhole_truncate, Instant.passesOver_iff, Instant.lt_iff]
      simp only [Instant.truncate]
      omega

-------------------------------------------------------------------------------
-- Windows that follow each other
-------------------------------------------------------------------------------

/-- Starts of windows that follow each other. -/
def Successive (p : Period) (starts : List Instant) : Prop :=
  starts.IsChain fun w n => p.next? w = some n

/-- The last instant of the last of some windows. -/
def lastOfAll (p : Period) (w : Instant) (rest : List Instant) : Instant :=
  p.lastOf (rest.getLastD w)

@[simp]
theorem lastOfAll_cons (p : Period) (w n : Instant) (rest : List Instant)
    : p.lastOfAll w (n :: rest) = p.lastOfAll n rest := by
  rw [lastOfAll, List.getLastD_cons, lastOfAll]

theorem Successive.add_le_second (h : p.Successive (w :: rest))
    : ∀ n ∈ rest, w.second + 86400 ≤ n.second := by
  induction rest generalizing w with
  | nil =>
      intro n member
      cases member
  | cons next rest ih =>
      obtain ⟨follows, later⟩ := List.isChain_cons_cons.mp h
      have first := Period.add_le_second follows
      rintro n (_ | ⟨_, member⟩)
      · exact first
      · have := ih later n member
        omega

/-- The last of windows reaches the start of the first. -/
theorem Successive.truncate_le_lastOfAll (h : p.Successive (w :: rest)) (inTime : w ≤ .latest)
    : w.truncate ≤ (p.lastOfAll w rest).truncate := by
  induction rest generalizing w with
  | nil => exact truncate_le_lastOf p inTime
  | cons next rest ih =>
      obtain ⟨follows, later⟩ := List.isChain_cons_cons.mp h
      have first := Period.add_le_second follows
      have before : w.truncate ≤ next.truncate := by
        rw [Instant.le_iff]
        simp only [Instant.truncate]
        omega
      rw [lastOfAll_cons]
      exact before.trans (ih later (le_latest_of_next? follows))

theorem Successive.truncate_le_of_mem (h : p.Successive (w :: rest)) (member : n ∈ rest)
    : n.truncate ≤ (p.lastOfAll w rest).truncate := by
  induction rest generalizing w with
  | nil => cases member
  | cons next rest ih =>
      obtain ⟨follows, later⟩ := List.isChain_cons_cons.mp h
      rw [lastOfAll_cons]
      cases member with
      | head => exact Successive.truncate_le_lastOfAll later (le_latest_of_next? follows)
      | tail _ member => exact ih later member

/-- What is passed over lies in the span that the windows cover. -/
theorem Successive.covers_of_passesOver (h : p.Successive (w :: rest)) (member : n ∈ rest)
    (passes : n.passesOver s)
    : w.truncate ≤ s ∧ s ≤ (p.lastOfAll w rest).truncate := by
  have far := Successive.add_le_second h n member
  have reached := Successive.truncate_le_of_mem h member
  rw [Instant.passesOver_iff] at passes
  rw [Instant.le_iff] at reached
  rw [Instant.le_iff, Instant.le_iff]
  simp only [Instant.truncate] at reached ⊢
  omega

/-- An instant that the windows cover and none passes over lies in the first or is covered by the
others, but not both. -/
theorem Successive.split (h : p.Successive (w :: n :: rest)) (whole : s.IsWhole)
    : (w.truncate ≤ s ∧ s ≤ (p.lastOfAll w (n :: rest)).truncate
          ∧ ∀ m ∈ n :: rest, ¬m.passesOver s)
        ↔ (w.truncate ≤ s ∧ s ≤ (p.lastOf w).truncate)
          ∨ (n.truncate ≤ s ∧ s ≤ (p.lastOfAll n rest).truncate ∧ ∀ m ∈ rest, ¬m.passesOver s) := by
  obtain ⟨follows, later⟩ := List.isChain_cons_cons.mp h
  have next := Period.add_le_second follows
  have reached := Successive.truncate_le_lastOfAll later (le_latest_of_next? follows)
  rw [le_lastOf_iff follows whole, List.forall_mem_cons, lastOfAll_cons]
  constructor
  · rintro ⟨from_, upTo, apart, others⟩
    rcases lt_or_ge s n.truncate with before | after
    · exact .inl ⟨from_, before, apart⟩
    · exact .inr ⟨after, upTo, others⟩
  · rintro (⟨from_, before, apart⟩ | ⟨after, upTo, others⟩)
    · refine ⟨from_, before.le.trans reached, apart, ?_⟩
      intro m member passes
      have far := Successive.add_le_second later m member
      rw [Instant.passesOver_iff] at passes
      rw [Instant.lt_iff] at before
      simp only [Instant.truncate] at before
      omega
    · refine ⟨?_, upTo, ?_, others⟩
      · rw [Instant.le_iff] at after ⊢
        simp only [Instant.truncate] at after ⊢
        omega
      · intro passes
        rw [Instant.passesOver_iff] at passes
        rw [Instant.le_iff] at after
        simp only [Instant.truncate] at after
        omega

end Period

end Almanac
