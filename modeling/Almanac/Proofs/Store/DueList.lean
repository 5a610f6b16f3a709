import Almanac.Proofs.Event.Saturation
import Almanac.Proofs.Store.Due
import Almanac.Proofs.Store.Usage

/-! What a search for due events lists, in a store in use.
Every stored event has an instant of notification, so none is moved to an end of the instants: what
is listed is due exactly, and is listed in the exact order.
-/

namespace Almanac.Store.Table

open Time

variable {t : Table} {now : Instant} {e : Event}

/-- What a search at a table lists: the events that are due, and nothing is changed by it. -/
structure ListsDue (t : Table) (now : Instant) (found : List Event) : Prop where
  answered : ∀ drawn, t.reply? drawn (.due now) = some (.ok found, t)
  /-- What is listed are the stored events that are due in exact arithmetic, each once. -/
  exactly : ∀ e, e ∈ found ↔ e ∈ t.events ∧ e.IsDueExactly now
  once : (found.map Event.id).Nodup
  /-- First comes what is to be notified of first, and of two at one instant the lesser
  identifier. -/
  inOrder
    : found.Pairwise fun a b =>
        a.notifyAt < b.notifyAt ∨ a.notifyAt = b.notifyAt ∧ a.id < b.id
  /-- The instants of the notifications are exact. -/
  unmoved
    : ∀ e ∈ found, e.start.Counts e.notifyAt ∧ e.start.count e.notifyAt = e.notifyCount
  /-- Away from leap seconds their order is that of nanoseconds. -/
  plainly
    : ∀ a ∈ found, ∀ b ∈ found, ¬a.start.IsLeap → ¬b.start.IsLeap →
        (a.notifyAt < b.notifyAt ↔ a.notifyCount < b.notifyCount)

/-- An event that starts in no leap second has its notification in none. -/
theorem toNanos_notifyAt (notifiable : e.notifyAt?.isSome) (ordinary : ¬e.start.IsLeap)
    : ¬e.notifyAt.IsLeap ∧ e.notifyAt.toNanos = e.notifyCount := by
  obtain ⟨counts, exact⟩ := Event.count_notifyAt notifiable
  have plain : ¬e.notifyAt.IsLeap := fun leap => ordinary (counts leap).1
  exact ⟨plain, Instant.count_of_not_isLeap ordinary plain ▸ exact⟩

/-- Stores list what is due, whatever was done there. -/
theorem lists_due_through (uses : List Use) (now : Instant)
    : ∃ found, ListsDue (empty.through uses) now found := by
  have stored := Stored.empty.through uses
  have notifiable : ∀ e ∈ (empty.through uses).due now, e.notifyAt?.isSome :=
    fun e listed => (stored.storable_of_mem (mem_due.mp listed).1).notifiable
  refine ⟨(empty.through uses).due now, ?_⟩
  constructor
  case answered => exact fun drawn => rfl
  case exactly =>
    intro e
    rw [mem_due]
    refine and_congr_right fun present => ?_
    exact Event.isDue_iff_isDueExactly (stored.storable_of_mem present).notifiable
  case once => exact stored.kept.nodup_due now
  case inOrder => exact stored.kept.ordered_due now
  case unmoved => exact fun e listed => Event.count_notifyAt (notifiable e listed)
  case plainly =>
    intro a first b second ordinary ordinary'
    obtain ⟨plain, sum⟩ := toNanos_notifyAt (notifiable a first) ordinary
    obtain ⟨plain', sum'⟩ := toNanos_notifyAt (notifiable b second) ordinary'
    rw [← sum, ← sum', Instant.lt_iff_count_lt fun leap => absurd leap plain',
      Instant.count_of_not_isLeap ordinary plain, Instant.count_of_not_isLeap ordinary plain']

end Almanac.Store.Table
