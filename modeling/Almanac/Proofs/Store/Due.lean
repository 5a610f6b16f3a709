import Almanac.Proofs.Query.Sorting
import Almanac.Proofs.Store.Reachable

/-! What is due at a table, before and after notifications are recorded.
A mark is cut to whole microseconds, so it may lie before the moment that it tells of. It settles an
event nevertheless, as an event that can be written is due from a whole microsecond on.
-/

namespace Almanac

open Time Store

namespace Event

variable {e : Event} {now moment : Instant}

/-- Whether a notification was recorded at or after the instant of the event's notification. -/
def IsSettled (e : Event) : Prop :=
  ∃ moment, e.notified = some moment ∧ e.notifyAt ≤ moment

/-- An event is due once its notification is reached, unless a mark has settled it. -/
theorem isDue_iff : e.isDue now ↔ e.notifyAt ≤ now ∧ ¬e.IsSettled := by
  unfold IsSettled isDue
  cases e.notified <;> simp

/-- A settled event is due at no instant. -/
theorem IsSettled.not_isDue (h : e.IsSettled) (now : Instant) : ¬e.isDue now :=
  fun due => (isDue_iff.mp due).2 h

/-- A settled event stays settled under marks, as those only rise. -/
theorem IsSettled.advance (h : e.IsSettled) (moment : Instant)
    : (Table.advance moment e).IsSettled := by
  unfold Table.advance
  split
  · rename_i later
    obtain ⟨mark, set, reached⟩ := h
    have before : mark < moment := by simpa [Table.advances, set] using later
    exact ⟨moment, rfl, le_trans reached (le_of_lt before)⟩
  · exact h

/-- Whether an event's notification can be written. -/
def CanBeWritten (e : Event) : Prop :=
  ∃ payload, e.notification.encode = .ok payload

/-- An event that is due and can be written has been due since a whole microsecond. -/
theorem IsStorable.notifyAt_le (h : e.IsStorable) (written : e.CanBeWritten) (due : e.isDue now)
    : e.notifyAt ≤ now.truncate := by
  obtain ⟨payload, written⟩ := written
  exact (isWhole_notifyAt h.normal h.notifiable written).le_truncate (isDue_iff.mp due).1

/-- So the mark that tells of its notification settles it. -/
theorem IsStorable.isSettled (h : e.IsStorable) (written : e.CanBeWritten) (due : e.isDue now)
    : IsSettled { e with notified := some now.truncate } :=
  ⟨now.truncate, rfl, h.notifyAt_le written due⟩

/-- A due event takes any mark of the present, since a mark that reached it already would have
settled the event. -/
theorem IsStorable.advance_eq (h : e.IsStorable) (written : e.CanBeWritten) (due : e.isDue now)
    : Table.advance now.truncate e = { e with notified := some now.truncate } := by
  apply Table.advance_of_advances
  have reached := h.notifyAt_le written due
  unfold Table.advances
  cases set : e.notified with
  | none => rfl
  | some mark =>
      -- A mark at or after the instant of the notification would have settled the event before.
      have before : mark < e.notifyAt := by
        by_contra notBefore
        exact (isDue_iff.mp due).2 ⟨mark, set, not_lt.mp notBefore⟩
      simpa using lt_of_lt_of_le before reached

end Event

namespace Store.Table

variable {t : Table} {now : Instant} {e : Event} {ids : List Uuid}

theorem mem_due : e ∈ t.due now ↔ e ∈ t.events ∧ e.isDue now := by
  rw [(t.due_perm now).mem_iff, List.mem_filter]

theorem notifyAt_trans (a b c : Event) (ab : decide (compare a.notifyAt b.notifyAt ≠ .gt))
    (bc : decide (compare b.notifyAt c.notifyAt ≠ .gt))
    : decide (compare a.notifyAt c.notifyAt ≠ .gt) := by
  simp only [ne_eq, decide_eq_true_eq, compare_gt_iff_gt, not_lt] at ab bc ⊢
  exact le_trans ab bc

theorem notifyAt_total (a b : Event)
    : decide (compare a.notifyAt b.notifyAt ≠ .gt) || decide (compare b.notifyAt a.notifyAt ≠ .gt)
    := by
  simpa [compare_gt_iff_gt] using le_total a.notifyAt b.notifyAt

/-- Due events are in the order of their notifications. Where these come at one instant, sorting has
left the identifiers in order. -/
theorem Kept.ordered_due (h : t.Kept) (now : Instant)
    : (t.due now).Pairwise fun a b =>
        a.notifyAt < b.notifyAt ∨ a.notifyAt = b.notifyAt ∧ a.id < b.id := by
  have sorted := Query.pairwise_mergeSort_stable notifyAt_trans notifyAt_total
    (h.ordered.filter (·.isDue now))
  refine sorted.imp fun {a b} sorted => ?_
  simp only [ne_eq, decide_eq_true_eq, compare_gt_iff_gt, not_lt] at sorted
  obtain ⟨upward, tie⟩ := sorted
  rcases lt_or_eq_of_le upward with before | same
  · exact .inl before
  · exact .inr ⟨same, tie (le_of_eq same.symm)⟩

/-- No event is due twice, as a kept table lists none twice. -/
theorem Kept.nodup_due (h : t.Kept) (now : Instant) : ((t.due now).map Event.id).Nodup := by
  rw [((t.due_perm now).map Event.id).nodup_iff, List.Nodup, List.pairwise_map]
  exact (h.ordered.filter _).imp fun less => ne_of_lt less

/-- Whether identifiers are those of events that are due and can be written. -/
def Ready (t : Table) (now : Instant) (ids : List Uuid) : Prop :=
  ∀ id ∈ ids, ∃ e ∈ t.due now, e.id = id ∧ e.CanBeWritten

/-- An identifier that is ready stands for the event that the table holds under it. -/
theorem Ready.of_mem (ready : t.Ready now ids) (kept : t.Kept) (present : e ∈ t.events)
    (listed : e.id ∈ ids)
    : e.isDue now ∧ e.CanBeWritten := by
  obtain ⟨other, due, same, written⟩ := ready e.id listed
  obtain ⟨present', due⟩ := mem_due.mp due
  obtain rfl := Query.eq_of_id_eq kept.ordered present present' same.symm
  exact ⟨due, written⟩

theorem Stored.storable_of_mem (h : t.Stored) (present : e ∈ t.events) : e.IsStorable :=
  h.storable (h.kept.find?_eq_some_iff.mpr ⟨present, rfl⟩)

/-- Recording the notifications of events that are due sets their marks, and nothing else. -/
theorem Stored.events_mark (h : t.Stored) (ready : t.Ready now ids)
    : (t.mark ids now).2.events
      = t.events.map fun e =>
          if e.id ∈ ids then { e with notified := some now.truncate } else e := by
  rw [Table.events_mark h.kept.ordered]
  apply List.map_congr_left
  intro e present
  by_cases listed : e.id ∈ ids
  · obtain ⟨due, written⟩ := ready.of_mem h.kept present listed
    rw [if_pos listed, if_pos listed, (h.storable_of_mem present).advance_eq written due]
  · rw [if_neg listed, if_neg listed]

/-- The other events that are due remain so. -/
theorem Stored.filter_isDue_mark (h : t.Stored) (ready : t.Ready now ids)
    : (t.mark ids now).2.events.filter (·.isDue now)
      = (t.events.filter (·.isDue now)).filter (·.id ∉ ids) := by
  rw [h.events_mark ready, List.filter_map, List.filter_filter]
  have same : ∀ e ∈ t.events,
      (if e.id ∈ ids then { e with notified := some now.truncate } else e).isDue now
        = (decide (e.id ∉ ids) && e.isDue now) := by
    intro e present
    by_cases listed : e.id ∈ ids
    · obtain ⟨due, written⟩ := ready.of_mem h.kept present listed
      have settled := (h.storable_of_mem present).isSettled written due
      simpa [listed] using settled.not_isDue now
    · simp [listed]
  -- Whatever is still due was not marked, so the map leaves it alone.
  refine (congrArg (List.map _) (List.filter_congr same)).trans ?_
  refine (List.map_congr_left ?_).trans (List.map_id _)
  intro e member
  have apart : e.id ∉ ids ∧ e.isDue now := by simpa using (List.mem_filter.mp member).2
  exact if_neg apart.1

/-- They remain in their order. -/
theorem Stored.due_mark (h : t.Stored) (ready : t.Ready now ids)
    : (t.mark ids now).2.due now = (t.due now).filter (·.id ∉ ids) := by
  unfold due
  rw [h.filter_isDue_mark ready]
  exact Query.mergeSort_filter notifyAt_trans notifyAt_total (h.kept.ordered.filter _) _

/-- The events whose notifications are recorded are settled. -/
theorem Stored.settled_mark (h : t.Stored) (ready : t.Ready now ids) {e' : Event}
    (found : (t.mark ids now).2.find? e.id = some e') (listed : e.id ∈ ids)
    : e'.IsSettled := by
  rw [find?_mark] at found
  obtain ⟨before, present, rfl⟩ := Option.map_eq_some_iff.mp found
  obtain ⟨present, same⟩ := mem_of_find? present
  obtain ⟨due, written⟩ := ready.of_mem h.kept present (same ▸ listed)
  have storable := h.storable_of_mem present
  rw [if_pos listed, storable.advance_eq written due]
  exact storable.isSettled written due

end Store.Table

end Almanac
