import Almanac.Proofs.Store.Narrowing
import Almanac.Proofs.Store.Transition
import Mathlib.Data.List.Nodup
import Mathlib.Data.List.Perm.Basic

/-! Marking many events at once, and many times.
A round of marks raises each mark that is listed to the moment of the round, if it is not later
already. So it counts every event once, however often it is listed, and rounds can be taken in any
order.
-/

namespace Almanac.Store

open Time

/-- The later one of a mark and a moment. An unset mark is older than any moment. -/
def laterOf : Option Instant → Instant → Instant
  | none, moment => moment
  | some mark, moment => if mark < moment then moment else mark

/-- Of two moments it does not matter which one comes first. -/
theorem laterOf_comm (mark : Option Instant) (first second : Instant)
    : laterOf (some (laterOf mark first)) second = laterOf (some (laterOf mark second)) first := by
  cases mark with
  | none =>
      simp only [laterOf]
      grind
  | some mark =>
      simp only [laterOf]
      grind

namespace Table

variable {t : Table} {ids : List Uuid} {moment : Instant} {e : Event}

-------------------------------------------------------------------------------
-- One event
-------------------------------------------------------------------------------

/-- Marking takes the later of two instants, for which an event without a mark counts as
earliest. -/
theorem advance_eq (moment : Instant) (e : Event)
    : advance moment e = { e with notified := some (laterOf e.notified moment) } := by
  cases set : e.notified with
  | none => rw [advance_of_advances (by simp [advances, set]), laterOf]
  | some mark =>
      rw [laterOf]
      by_cases before : mark < moment
      · rw [advance_of_advances (by simpa [advances, set] using before), if_pos before]
      · rw [advance_of_not_advances (by simpa [advances, set] using before), if_neg before, ← set]

/-- Marks commute, since the later of instants does not depend on their order. -/
theorem advance_comm (moment moment' : Instant) (e : Event)
    : advance moment (advance moment' e) = advance moment' (advance moment e) := by
  simp only [advance_eq, laterOf_comm e.notified moment]

-------------------------------------------------------------------------------
-- One round
-------------------------------------------------------------------------------

/-- Identifiers of events whose marks are unset or earlier than a moment, out of a list, each
once. -/
structure Overdue (t : Table) (ids : List Uuid) (moment : Instant) (counted : List Uuid)
    : Prop where
  once : counted.Nodup
  mem_iff
    : ∀ id, id ∈ counted ↔
        id ∈ ids ∧ ∃ e, t.find? id = some e ∧ ∀ mark, e.notified = some mark → mark < moment

theorem advances_iff
    : advances moment e ↔ ∀ mark, e.notified = some mark → mark < moment := by
  unfold advances
  cases e.notified <;> simp

/-- An event that is raised is counted now and not again: its mark is as late by then. -/
theorem Overdue.raised {state : Nat × Table} {target : Uuid} {counted : List Uuid}
    (overdue : Overdue (markOne moment state target).2 ids moment counted)
    (found : state.2.find? target = some e) (later : advances moment e)
    : Overdue state.2 (target :: ids) moment (target :: counted) where
  once := by
    refine List.nodup_cons.mpr ⟨?_, overdue.once⟩
    rw [overdue.mem_iff, find?_markOne]
    rintro ⟨-, e', found', later'⟩
    obtain rfl : advance moment e = e' := by simpa [found] using found'
    rw [advance_of_advances later] at later'
    exact lt_irrefl moment (later' moment rfl)
  mem_iff id := by
    by_cases here : id = target
    · subst here
      simpa [found] using advances_iff.mp later
    · have same : (markOne moment state target).2.find? id = state.2.find? id := by
        rw [find?_markOne]
        simp [here]
      rw [List.mem_cons, List.mem_cons, or_iff_right here, or_iff_right here, overdue.mem_iff, same]

/-- What is not raised is not counted. -/
theorem Overdue.passed {target : Uuid} {counted : List Uuid}
    (overdue : Overdue t ids moment counted)
    (late : ∀ e, t.find? target = some e → ¬advances moment e)
    : Overdue t (target :: ids) moment counted where
  once := overdue.once
  mem_iff id := by
    rw [overdue.mem_iff, List.mem_cons]
    refine and_congr_left fun ⟨e, found, later⟩ => (or_iff_right ?_).symm
    rintro rfl
    exact late e found (advances_iff.mpr later)

/-- The marks that are raised are counted, by induction on the identifiers. -/
theorem exists_overdue (moment : Instant) (ids : List Uuid) (state : Nat × Table)
    : ∃ counted, Overdue state.2 ids moment counted
        ∧ (ids.foldl (markOne moment) state).1 = state.1 + counted.length := by
  induction ids generalizing state with
  | nil => exact ⟨[], ⟨List.nodup_nil, by simp⟩, rfl⟩
  | cons target ids ih =>
      obtain ⟨counted, overdue, sum⟩ := ih (markOne moment state target)
      rw [List.foldl_cons, sum]
      obtain ⟨e, found, later, raised⟩ | ⟨late, same⟩ := markOne_cases moment state target
      · refine ⟨target :: counted, overdue.raised found later, ?_⟩
        rw [raised, List.length_cons]
        omega
      · rw [same] at overdue ⊢
        exact ⟨counted, overdue.passed late, rfl⟩

/-- What a round of marks does: it sets every mark that is listed to the later one of what it was
and the moment, and counts those that were earlier. -/
structure MarksLatest (t : Table) (ids : List Uuid) (moment : Instant) (count : Nat) (after : Table)
    : Prop where
  answered : ∀ fresh, Table.answer fresh (.mark ids moment) t = (.ok count, after)
  events
    : after.events = t.events.map fun e =>
        if e.id ∈ ids then { e with notified := some (laterOf e.notified moment.truncate) } else e
  counted
    : ∃ counted, Overdue t ids moment.truncate counted ∧ count = counted.length

/-- One round of marks leaves the latest mark everywhere and counts the events it raised, each
once. -/
theorem marksLatest_mark (ordered : t.events.Pairwise fun a b => a.id < b.id) (ids : List Uuid)
    (moment : Instant)
    : MarksLatest t ids moment (t.mark ids moment).1 (t.mark ids moment).2 where
  answered _ := rfl
  events := by
    rw [events_mark ordered]
    simp only [advance_eq]
  counted := by
    obtain ⟨counted, overdue, sum⟩ := exists_overdue moment.truncate ids (0, t)
    exact ⟨counted, overdue, sum.trans (Nat.zero_add _)⟩

-------------------------------------------------------------------------------
-- Many rounds
-------------------------------------------------------------------------------

/-- The table after rounds of marks in turn. -/
def markAll (t : Table) (rounds : List (List Uuid × Instant)) : Table :=
  rounds.foldl (fun t round => (t.mark round.1 round.2).2) t

/-- An event after a round of marks. -/
def raise (e : Event) (round : List Uuid × Instant) : Event :=
  if e.id ∈ round.1 then advance round.2.truncate e else e

theorem id_raise (e : Event) (round : List Uuid × Instant) : (raise e round).id = e.id := by
  unfold raise
  split
  · exact id_advance _ e
  · rfl

instance : RightCommutative raise where
  right_comm e first second := by
    simp only [raise]
    by_cases here : e.id ∈ first.1 <;> by_cases there : e.id ∈ second.1 <;>
      simp [here, there, id_advance, advance_comm]

/-- Rounds concern every event by itself, by induction on them. -/
theorem events_markAll (ordered : t.events.Pairwise fun a b => a.id < b.id)
    (rounds : List (List Uuid × Instant))
    : (t.markAll rounds).events = t.events.map fun e => rounds.foldl raise e := by
  induction rounds generalizing t with
  | nil => simp [markAll]
  | cons round rounds ih =>
      have first : (t.mark round.1 round.2).2.events = t.events.map (raise · round) :=
        events_mark ordered round.1 round.2
      have still : (t.mark round.1 round.2).2.events.Pairwise fun a b => a.id < b.id := by
        rw [first, List.pairwise_map]
        exact ordered.imp fun less => by simpa only [id_raise] using less
      have rest := ih still
      rw [first, List.map_map] at rest
      exact rest

/-- A round of marks raises those that are listed, each event once. What rounds come to does not
depend on their order. -/
theorem marks_latest (ordered : t.events.Pairwise fun a b => a.id < b.id)
    : (∀ ids moment, ∃ count after, MarksLatest t ids moment count after)
      ∧ ∀ rounds other, other.Perm rounds → t.markAll other = t.markAll rounds := by
  refine ⟨fun ids moment => ⟨_, _, marksLatest_mark ordered ids moment⟩, ?_⟩
  intro rounds other same
  have events : (t.markAll other).events = (t.markAll rounds).events := by
    rw [events_markAll ordered, events_markAll ordered]
    exact List.map_congr_left fun e _ => same.foldl_eq e
  exact congrArg Table.mk events

/-- An opera and a ballet of the season are marked, in either order, and unknown evenings are passed
over. -/
theorem marks_latest_season
    : season.events.Pairwise (fun a b => a.id < b.id)
      ∧ (∃ count after, MarksLatest season [⟨1⟩, ⟨9⟩, ⟨2⟩, ⟨1⟩] .latest count after)
      ∧ season.markAll [([⟨1⟩, ⟨2⟩], .latest), ([⟨1⟩, ⟨3⟩], .earliest)]
        = season.markAll [([⟨1⟩, ⟨3⟩], .earliest), ([⟨1⟩, ⟨2⟩], .latest)] := by
  have ordered : season.events.Pairwise fun a b => a.id < b.id := by decide
  obtain ⟨round, rounds⟩ := marks_latest ordered
  exact ⟨ordered, round _ _, rounds _ _ (.swap _ _ _)⟩

end Table

end Almanac.Store
