import Almanac.Proofs.Query.Sorting
import Almanac.Store.Call
import Mathlib.Data.List.Pairwise

/-! The records of a table: each identifier once, and marks in whole microseconds.
Every call keeps them so, and finds a record by its identifier alone.
-/

namespace Almanac.Store

open Time Query

namespace Table

/-- A table as stores keep it: the identifiers increase, and so each is used once; what is recorded
of notifications is in whole microseconds. -/
structure Kept (t : Table) : Prop where
  ordered : t.events.Pairwise fun a b => a.id < b.id
  whole : ∀ e ∈ t.events, e.notified.map Instant.truncate = e.notified

variable {t : Table} {id : Uuid} {e : Event}

theorem Kept.empty : Kept .empty :=
  ⟨.nil, by simp [Table.empty]⟩

theorem mem_of_find? (found : t.find? id = some e) : e ∈ t.events ∧ e.id = id :=
  ⟨List.mem_of_find?_eq_some found, by simpa using List.find?_some found⟩

/-- As the identifiers increase, an event is found by its own. -/
theorem find?_of_mem (ordered : t.events.Pairwise fun a b => a.id < b.id) (present : e ∈ t.events)
    : t.find? e.id = some e := by
  cases found : t.find? e.id with
  | none => exact absurd (by simp) (List.find?_eq_none.mp found e present)
  | some other =>
      obtain ⟨here, tagged⟩ := mem_of_find? found
      rw [eq_of_id_eq ordered here present tagged]

/-- In a kept table, an event is found under an identifier exactly if it is there and has it,
since identifiers are unique. -/
theorem Kept.find?_eq_some_iff (h : t.Kept) : t.find? id = some e ↔ e ∈ t.events ∧ e.id = id := by
  refine ⟨mem_of_find?, ?_⟩
  rintro ⟨present, rfl⟩
  exact find?_of_mem h.ordered present

theorem contains_eq_isSome (t : Table) (id : Uuid) : t.contains id = (t.find? id).isSome := by
  rw [Bool.eq_iff_iff]
  simp [contains, find?]

/-- What is inserted is on record beside what was there. -/
theorem perm_insertInto (e : Event) (events : List Event)
    : (insertInto e events).Perm (e :: events) := by
  induction events with
  | nil => exact .refl _
  | cons other rest ih =>
      unfold insertInto
      split
      · exact .refl _
      · exact (ih.cons other).trans (.swap e other rest)

/-- An event filed under a new identifier keeps the identifiers in order, by induction on the
records. -/
theorem ordered_insertInto {events : List Event}
    (ordered : events.Pairwise fun a b => a.id < b.id) (fresh : ∀ other ∈ events, other.id ≠ e.id)
    : (insertInto e events).Pairwise fun a b => a.id < b.id := by
  induction events with
  | nil => exact List.pairwise_singleton _ _
  | cons other rest ih =>
      obtain ⟨below, ordered⟩ := List.pairwise_cons.mp ordered
      unfold insertInto
      split
      · rename_i before
        refine List.pairwise_cons.mpr ⟨fun a member => ?_, List.pairwise_cons.mpr ⟨below, ordered⟩⟩
        rcases List.mem_cons.mp member with rfl | later
        · exact before
        · exact lt_trans before (below a later)
      · rename_i notBefore
        have after : other.id < e.id :=
          lt_of_le_of_ne (not_lt.mp notBefore) (fresh other List.mem_cons_self)
        refine List.pairwise_cons.mpr ⟨fun a member => ?_,
          ih ordered fun a later => fresh a (List.mem_cons_of_mem _ later)⟩
        rcases List.mem_cons.mp ((perm_insertInto e rest).subset member) with rfl | later
        · exact after
        · exact below a later

/-- Replacing keeps the identifiers and their order. -/
theorem map_id_replace (t : Table) (e : Event)
    : (t.replace e).events.map Event.id = t.events.map Event.id := by
  simp only [replace, List.map_map]
  apply List.map_congr_left
  intro other _
  by_cases same : other.id = e.id <;> simp [same]

theorem ordered_iff (events : List Event)
    : events.Pairwise (fun a b => a.id < b.id) ↔ (events.map Event.id).Pairwise (· < ·) :=
  List.pairwise_map.symm

/-- A record in whole microseconds may replace another. -/
theorem Kept.replace (h : t.Kept) (whole : e.notified.map Instant.truncate = e.notified)
    : (t.replace e).Kept where
  ordered := by
    rw [ordered_iff, map_id_replace, ← ordered_iff]
    exact h.ordered
  whole other member := by
    obtain ⟨before, present, rfl⟩ := List.mem_map.mp member
    by_cases same : before.id = e.id
    · rw [if_pos same]
      exact whole
    · rw [if_neg same]
      exact h.whole before present

theorem Kept.filter (h : t.Kept) (keep : Event → Bool) : Kept ⟨t.events.filter keep⟩ where
  ordered := h.ordered.filter _
  whole other member := h.whole other (List.mem_filter.mp member).1

/-- Replacing is seen under the identifier of the event replaced, provided there was one; by
induction on the events. -/
theorem find?_replace (t : Table) (e : Event) (id : Uuid)
    : (t.replace e).find? id = if id = e.id then (t.find? id).map fun _ => e else t.find? id := by
  simp only [find?, replace]
  induction t.events with
  | nil => simp
  | cons other rest ih =>
      by_cases hit : other.id = e.id
      · by_cases same : id = e.id
        · simp [hit, same]
        · simpa [hit, same, Ne.symm same] using ih
      · by_cases here : other.id = id
        · subst here
          simp [hit]
        · simpa [hit, here] using ih

/-- What a store prepares is in whole microseconds, under the identifier it came with. -/
theorem of_prepare {prepared : Event} (ok : prepare e = .ok prepared)
    : prepared = e.normalize := by
  simp only [prepare] at ok
  split at ok
  · exact (Except.ok.inj ok).symm
  · cases ok

end Table

end Almanac.Store
