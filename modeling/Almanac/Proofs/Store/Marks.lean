import Almanac.Proofs.Store.Records

/-! What calls on a store do to the marks of its events.
A mark is the instant of the last notification that is recorded. Only updates can set it back.
-/

namespace Almanac.Store

open Time Query

/-- A mark upholds an older one when it is set and not earlier, in case the older one is set. -/
def Upholds (new old : Option Instant) : Prop :=
  ∀ t, old = some t → ∃ s, new = some s ∧ t ≤ s

theorem Upholds.refl (mark : Option Instant) : Upholds mark mark :=
  fun t set => ⟨t, set, le_refl t⟩

/-- Upholding composes, since instants are ordered. -/
theorem Upholds.trans {new middle old : Option Instant} (later : Upholds new middle)
    (earlier : Upholds middle old)
    : Upholds new old := by
  intro t set
  obtain ⟨s, passed, le⟩ := earlier t set
  obtain ⟨r, reached, le'⟩ := later s passed
  exact ⟨r, reached, le_trans le le'⟩

/-- A moment that advances an event's mark upholds it. -/
theorem Upholds.of_advances {moment : Instant} {e : Event} (advances : Table.advances moment e)
    : Upholds (some moment) e.notified := by
  intro t set
  have less : t < moment := by simpa [Table.advances, set] using advances
  exact ⟨moment, rfl, le_of_lt less⟩

namespace Table

variable {t : Table} {id : Uuid} {e e' : Event}

/-- One event is raised and counted, or all is left as it was, because there is no such event or its
mark is as late. -/
theorem markOne_cases (moment : Instant) (state : Nat × Table) (target : Uuid)
    : (∃ e, state.2.find? target = some e ∧ advances moment e
        ∧ markOne moment state target
          = (state.1 + 1, state.2.replace { e with notified := some moment }))
      ∨ (∀ e, state.2.find? target = some e → ¬advances moment e)
        ∧ markOne moment state target = state := by
  unfold markOne
  cases found : state.2.find? target with
  | none => exact .inr ⟨by simp, rfl⟩
  | some e =>
      by_cases later : advances moment e
      · exact .inl ⟨e, rfl, later, if_pos later⟩
      · refine .inr ⟨fun other present => ?_, if_neg later⟩
        cases present
        exact later

/-- A single mark keeps the table, provided the moment is whole: nothing but a mark is written. -/
theorem Kept.markOne {state : Nat × Table} (h : state.2.Kept) {moment : Instant}
    (whole : moment.truncate = moment) (target : Uuid)
    : (Table.markOne moment state target).2.Kept := by
  obtain ⟨e, -, -, raised⟩ | ⟨-, same⟩ := markOne_cases moment state target
  · rw [raised]
    exact h.replace (by simp [whole])
  · rw [same]
    exact h

/-- Marking keeps the table, by induction on the identifiers. -/
theorem Kept.mark (h : t.Kept) (ids : List Uuid) (moment : Instant)
    : (t.mark ids moment).2.Kept := by
  unfold Table.mark
  suffices ∀ state : Nat × Table, state.2.Kept →
      (ids.foldl (Table.markOne moment.truncate) state).2.Kept from this (0, t) h
  induction ids with
  | nil => exact fun _ h => h
  | cons target ids ih =>
      intro state h
      exact ih _ (h.markOne moment.truncate_truncate target)

/-- Whether a call can be answered with an identifier at hand for a new event. -/
def accepts (t : Table) (fresh : Uuid) : Call → Bool
  | .add _ => !t.contains fresh
  | _ => true

/-- What a call can make of a table. -/
inductive Becomes (t : Table) (fresh : Uuid) : Call → Table → Prop where
  | same {c : Call} : Becomes t fresh c t
  | added {new stored : Event} (prepared : prepare new = .ok stored)
    : Becomes t fresh (.add new) ⟨insertInto { stored with id := fresh } t.events⟩
  | updated {new stored old : Event} (prepared : prepare new = .ok stored)
    (found : t.find? stored.id = some old)
    : Becomes t fresh (.update new) (t.replace { stored with owner := old.owner })
  | removed {c : Call} (keep : Event → Bool) : Becomes t fresh c ⟨t.events.filter keep⟩
  | marked (ids : List Uuid) (moment : Instant)
    : Becomes t fresh (.mark ids moment) (t.mark ids moment).2

/-- A table after an update: the event is replaced when it can be stored and is on record. -/
theorem answer_update (t : Table) (fresh : Uuid) (new : Event)
    : (Table.answer fresh (.update new) t).2
      = match prepare new with
        | .error _ => t
        | .ok stored =>
            match t.find? stored.id with
            | some old => t.replace { stored with owner := old.owner }
            | none => t := by
  simp only [Table.answer, changed, Table.update]
  cases prepare new with
  | error cause => rfl
  | ok stored => cases found : t.find? stored.id <;> simp [Except.bind, Except.map, found]

/-- Every call makes of a table what it can make of it, by cases on the call. -/
theorem becomes_answer (t : Table) (fresh : Uuid) (c : Call)
    : t.Becomes fresh c (Table.answer fresh c t).2 := by
  cases c with
  | add new =>
      cases prepared : prepare new with
      | error cause =>
          simpa [Table.answer, changed, Table.add, prepared, Except.map] using Becomes.same
      | ok stored =>
          simpa [Table.answer, changed, Table.add, prepared, Except.map]
            using Becomes.added prepared
  | update new =>
      rw [answer_update]
      split
      · exact .same
      · rename_i stored prepared
        split
        · rename_i old found
          exact .updated prepared found
        · exact .same
  | delete id =>
      by_cases used : t.contains id
      · simpa [Table.answer, changed, Table.delete, used, Except.map] using Becomes.removed _
      · simpa [Table.answer, changed, Table.delete, used, Except.map] using Becomes.same
  | get id => exact .same
  | query conditions keys => exact .same
  | deleteWhere conditions =>
      cases checked : checkFilter conditions with
      | error cause =>
          simpa [Table.answer, changed, Table.deleteWhere, checked, Except.map] using Becomes.same
      | ok _ =>
          simpa [Table.answer, changed, Table.deleteWhere, checked, Except.map]
            using Becomes.removed _
  | mark ids moment => exact .marked ids moment
  | due now => exact .same

/-- Every answer leaves the table kept; it is looked at by what the table becomes and not call by
call. -/
theorem Kept.answer (h : t.Kept) {fresh : Uuid} {c : Call} (accepted : t.accepts fresh c)
    : (Table.answer fresh c t).2.Kept := by
  have becomes := becomes_answer t fresh c
  generalize (Table.answer fresh c t).2 = after at becomes ⊢
  cases becomes with
  | same => exact h
  | added prepared =>
      have unused : t.find? fresh = none := by
        simpa [accepts, contains_eq_isSome] using accepted
      constructor
      · apply ordered_insertInto h.ordered
        intro other member same
        have found := h.find?_eq_some_iff.mpr ⟨member, same⟩
        simp [unused] at found
      · intro other member
        rcases List.mem_cons.mp ((perm_insertInto _ _).subset member) with rfl | earlier
        · simp [of_prepare prepared, Event.normalize, Function.comp_def]
        · exact h.whole other earlier
  | updated prepared found =>
      apply h.replace
      simp [of_prepare prepared, Event.normalize, Function.comp_def]
  | removed keep => exact h.filter keep
  | marked ids moment => exact h.mark ids moment

/-- An update sets the mark of its event as it says, when a store takes it, and no other mark. -/
theorem mark_update {fresh : Uuid} {new : Event} (before : t.find? id = some e)
    (after : (Table.answer fresh (.update new) t).2.find? id = some e')
    : e'.notified
      = if id = new.id ∧ (prepare new).isOk then new.notified.map Instant.truncate
        else e.notified := by
  rw [answer_update] at after
  cases prepared : prepare new with
  | error cause =>
      obtain rfl : e = e' := by simpa [prepared, before] using after
      simp [Except.isOk, Except.toBool]
  | ok stored =>
      obtain rfl := of_prepare prepared
      by_cases same : id = new.id
      · subst same
        have found : t.find? new.normalize.id = some e := before
        obtain rfl : { new.normalize with owner := e.owner } = e' := by
          simpa [prepared, found, find?_replace, before, Event.normalize] using after
        simp [Except.isOk, Except.toBool, Event.normalize]
      · have apart : id ≠ new.normalize.id := same
        obtain rfl : e = e' := by
          cases found : t.find? new.normalize.id <;>
            simpa [prepared, found, find?_replace, before, apart] using after
        simp [same]

theorem exists_find?_update {fresh : Uuid} {new : Event} (accepted : (prepare new).isOk)
    (before : t.find? new.id = some e)
    : ∃ e', (Table.answer fresh (.update new) t).2.find? new.id = some e' := by
  rw [answer_update]
  cases prepared : prepare new with
  | error cause => simp [prepared, Except.isOk, Except.toBool] at accepted
  | ok stored =>
      obtain rfl := of_prepare prepared
      exact ⟨{ new.normalize with owner := e.owner }, by
        simp [find?_replace, before, Event.normalize]⟩

end Table

end Almanac.Store
