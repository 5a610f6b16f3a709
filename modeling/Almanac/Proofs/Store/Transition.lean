import Almanac.Proofs.Store.Marks

/-! What a call on a store does to the record of one identifier. -/

namespace Almanac.Store

open Time Query

namespace Table

variable {t : Table} {fresh id : Uuid} {c : Call} {e e' : Event}

-------------------------------------------------------------------------------
-- Marking, record by record
-------------------------------------------------------------------------------

/-- An event with a later mark, unless the one that it has is as late. -/
def advance (moment : Instant) (e : Event) : Event :=
  if advances moment e then { e with notified := some moment } else e

theorem advance_of_advances {moment : Instant} (later : advances moment e)
    : advance moment e = { e with notified := some moment } :=
  if_pos later

theorem advance_of_not_advances {moment : Instant} (passed : ¬advances moment e)
    : advance moment e = e :=
  if_neg passed

/-- Marking twice with one moment is marking once, since a mark at that moment no longer lies
before it. -/
theorem advance_advance (moment : Instant) (e : Event)
    : advance moment (advance moment e) = advance moment e := by
  by_cases later : advances moment e
  · rw [advance_of_advances later]
    exact advance_of_not_advances (by simp [advances])
  · rw [advance_of_not_advances later, advance_of_not_advances later]

/-- A single mark never sets an event back: it is raised where it lies before the moment and stays
otherwise. -/
theorem upholds_advance (moment : Instant) (e : Event)
    : Upholds (advance moment e).notified e.notified := by
  by_cases later : advances moment e
  · rw [advance_of_advances later]
    exact .of_advances later
  · rw [advance_of_not_advances later]
    exact .refl _

/-- After one mark, every event is found as before, but for the marked one, which is found
advanced; its entry alone was replaced, under the identifier it has. -/
theorem find?_markOne (moment : Instant) (state : Nat × Table) (target id : Uuid)
    : (markOne moment state target).2.find? id
      = (state.2.find? id).map fun e => if id = target then advance moment e else e := by
  obtain ⟨e, found, later, raised⟩ | ⟨late, same⟩ := markOne_cases moment state target
  · obtain ⟨-, rfl⟩ := mem_of_find? found
    rw [raised, find?_replace]
    by_cases here : id = e.id
    · simp [here, found, advance_of_advances later]
    · simp [here]
  · rw [same]
    cases found : state.2.find? id with
    | none => rfl
    | some e =>
        by_cases here : id = target
        · subst here
          rw [Option.map_some, if_pos rfl, advance_of_not_advances (late e found)]
        · rw [Option.map_some, if_neg here]

/-- After marking a list, the events listed are found advanced and the others as before. By
induction on the list; an identifier listed twice is met by `advance_advance`. -/
theorem find?_foldl_markOne (moment : Instant) (ids : List Uuid) (state : Nat × Table) (id : Uuid)
    : (ids.foldl (markOne moment) state).2.find? id
      = (state.2.find? id).map fun e => if id ∈ ids then advance moment e else e := by
  induction ids generalizing state with
  | nil => simp
  | cons target ids ih =>
      rw [List.foldl_cons, ih, find?_markOne, Option.map_map]
      congr 1
      funext e
      by_cases same : id = target <;> by_cases later : id ∈ ids <;>
        simp [same, later, advance_advance]

/-- Marking advances the events that are listed, each once. -/
theorem find?_mark (t : Table) (ids : List Uuid) (moment : Instant) (id : Uuid)
    : (t.mark ids moment).2.find? id
      = (t.find? id).map fun e => if id ∈ ids then advance moment.truncate e else e :=
  find?_foldl_markOne moment.truncate ids (0, t) id

/-- What marking makes of a table does not depend on what was counted before. -/
theorem snd_foldl_markOne (moment : Instant) (ids : List Uuid) (state : Nat × Table)
    : (ids.foldl (markOne moment) state).2 = (ids.foldl (markOne moment) (0, state.2)).2 := by
  induction ids generalizing state with
  | nil => rfl
  | cons target ids ih =>
      have first : (markOne moment state target).2 = (markOne moment (0, state.2) target).2 := by
        unfold markOne
        cases state.2.find? target with
        | none => rfl
        | some e =>
            dsimp only
            split <;> rfl
      rw [List.foldl_cons, List.foldl_cons, ih, first, ← ih]

/-- Marking is marking the first event and then the others. -/
theorem mark_cons (t : Table) (id : Uuid) (ids : List Uuid) (moment : Instant)
    : (t.mark (id :: ids) moment).2 = ((t.mark [id] moment).2.mark ids moment).2 :=
  snd_foldl_markOne moment.truncate ids (markOne moment.truncate (0, t) id)

theorem id_advance (moment : Instant) (e : Event) : (advance moment e).id = e.id := by
  unfold advance
  split <;> rfl

/-- What `find?_markOne` says of lookups, said of the whole table; here the order is needed, since
only then one event at most carries the identifier. -/
theorem events_markOne {state : Nat × Table}
    (ordered : state.2.events.Pairwise fun a b => a.id < b.id) (moment : Instant) (target : Uuid)
    : (markOne moment state target).2.events
      = state.2.events.map fun e => if e.id = target then advance moment e else e := by
  obtain ⟨stored, found, later, raised⟩ | ⟨late, same⟩ := markOne_cases moment state target
  · obtain ⟨present, rfl⟩ := mem_of_find? found
    simp only [raised, replace]
    refine List.map_congr_left fun e here => ?_
    by_cases tagged : e.id = stored.id
    · obtain rfl : e = stored := eq_of_id_eq ordered here present tagged
      simp [advance_of_advances later]
    · simp [tagged]
  · rw [same]
    refine ((List.map_congr_left fun e here => ?_).trans (List.map_id' _)).symm
    by_cases tagged : e.id = target
    · have found : state.2.find? target = some e := tagged ▸ find?_of_mem ordered here
      rw [if_pos tagged, advance_of_not_advances (late e found)]
    · rw [if_neg tagged]

/-- Marking maps the records, as long as each identifier is used once. By induction on the
identifiers that are listed. -/
theorem events_foldl_markOne {state : Nat × Table}
    (ordered : state.2.events.Pairwise fun a b => a.id < b.id) (moment : Instant) (ids : List Uuid)
    : (ids.foldl (markOne moment) state).2.events
      = state.2.events.map fun e => if e.id ∈ ids then advance moment e else e := by
  induction ids generalizing state with
  | nil => simp
  | cons target ids ih =>
      have first := events_markOne ordered moment target
      have still : (markOne moment state target).2.events.Pairwise fun a b => a.id < b.id := by
        rw [first, List.pairwise_map]
        refine ordered.imp fun {a b} less => ?_
        split <;> split <;> simpa only [id_advance] using less
      rw [List.foldl_cons, ih still, first, List.map_map]
      refine List.map_congr_left fun e _ => ?_
      by_cases here : e.id = target <;> by_cases later : e.id ∈ ids <;>
        simp [here, later, id_advance, advance_advance]

/-- A call that marks events maps the table, in place and in order. -/
theorem events_mark (ordered : t.events.Pairwise fun a b => a.id < b.id) (ids : List Uuid)
    (moment : Instant)
    : (t.mark ids moment).2.events
      = t.events.map fun e => if e.id ∈ ids then advance moment.truncate e else e :=
  @events_foldl_markOne (0, t) ordered moment.truncate ids

-------------------------------------------------------------------------------
-- Filing and removing, record by record
-------------------------------------------------------------------------------

/-- Lookups commute with a filter, since identifiers are unique and an event that is filtered out
has no other to take its place. -/
theorem Kept.find?_filter (h : t.Kept) (keep : Event → Bool) (id : Uuid)
    : find? ⟨t.events.filter keep⟩ id = (t.find? id).filter keep := by
  ext e
  rw [(h.filter keep).find?_eq_some_iff, Option.filter_eq_some_iff, h.find?_eq_some_iff,
    List.mem_filter]
  exact and_right_comm

/-- An inserted event is found under its identifier, and every other one as before. -/
theorem Kept.find?_insertInto (h : t.Kept) (after : Kept ⟨insertInto e t.events⟩) (id : Uuid)
    : find? ⟨insertInto e t.events⟩ id = if id = e.id then some e else t.find? id := by
  have member (other : Event) : other ∈ insertInto e t.events ↔ other = e ∨ other ∈ t.events := by
    rw [(perm_insertInto e t.events).mem_iff, List.mem_cons]
  by_cases same : id = e.id
  · rw [if_pos same, after.find?_eq_some_iff]
    exact ⟨(member e).mpr (.inl rfl), same.symm⟩
  · rw [if_neg same]
    ext other
    rw [after.find?_eq_some_iff, h.find?_eq_some_iff, member]
    constructor
    · rintro ⟨rfl | earlier, rfl⟩
      · exact absurd rfl same
      · exact ⟨earlier, rfl⟩
    · rintro ⟨earlier, rfl⟩
      exact ⟨.inr earlier, rfl⟩

-------------------------------------------------------------------------------
-- Any call, record by record
-------------------------------------------------------------------------------

/-- What a call can make of the record of an identifier. -/
inductive Turns (fresh id : Uuid) : Call → Option Event → Option Event → Prop where
  | stays {c : Call} (record : Option Event) : Turns fresh id c record record
  | filed {new stored : Event} (prepared : prepare new = .ok stored) (issued : id = fresh)
    : Turns fresh id (.add new) none (some { stored with id := fresh })
  | rewritten {new stored old : Event} (prepared : prepare new = .ok stored) (same : id = new.id)
    : Turns fresh id (.update new) (some old) (some { stored with owner := old.owner })
  | deleted (e : Event) : Turns fresh id (.delete id) (some e) none
  | swept {conditions : List Condition} {e : Event} (meets : holdsAll conditions e)
    : Turns fresh id (.deleteWhere conditions) (some e) none
  | marked {ids : List Uuid} {moment : Instant} (listed : id ∈ ids) (e : Event)
    : Turns fresh id (.mark ids moment) (some e) (some (advance moment.truncate e))

/-- The record of an identifier turns as the call can make it, by cases on the call. -/
theorem Kept.turns (h : t.Kept) (accepted : t.accepts fresh c) (id : Uuid)
    : Turns fresh id c (t.find? id) ((Table.answer fresh c t).2.find? id) := by
  have after := h.answer accepted
  cases c with
  | add new =>
      cases prepared : prepare new with
      | error cause =>
          simpa [Table.answer, changed, Table.add, prepared, Except.map] using Turns.stays _
      | ok stored =>
          have filed : (Table.answer fresh (.add new) t).2
              = ⟨insertInto { stored with id := fresh } t.events⟩ := by
            simp [Table.answer, changed, Table.add, prepared, Except.map]
          rw [filed] at after ⊢
          rw [h.find?_insertInto after]
          by_cases same : id = fresh
          · have unused : t.find? id = none := by
              simpa [accepts, contains_eq_isSome, same] using accepted
            rw [unused, if_pos same]
            exact .filed prepared same
          · rw [if_neg same]
            exact .stays _
  | update new =>
      rw [answer_update]
      cases prepared : prepare new with
      | error cause => exact .stays _
      | ok stored =>
          have tagged : stored.id = new.id := by rw [of_prepare prepared]; rfl
          dsimp only
          cases found : t.find? stored.id with
          | none => exact .stays _
          | some old =>
              dsimp only
              rw [find?_replace]
              by_cases same : id = stored.id
              · rw [if_pos same, same, found]
                exact .rewritten prepared tagged
              · rw [if_neg same]
                exact .stays _
  | delete target =>
      by_cases used : t.contains target
      · have removed : (Table.answer fresh (.delete target) t).2
            = ⟨t.events.filter (·.id ≠ target)⟩ := by
          simp [Table.answer, changed, Table.delete, used, Except.map]
        rw [removed, h.find?_filter]
        cases found : t.find? id with
        | none => exact .stays _
        | some e =>
            obtain ⟨-, rfl⟩ := mem_of_find? found
            by_cases same : e.id = target
            · subst same
              simpa [Option.filter] using Turns.deleted e
            · simpa [Option.filter, same] using Turns.stays _
      · simpa [Table.answer, changed, Table.delete, used, Except.map] using Turns.stays _
  | get target => exact .stays _
  | query conditions keys => exact .stays _
  | deleteWhere conditions =>
      cases checked : checkFilter conditions with
      | error cause =>
          simpa [Table.answer, changed, Table.deleteWhere, checked, Except.map] using Turns.stays _
      | ok _ =>
          have removed : (Table.answer fresh (.deleteWhere conditions) t).2
              = ⟨t.events.filter fun e => !holdsAll conditions e⟩ := by
            simp [Table.answer, changed, Table.deleteWhere, checked, Except.map]
          rw [removed, h.find?_filter]
          cases found : t.find? id with
          | none => exact .stays _
          | some e =>
              by_cases meets : holdsAll conditions e
              · simpa [Option.filter, meets] using Turns.swept meets
              · simpa [Option.filter, meets] using Turns.stays _
  | mark ids moment =>
      have marked : (Table.answer fresh (.mark ids moment) t).2 = (t.mark ids moment).2 := rfl
      rw [marked, find?_mark]
      cases found : t.find? id with
      | none => exact .stays _
      | some e =>
          by_cases listed : id ∈ ids
          · simpa [listed] using Turns.marked listed e
          · simpa [listed] using Turns.stays _
  | due now => exact .stays _

/-- An identifier in use keeps its owner. -/
theorem Kept.owner_answer (h : t.Kept) (accepted : t.accepts fresh c) (before : t.find? id = some e)
    (after : (Table.answer fresh c t).2.find? id = some e')
    : e'.owner = e.owner := by
  have turns := h.turns accepted id
  rw [before, after] at turns
  cases turns with
  | stays => rfl
  | rewritten prepared same => rfl
  | marked listed =>
      unfold advance
      split <;> rfl

/-- A call that is no update upholds the marks of the events that it leaves. -/
theorem Kept.upholds_answer (h : t.Kept) (accepted : t.accepts fresh c)
    (noUpdate : ∀ new, c ≠ .update new) (before : t.find? id = some e)
    (after : (Table.answer fresh c t).2.find? id = some e')
    : Upholds e'.notified e.notified := by
  have turns := h.turns accepted id
  rw [before, after] at turns
  cases turns with
  | stays => exact .refl _
  | rewritten prepared same => exact absurd rfl (noUpdate _)
  | marked listed => exact upholds_advance _ e

end Table

end Almanac.Store
