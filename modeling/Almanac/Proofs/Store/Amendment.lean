import Almanac.Proofs.Store.Desk

/-! What an owner's update comes to at a store in use.
Three layers have a say: the owner who asks must be the one on record, the identifier, the owner and
the mark of the last notification are not the body's, and what is stored is in whole microseconds
and has an instant of notification. All the rest of the body replaces what was stored.
-/

namespace Almanac

open Time Store

-------------------------------------------------------------------------------
-- The new record
-------------------------------------------------------------------------------

/-- A body as a store keeps it in the place of a record: the identifier, the owner and the mark of
the last notification stay as they are on record. -/
def Event.amended (stored body : Event) : Event :=
  { body.normalize with id := stored.id, owner := stored.owner, notified := stored.notified }

/-- A table in which the record of an identifier was replaced, and nothing else. -/
structure Store.Table.Amends (t : Table) (id : Uuid) (new : Event) (after : Table) : Prop where
  stored : after.find? id = some new
  others : ∀ other, other ≠ id → after.find? other = t.find? other
  /-- No record comes or goes. -/
  used : after.events.map Event.id = t.events.map Event.id

namespace Store

variable {t : Table} {id caller : Uuid} {stored body : Event}

/-- Whether a store can keep a body depends on nothing that an update takes from the record. -/
theorem prepare_replacement (owner : Uuid) (body read : Event)
    : prepare (replacement id owner body read)
      = if body.normalize.notifyAt?.isSome then .ok (replacement id owner body read).normalize
        else .error (.outOfRange body.normalize.lead body.normalize.start) := by
  have same : (replacement id owner body read).normalize.notifyAt? = body.normalize.notifyAt? := rfl
  cases reached : body.normalize.notifyAt? with
  | none => simp only [prepare, same, reached]; rfl
  | some moment => simp only [prepare, same, reached]; rfl

/-- What an update writes over a record is the amended record, as marks on record are in whole
microseconds. -/
theorem normalize_replacement (whole : stored.notified.map Instant.truncate = stored.notified)
    (body : Event)
    : (replacement stored.id stored.owner body stored).normalize = stored.amended body := by
  simp only [replacement, Event.normalize, Event.amended, whole]

theorem Table.amends_replace (found : t.find? id = some stored) (body : Event)
    : t.Amends id (stored.amended body) (t.replace (stored.amended body)) where
  stored := by
    have here : id = (stored.amended body).id := (mem_of_find? found).2.symm
    rw [find?_replace, if_pos here, found, Option.map_some]
  others other differs := by
    have apart : other ≠ (stored.amended body).id := (mem_of_find? found).2.symm ▸ differs
    rw [find?_replace, if_neg apart]
  used := map_id_replace t _

end Store

-------------------------------------------------------------------------------
-- Updates
-------------------------------------------------------------------------------

namespace Desk

/-- What an update by a caller comes to, in order of precedence. Refusals change nothing. -/
inductive Updates (d : Desk) (id caller : Uuid) (body : Event)
    : Except AccessError Event × Desk → Prop
  /-- No record has the identifier. -/
  | notFound (absent : d.table.find? id = none)
    : Updates d id caller body (.error (.notFound id), d)
  /-- The record belongs to someone else. -/
  | denied {stored : Event} (found : d.table.find? id = some stored)
    (foreign : stored.owner ≠ caller)
    : Updates d id caller body (.error (.denied id), d)
  /-- The body as it would be stored has no instant of notification. -/
  | outOfRange {stored : Event} (found : d.table.find? id = some stored)
    (mine : stored.owner = caller) (unreachable : body.normalize.notifyAt? = none)
    : Updates d id caller body
        (.error (.store (.outOfRange body.normalize.lead body.normalize.start)), d)
  /-- Otherwise the amended record is stored and returned. -/
  | amended {stored : Event} {after : Table} (found : d.table.find? id = some stored)
    (mine : stored.owner = caller) (reachable : body.normalize.notifyAt?.isSome)
    (amends : d.table.Amends id (stored.amended body) after)
    : Updates d id caller body (.ok (stored.amended body), { d with table := after })

/-- Every update comes to what the record and the body say, at a table with any history. -/
theorem owner_updates (uses : List Use) (outputs : List Uuid) (id caller : Uuid)
    (body : Event)
    : ∃ outcome,
        perform? ⟨Table.empty.through uses, outputs⟩ (Ownership.update id caller body)
            = some outcome
          ∧ Updates ⟨Table.empty.through uses, outputs⟩ id caller body outcome := by
  have kept := Table.Stored.empty.through uses
  generalize Table.empty.through uses = t at kept
  rw [Ownership.update_eq, perform?_fetch]
  cases found : t.find? id with
  | none => exact ⟨_, rfl, .notFound found⟩
  | some stored =>
      obtain ⟨-, same⟩ := Table.mem_of_find? found
      by_cases mine : stored.owner = caller
      · simp only [if_pos mine]
        rw [perform?_writeBack found mine, prepare_replacement]
        subst same mine
        cases reached : body.normalize.notifyAt? with
        | none => exact ⟨_, rfl, .outOfRange found rfl reached⟩
        | some moment =>
            have record := normalize_replacement (kept.storable found).whole body
            refine ⟨_, rfl, ?_⟩
            simp only [Option.isSome_some, if_true, record]
            exact .amended found rfl (by simp [reached]) (Table.amends_replace found body)
      · simp only [if_neg mine]
        exact ⟨_, rfl, .denied found mine⟩

end Desk

end Almanac
