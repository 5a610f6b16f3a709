import Almanac.Proofs.Store.Owners
import Almanac.Proofs.Store.Usage

/-! Requests of owners, served one after the other at a store that draws identifiers for new events.
Each operation is run alone here, so it comes to what the table says when it begins.
-/

namespace Almanac

open Time Query Store

-------------------------------------------------------------------------------
-- Processes whose questions may stay without a reply
-------------------------------------------------------------------------------

namespace Process

variable {Ask : Type} {Reply : Ask → Type} {α σ : Type}

/-- Runs a process alone, where a question may stay without a reply. -/
def run? (answer : (question : Ask) → σ → Option (Reply question × σ))
    : Process Ask Reply α → σ → Option (α × σ)
  | .done result, s => some (result, s)
  | .ask question next, s => (answer question s).bind fun (reply, s) => (next reply).run? answer s

/-- A process that has a reply to every question runs as ever. -/
theorem run?_eq_run (answer : (question : Ask) → σ → Reply question × σ)
    (p : Process Ask Reply α) (s : σ)
    : p.run? (fun question s => some (answer question s)) s = some (p.run answer s) := by
  induction p generalizing s with
  | done result => rfl
  | ask question next ih => exact ih _ _

end Process

-------------------------------------------------------------------------------
-- A store and its generator
-------------------------------------------------------------------------------

/-- A store, and the identifiers that its generator is going to draw. -/
structure Desk where
  table : Table
  outputs : List Uuid

namespace Desk

/-- What is left to be drawn after a call. A new event takes all up to the first that is unused. -/
def left (d : Desk) (c : Call) : List Uuid :=
  if c.files then (d.outputs.dropWhile d.table.contains).tail else d.outputs

/-- The answer to a call, unless it needs an identifier and all that are drawn are in use. -/
def reply? (c : Call) (d : Desk) : Option (c.Answer × Desk) :=
  (d.table.reply? d.outputs c).map fun (answer, table) => (answer, ⟨table, d.left c⟩)

/-- Runs an operation alone. -/
def perform? {α : Type} (d : Desk) (op : Ownership.Operation α)
    : Option (Except AccessError α × Desk) :=
  op.run? reply? d

/-- Serves requests in turn, up to one that is left without a result. It gives the results. -/
def serve (d : Desk) : List Request → List ((r : Request) × Except AccessError r.Result) × Desk
  | [] => ([], d)
  | r :: requests =>
      match d.perform? r.operation with
      | some (result, d) => (⟨r, result⟩ :: (d.serve requests).1, (d.serve requests).2)
      | none => ([], d)

variable {d : Desk} {id owner : Uuid} {e stored : Event}

-------------------------------------------------------------------------------
-- What operations come to
-------------------------------------------------------------------------------

section Calls

variable {α : Type} {c : Call}

/-- An operation goes on from a call that files no event with what the table answers. -/
theorem perform?_call (plain : c.files = false) (next : c.Result → Ownership.Operation α)
    : d.perform? (Ownership.call c next)
      = perform? { d with table := (Table.answer .nil c d.table).2 }
          (Ownership.resume next (Table.answer .nil c d.table).1) := by
  rw [Ownership.call_eq]
  simp [perform?, Process.run?, reply?, Table.reply?, left, plain]

/-- An operation on an event that exists looks who owns it, and changes nothing before. -/
theorem perform?_fetch (d : Desk) (id owner : Uuid) (next : Event → Ownership.Operation α)
    : d.perform? (Ownership.fetch id owner next)
      = match d.table.find? id with
        | some e =>
            if e.owner = owner then d.perform? (next e) else some (.error (.denied id), d)
        | none => some (.error (.notFound id), d) := by
  rw [Ownership.fetch, perform?_call rfl]
  cases found : d.table.find? id with
  | none => simp [Table.answer, Table.unchanged, Table.get, found]; rfl
  | some e =>
      simp only [Table.answer, Table.unchanged, Table.get, found, Ownership.resume]
      split <;> rfl

end Calls

/-- A new event takes the first identifier drawn that is not in use. -/
theorem perform?_create (d : Desk) (owner : Uuid) (e : Event)
    : d.perform? (Ownership.create owner e)
      = match prepare { e with owner, notified := none } with
        | .ok normal =>
            (d.table.firstUnused? d.outputs).map fun fresh =>
              (.ok { normal with id := fresh },
                ⟨⟨Table.insertInto { normal with id := fresh } d.table.events⟩,
                  (d.outputs.dropWhile d.table.contains).tail⟩)
        | .error cause => some (.error (.ofStore cause), d) := by
  rw [Ownership.create, Ownership.call_eq]
  cases prepared : prepare { e with owner, notified := none } with
  | error cause =>
      simp [perform?, Process.run?, reply?, Table.reply?, left, Call.files, prepared, Except.isOk,
        Except.toBool, Table.answer_add_of_error, Ownership.resume]
  | ok normal =>
      cases first : d.table.firstUnused? d.outputs <;>
        simp [perform?, Process.run?, reply?, Table.reply?, left, Call.files, prepared, first,
          Except.isOk, Except.toBool, Table.answer_add_of_ok, Ownership.resume]

/-- An update of an owner's event puts the new one in its place, if a store can keep that. -/
theorem perform?_writeBack (present : d.table.find? id = some e) (belongs : e.owner = owner)
    (new : Event)
    : d.perform? (Ownership.writeBack id owner new e)
      = some
          (match prepare (replacement id owner new e) with
          | .ok stored => (.ok stored, { d with table := d.table.replace stored })
          | .error cause => (.error (.ofStore cause), d)) := by
  rw [Ownership.writeBack, perform?_call rfl]
  cases prepared : prepare (replacement id owner new e) with
  | error cause =>
      rw [Table.answer_update_of_error prepared]
      rfl
  | ok stored =>
      obtain rfl := Table.of_prepare prepared
      have found : d.table.find? (replacement id owner new e).normalize.id = some e := present
      -- The owner on record is the one who asks, so nothing is left of the old event.
      have same : { (replacement id owner new e).normalize with owner := e.owner }
          = (replacement id owner new e).normalize := by rw [belongs]; rfl
      rw [Table.answer_update_of_ok prepared found, same]
      change perform? _ (Ownership.call (.get id) fun stored => .done (.ok stored)) = _
      rw [perform?_call rfl]
      have read : (d.table.replace (replacement id owner new e).normalize).find? id
          = some (replacement id owner new e).normalize := by
        rw [Table.find?_replace, present]
        exact if_pos rfl
      simp only [Table.answer, Table.unchanged, Table.get, read]
      rfl

theorem perform?_remove (present : d.table.find? id = some e)
    : d.perform? (Ownership.call (.delete id) fun _ => .done (.ok ()))
      = some (.ok (), { d with table := ⟨d.table.events.filter (·.id ≠ id)⟩ }) := by
  have used : d.table.contains id := by simp [Table.contains_eq_isSome, present]
  rw [perform?_call rfl]
  simp only [Table.answer, Table.changed, Table.delete, used, if_true, Except.map]
  rfl

/-- Whether an event is one that a list for an owner asks for: its start lies between two instants,
cut to whole microseconds, or at one of them. -/
def inWindow (owner : Uuid) (first last : Instant) (e : Event) : Bool :=
  e.owner = owner && first.truncate ≤ e.start && e.start ≤ last.truncate

/-- The order of lists: by start and then by end. -/
def byStart : List SortKey :=
  [.ascending .start, .ascending .finish]

theorem holds_owner (owner : Uuid) (e : Event)
    : (Condition.of .owner .eq (.one .identifier owner)).holds e = decide (e.owner = owner) := by
  simp [Condition.of, Condition.holds, Operand.truncate, Field.value?, Operand.compare?,
    Kind.truncate, Kind.compare, Operator.accepts, Field.kind, compare_eq_iff_eq]

theorem holds_from (first : Instant) (e : Event)
    : (Condition.of .start .ge (.one .instant first)).holds e
      = decide (first.truncate ≤ e.start) := by
  simp [Condition.of, Condition.holds, Operand.truncate, Field.value?, Operand.compare?,
    Kind.truncate, Kind.compare, Operator.accepts, Field.kind, compare_lt_iff_lt]

theorem holds_upTo (last : Instant) (e : Event)
    : (Condition.of .start .le (.one .instant last)).holds e
      = decide (e.start ≤ last.truncate) := by
  simp [Condition.of, Condition.holds, Operand.truncate, Field.value?, Operand.compare?,
    Kind.truncate, Kind.compare, Operator.accepts, Field.kind, compare_gt_iff_gt]

/-- A list has the events that it asks for, in its order, and changes nothing. -/
theorem perform?_listBetween (d : Desk) (owner : Uuid) (first last : Instant)
    : d.perform? (Ownership.listBetween owner first last)
      = some (.ok (sortBy byStart (d.table.events.filter (inWindow owner first last))), d) := by
  have asked : holdsAll
      [.of .owner .eq (.one .identifier owner), .of .start .ge (.one .instant first),
        .of .start .le (.one .instant last)]
      = inWindow owner first last := by
    funext e
    simp [holdsAll, holds_owner, holds_from, holds_upTo, inWindow, Bool.and_assoc]
  have listed : Table.answer .nil
      (.query
        [.of .owner .eq (.one .identifier owner), .of .start .ge (.one .instant first),
          .of .start .le (.one .instant last)]
        [.ascending .start, .ascending .finish]) d.table
      = (.ok (sortBy byStart (d.table.events.filter (inWindow owner first last))), d.table) := by
    rw [← asked]
    rfl
  rw [Ownership.listBetween, perform?_call rfl, listed]
  rfl

end Desk

end Almanac
