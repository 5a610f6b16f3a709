import Almanac.Dispatch.Pass
import Almanac.Ownership
import Almanac.Proofs.Store.Marks

/-! Owners and schedulers at work on one store, call by call and in any order.
Each call is one atomic step. Only an update writes back what an earlier call of it has read.
-/

namespace Almanac

open Time Query Store

/-- Whether every question that a process may come to ask is one of some kind. -/
def Process.Asks {Ask : Type} {Reply : Ask → Type} {α : Type} (kind : Ask → Prop)
    : Process Ask Reply α → Prop
  | .done _ => True
  | .ask question next => kind question ∧ ∀ reply, (next reply).Asks kind

namespace Store

/-- What replaces an event, with the owner who asks for it and the mark that was read. -/
def replacement (id owner : Uuid) (new read : Event) : Event :=
  { new with id, owner, notified := read.notified }

end Store

namespace Ownership

/-- An update that has read the event of its owner. -/
def writeBack (id owner : Uuid) (new read : Event) : Operation Event :=
  call (.update (replacement id owner new read)) fun _ =>
    call (.get id) fun stored => .done (.ok stored)

theorem update_eq (id owner : Uuid) (new : Event)
    : update id owner new = fetch id owner (writeBack id owner new) := rfl

def Plain (c : Call) : Prop :=
  ∀ e, c ≠ .update e

/-- How an operation goes on with the answer to a call. -/
def resume {α β : Type} (next : β → Operation α) : Except StoreError β → Operation α
  | .ok result => next result
  | .error cause => .done (.error (.ofStore cause))

theorem call_eq {α : Type} (c : Call) (next : c.Result → Operation α)
    : call c next = .ask c (resume next) := by
  refine congrArg (Process.ask c) (funext fun answer => ?_)
  cases answer <;> rfl

/-- An operation makes no update after a call when what follows a result makes none. -/
theorem asks_resume {α β : Type} {next : β → Operation α}
    (later : ∀ result, (next result).Asks Plain) (answer : Except StoreError β)
    : (resume next answer).Asks Plain := by
  cases answer with
  | ok result => exact later result
  | error cause => trivial

theorem asks_call {α : Type} {c : Call} {next : c.Result → Operation α} (plain : Plain c)
    (later : ∀ result, (next result).Asks Plain)
    : (call c next).Asks Plain := by
  rw [call_eq]
  exact ⟨plain, asks_resume later⟩

theorem asks_fetch {α : Type} {id owner : Uuid} {next : Event → Operation α}
    (later : ∀ e, (next e).Asks Plain)
    : (fetch id owner next).Asks Plain := by
  apply asks_call (by simp [Plain])
  intro e
  split
  · exact later e
  · trivial

end Ownership

namespace Dispatch

def Plain : Ask → Prop
  | .store c => Ownership.Plain c
  | .publish _ => True

/-- Dispatching makes no update, by induction on the events. -/
theorem asks_dispatchAll (now : Instant) (events : List Event) (report : Report)
    : (dispatchAll now events report).Asks Plain := by
  induction events generalizing report with
  | nil => trivial
  | cons e events ih =>
      unfold dispatchAll
      split
      · exact ih _
      · refine ⟨trivial, fun published => ?_⟩
        cases published with
        | error cause => exact ih _
        | ok _ =>
            refine ⟨by simp [Plain, Ownership.Plain], fun marked => ?_⟩
            cases marked with
            | error cause => exact ih _
            | ok _ => exact ih _

/-- A pass that notifies makes no update. -/
theorem asks_notifyDue (now : Instant) : (notifyDue now).Asks Plain := by
  refine ⟨by simp [Plain, Ownership.Plain], fun reply => ?_⟩
  cases reply with
  | error cause => trivial
  | ok events => exact asks_dispatchAll now events _

/-- A pass that sweeps makes no update. -/
theorem asks_purgeExpired (settings : Settings) (now : Instant)
    : (purgeExpired settings now).Asks Plain := by
  unfold purgeExpired
  split
  · trivial
  · refine ⟨by simp [Plain, Ownership.Plain], fun reply => ?_⟩
    cases reply <;> trivial

end Dispatch

/-- Work under way at a store: what remains of an owner's operation or of a scheduler's pass. -/
inductive Task : Type 1 where
  | owner {α : Type} (rest : Ownership.Operation α)
  | scheduler {α : Type} (rest : Dispatch.Pass α)

namespace Task

/-- One step of a task. The store answers its call, with an identifier at hand for a new event; what
the broker says of a publication is given. -/
def step (t : Table) (fresh : Uuid) (published : Except Broker.QueueError Unit)
    : Task → Task × Table
  | .owner (.ask c next) =>
      if t.accepts fresh c then
        (.owner (next (Table.answer fresh c t).1), (Table.answer fresh c t).2)
      else (.owner (.ask c next), t)
  | .scheduler (.ask (.store c) next) =>
      if t.accepts fresh c then
        (.scheduler (next (Table.answer fresh c t).1), (Table.answer fresh c t).2)
      else (.scheduler (.ask (.store c) next), t)
  | .scheduler (.ask (.publish _) next) => (.scheduler (next published), t)
  | .owner (.done result) => (.owner (.done result), t)
  | .scheduler (.done result) => (.scheduler (.done result), t)

/-- The call that a task makes next. -/
def call? : Task → Option Call
  | .owner (.ask c _) => some c
  | .scheduler (.ask (.store c) _) => some c
  | _ => none

/-- A step changes the table by the next call alone. -/
theorem table_step (t : Table) (fresh : Uuid) (published : Except Broker.QueueError Unit)
    (task : Task)
    : (task.step t fresh published).2 = t
      ∨ ∃ c, task.call? = some c ∧ t.accepts fresh c
          ∧ (task.step t fresh published).2 = (Table.answer fresh c t).2 := by
  cases task with
  | owner rest =>
      cases rest with
      | done result => exact .inl rfl
      | ask c next =>
          by_cases accepted : t.accepts fresh c
          · exact .inr ⟨c, rfl, accepted, by simp [step, accepted]⟩
          · exact .inl (by simp [step, accepted])
  | scheduler rest =>
      cases rest with
      | done result => exact .inl rfl
      | ask question next =>
          cases question with
          | publish payload => exact .inl rfl
          | store c =>
              by_cases accepted : t.accepts fresh c
              · exact .inr ⟨c, rfl, accepted, by simp [step, accepted]⟩
              · exact .inl (by simp [step, accepted])

/-- How a task stands to what was read so far: it makes no update, it is an update that has not read
its event yet, or it is one that writes back the mark that it has read. -/
inductive Echoes (seen : Event → Prop) : Task → Prop where
  | plainOwner {α : Type} {rest : Ownership.Operation α} (plain : rest.Asks Ownership.Plain)
    : Echoes seen (.owner rest)
  | plainScheduler {α : Type} {rest : Dispatch.Pass α} (plain : rest.Asks Dispatch.Plain)
    : Echoes seen (.scheduler rest)
  | reads (id owner : Uuid) (new : Event) : Echoes seen (.owner (Ownership.update id owner new))
  | writes {id : Uuid} (owner : Uuid) (new : Event) {read : Event} (known : seen read)
    (same : read.id = id)
    : Echoes seen (.owner (Ownership.writeBack id owner new read))

theorem Echoes.mono {seen more : Event → Prop} {task : Task} (h : task.Echoes seen)
    (includes : ∀ e, seen e → more e)
    : task.Echoes more := by
  cases h with
  | plainOwner plain => exact .plainOwner plain
  | plainScheduler plain => exact .plainScheduler plain
  | reads id owner new => exact .reads id owner new
  | writes owner new known same => exact .writes owner new (includes _ known) same

/-- An update that a task makes next writes back a mark that was read. -/
theorem Echoes.writes_of_update {seen : Event → Prop} {task : Task} {e : Event}
    (h : task.Echoes seen) (updates : task.call? = some (.update e))
    : ∃ id owner new read, task = .owner (Ownership.writeBack id owner new read)
        ∧ e = replacement id owner new read ∧ seen read ∧ read.id = id := by
  cases h with
  | @plainOwner α rest plain =>
      cases rest with
      | done result => cases updates
      | ask c next => exact absurd (Option.some.inj updates) (plain.1 e)
  | @plainScheduler α rest plain =>
      cases rest with
      | done result => cases updates
      | ask question next =>
          cases question with
          | publish payload => cases updates
          | store c => exact absurd (Option.some.inj updates) (plain.1 e)
  | reads id owner new => cases updates
  | writes owner new known same =>
      cases updates
      exact ⟨_, owner, new, _, rfl, rfl, known, same⟩

/-- A call that is accepted is answered, and its operation goes on with the answer. -/
theorem step_call {α : Type} {t : Table} {fresh : Uuid} {c : Call} (accepted : t.accepts fresh c)
    (published : Except Broker.QueueError Unit) (next : c.Result → Ownership.Operation α)
    : (Task.owner (Ownership.call c next)).step t fresh published
      = (.owner (Ownership.resume next (Table.answer fresh c t).1),
          (Table.answer fresh c t).2) := by
  simp [Ownership.call_eq, step, accepted]

/-- What a task reads in a step is known to it afterwards, by cases on how it stands. -/
theorem Echoes.step {seen : Event → Prop} {task : Task} (h : task.Echoes seen) (t : Table)
    (fresh : Uuid) (published : Except Broker.QueueError Unit)
    : (task.step t fresh published).1.Echoes fun e => seen e ∨ t.find? e.id = some e := by
  have earlier : ∀ e, seen e → seen e ∨ t.find? e.id = some e := fun _ => .inl
  cases h with
  | @plainOwner α rest plain =>
      cases rest with
      | done result => exact .plainOwner plain
      | ask c next =>
          simp only [Task.step]
          split
          · exact .plainOwner (plain.2 _)
          · exact .plainOwner plain
  | @plainScheduler α rest plain =>
      cases rest with
      | done result => exact .plainScheduler plain
      | ask question next =>
          cases question with
          | publish payload => exact .plainScheduler (plain.2 _)
          | store c =>
              simp only [Task.step]
              split
              · exact .plainScheduler (plain.2 _)
              · exact .plainScheduler plain
  | reads id owner new =>
      rw [Ownership.update_eq, Ownership.fetch, step_call rfl]
      cases found : t.find? id with
      | none =>
          simp only [Table.answer, Table.unchanged, Table.get, found]
          exact .plainOwner trivial
      | some e =>
          simp only [Table.answer, Table.unchanged, Table.get, found, Ownership.resume]
          split
          · obtain ⟨-, same⟩ := Table.mem_of_find? found
            exact .writes owner new (.inr (same ▸ found)) same
          · exact .plainOwner trivial
  | writes owner new known same =>
      rw [Ownership.writeBack, step_call rfl]
      refine .plainOwner (Ownership.asks_resume (fun _ => ?_) _)
      exact Ownership.asks_call (by simp [Ownership.Plain]) fun _ => trivial

end Task

end Almanac
