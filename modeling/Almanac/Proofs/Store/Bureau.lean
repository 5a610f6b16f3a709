import Almanac.Proofs.Store.Interleaving

/-! A store and what owners and schedulers do there at once.
Every task goes on call by call, and the calls of different tasks come in any order.
-/

namespace Almanac

open Time Query Store

/-- What owners ask for. -/
inductive Request where
  | create (owner : Uuid) (e : Event)
  | get (id owner : Uuid)
  | update (id owner : Uuid) (e : Event)
  | delete (id owner : Uuid)
  | listBetween (owner : Uuid) (first last : Instant)
  | listFor (owner : Uuid) (first : Instant) (period : Period)

/-- What an owner is given when a request succeeds. -/
def Request.Result : Request → Type
  | .create _ _ | .get _ _ | .update _ _ _ => Event
  | .delete _ _ => Unit
  | .listBetween _ _ _ | .listFor _ _ _ => List Event

def Request.operation : (r : Request) → Ownership.Operation r.Result
  | .create owner e => Ownership.create owner e
  | .get id owner => Ownership.get id owner
  | .update id owner e => Ownership.update id owner e
  | .delete id owner => Ownership.delete id owner
  | .listBetween owner first last => Ownership.listBetween owner first last
  | .listFor owner first period => Ownership.listFor owner first period

/-- The task of a request is its operation. -/
def Request.task (r : Request) : Task :=
  .owner r.operation

/-- What happens at a store: a task begins, or one of those begun goes on by one step. -/
inductive Act where
  | request (r : Request)
  | notify (now : Instant)
  | sweep (settings : Dispatch.Settings) (now : Instant)
  | goOn (place : Nat) (fresh : Uuid) (published : Except Broker.QueueError Unit)

/-- The task that an act begins. -/
def Act.task? : Act → Option Task
  | .request r => some r.task
  | .notify now => some (.scheduler (Dispatch.notifyDue now))
  | .sweep settings now => some (.scheduler (Dispatch.purgeExpired settings now))
  | .goOn _ _ _ => none

/-- A store and the tasks that were begun there. -/
structure Bureau : Type 1 where
  table : Table
  tasks : List Task

namespace Bureau

def step (b : Bureau) : Act → Bureau
  | .request r => { b with tasks := b.tasks ++ [r.task] }
  | .notify now => { b with tasks := b.tasks ++ [.scheduler (Dispatch.notifyDue now)] }
  | .sweep settings now =>
      { b with tasks := b.tasks ++ [.scheduler (Dispatch.purgeExpired settings now)] }
  | .goOn place fresh published =>
      match b.tasks[place]? with
      | some task =>
          { table := (task.step b.table fresh published).2
            tasks := b.tasks.set place (task.step b.table fresh published).1 }
      | none => b

def run (b : Bureau) (acts : List Act) : Bureau :=
  acts.foldl step b

theorem run_append (b : Bureau) (acts more : List Act)
    : b.run (acts ++ more) = (b.run acts).run more :=
  List.foldl_append

theorem run_concat (b : Bureau) (acts : List Act) (act : Act)
    : b.run (acts ++ [act]) = (b.run acts).step act :=
  run_append b acts [act]

theorem step_of_task? {b : Bureau} {act : Act} {task : Task} (begins : act.task? = some task)
    : b.step act = { b with tasks := b.tasks ++ [task] } := by
  cases act <;> cases begins <;> rfl

theorem step_goOn {b : Bureau} {place : Nat} {task : Task} (present : b.tasks[place]? = some task)
    (fresh : Uuid) (published : Except Broker.QueueError Unit)
    : b.step (.goOn place fresh published)
      = { table := (task.step b.table fresh published).2
          tasks := b.tasks.set place (task.step b.table fresh published).1 } := by
  simp [step, present]

theorem step_goOn_of_none {b : Bureau} {place : Nat} (absent : b.tasks[place]? = none)
    (fresh : Uuid) (published : Except Broker.QueueError Unit)
    : b.step (.goOn place fresh published) = b := by
  simp [step, absent]

/-- An act changes the table by the next call of a task alone. -/
theorem table_step (b : Bureau) (act : Act)
    : (b.step act).table = b.table
      ∨ ∃ place fresh published task c, act = .goOn place fresh published
          ∧ b.tasks[place]? = some task ∧ task.call? = some c ∧ b.table.accepts fresh c
          ∧ (b.step act).table = (Table.answer fresh c b.table).2 := by
  cases act with
  | request r => exact .inl rfl
  | notify now => exact .inl rfl
  | sweep settings now => exact .inl rfl
  | goOn place fresh published =>
      cases present : b.tasks[place]? with
      | none => exact .inl (by rw [step_goOn_of_none present])
      | some task =>
          rw [step_goOn present]
          rcases task.table_step b.table fresh published with same | ⟨c, asks, accepted, eq⟩
          · exact .inl same
          · exact .inr ⟨place, fresh, published, task, c, rfl, present, asks, accepted, eq⟩

/-- A step of any task keeps the table, as it makes one call at most. -/
theorem kept_step {b : Bureau} (kept : b.table.Kept) (act : Act) : (b.step act).table.Kept := by
  rcases b.table_step act with same | ⟨_, _, _, _, c, -, -, -, accepted, eq⟩
  · rw [same]
    exact kept
  · rw [eq]
    exact kept.answer accepted

-------------------------------------------------------------------------------
-- Which act began which task
-------------------------------------------------------------------------------

/-- The acts that began tasks, in the order of the tasks. -/
def begun (acts : List Act) : List Act :=
  acts.filter (·.task?.isSome)

theorem begun_append (acts more : List Act) : begun (acts ++ more) = begun acts ++ begun more :=
  List.filter_append acts more

/-- A relation between the act that began a task and what remains of the task, at each place. -/
structure InPlace (related : Nat → Act → Task → Prop) (started : List Act) (tasks : List Task)
    : Prop where
  length : started.length = tasks.length
  fits
    : ∀ {place act task}, started[place]? = some act → tasks[place]? = some task →
        related place act task

theorem InPlace.nil {related : Nat → Act → Task → Prop} : InPlace related [] [] :=
  ⟨rfl, by simp⟩

/-- A relation that holds of tasks as they begin, and that their steps keep, holds after any act. -/
theorem InPlace.step {b : Bureau} {started : List Act} {related next : Nat → Act → Task → Prop}
    (h : InPlace related started b.tasks) (act : Act)
    (begins : ∀ task, act.task? = some task → next started.length act task)
    (stays : ∀ {place starter task}, related place starter task → next place starter task)
    (goesOn
      : ∀ {place fresh published starter task}, act = .goOn place fresh published →
          b.tasks[place]? = some task → related place starter task →
          next place starter (task.step b.table fresh published).1)
    : InPlace next (started ++ begun [act]) (b.step act).tasks := by
  cases begun? : act.task? with
  | some task =>
      rw [step_of_task? begun?]
      have first : begun [act] = [act] := by simp [begun, begun?]
      refine ⟨by simp [first, h.length], ?_⟩
      intro place starter other started? task?
      rw [first] at started?
      rcases Nat.lt_trichotomy place started.length with before | rfl | after
      · rw [List.getElem?_append_left before] at started?
        rw [List.getElem?_append_left (h.length ▸ before)] at task?
        exact stays (h.fits started? task?)
      · obtain rfl : act = starter := by simpa using started?
        obtain rfl : task = other := by simpa [h.length] using task?
        exact begins task begun?
      · have none : (started ++ [act])[place]? = none := by
          simp only [List.getElem?_eq_none_iff, List.length_append, List.length_singleton]
          omega
        simp [none] at started?
  | none =>
      have nothing : begun [act] = [] := by simp [begun, begun?]
      rw [nothing, List.append_nil]
      cases act with
      | goOn place fresh published =>
          cases present : b.tasks[place]? with
          | none =>
              rw [step_goOn_of_none present]
              exact ⟨h.length, fun started? task? => stays (h.fits started? task?)⟩
          | some task =>
              rw [step_goOn present]
              refine ⟨by simp [h.length], ?_⟩
              intro other starter rest started? rest?
              by_cases same : place = other
              · subst same
                have inside : place < b.tasks.length := (List.getElem?_eq_some_iff.mp present).1
                obtain rfl : (task.step b.table fresh published).1 = rest := by
                  simpa [inside] using rest?
                exact goesOn rfl present (h.fits started? present)
              · rw [List.getElem?_set_ne same] at rest?
                exact stays (h.fits started? rest?)
      | request r => cases begun?
      | notify now => cases begun?
      | sweep settings now => cases begun?

-------------------------------------------------------------------------------
-- An event for runs at fixed inputs
-------------------------------------------------------------------------------

/-- The instant at which the meeting starts, and at which its notification is due. -/
def noon : Instant :=
  .ofParts 1717243200 0 (by omega)

/-- An event that is due when it starts. -/
def meeting : Event :=
  { id := .nil
    owner := .nil
    title := "meeting"
    description := ""
    start := noon
    finish := noon
    lead := .zero
    notified := none }

end Bureau

end Almanac
