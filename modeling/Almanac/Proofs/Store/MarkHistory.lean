import Almanac.Proofs.Store.Bureau
import Almanac.Proofs.Store.Transition

/-! The marks of events in the course of any interleaving.
A mark is set back just when an update writes back one that was overtaken since it was read.
-/

namespace Almanac

open Time Query Store

namespace Bureau

-------------------------------------------------------------------------------
-- What was on record
-------------------------------------------------------------------------------

/-- Whether an event was on record before one of the acts. -/
def Saw (b : Bureau) (acts : List Act) (e : Event) : Prop :=
  ∃ earlier act later, acts = earlier ++ act :: later
    ∧ (b.run earlier).table.find? e.id = some e

/-- What was on record before an act or one of those after it. -/
theorem saw_cons (b : Bureau) (act : Act) (acts : List Act) (e : Event)
    : b.Saw (act :: acts) e ↔ b.table.find? e.id = some e ∨ (b.step act).Saw acts e := by
  constructor
  · rintro ⟨earlier, first, later, split, found⟩
    cases earlier with
    | nil => exact .inl found
    | cons head earlier =>
        obtain ⟨rfl, rfl⟩ := List.cons.inj split
        exact .inr ⟨earlier, first, later, rfl, found⟩
  · rintro (now | ⟨earlier, first, later, rfl, found⟩)
    · exact ⟨[], act, acts, rfl, now⟩
    · exact ⟨act :: earlier, first, later, rfl, found⟩

-------------------------------------------------------------------------------
-- The invariant
-------------------------------------------------------------------------------

/-- What holds at a store, of the table, of the events seen so far and of the tasks. -/
structure Sound (b : Bureau) (seen : Event → Prop) : Prop where
  kept : b.table.Kept
  whole : ∀ e, seen e → e.notified.map Instant.truncate = e.notified
  echoes : ∀ task ∈ b.tasks, task.Echoes seen

variable {b : Bureau} {seen : Event → Prop} {id : Uuid} {e e' : Event}

theorem echoes_request (r : Request) : r.task.Echoes seen := by
  cases r with
  | create owner e =>
      exact .plainOwner (Ownership.asks_call (by simp [Ownership.Plain]) fun _ => trivial)
  | get id owner => exact .plainOwner (Ownership.asks_fetch fun _ => trivial)
  | update id owner e => exact .reads id owner e
  | delete id owner =>
      refine .plainOwner (Ownership.asks_fetch fun _ => ?_)
      exact Ownership.asks_call (by simp [Ownership.Plain]) fun _ => trivial
  | listBetween owner first last =>
      exact .plainOwner (Ownership.asks_call (by simp [Ownership.Plain]) fun _ => trivial)
  | listFor owner first period =>
      exact .plainOwner (Ownership.asks_call (by simp [Ownership.Plain]) fun _ => trivial)

/-- What is on record now is seen, and in whole microseconds. -/
theorem Sound.whole_now (h : b.Sound seen) (e : Event)
    (known : seen e ∨ b.table.find? e.id = some e)
    : e.notified.map Instant.truncate = e.notified := by
  rcases known with earlier | now
  · exact h.whole e earlier
  · exact h.kept.whole e (Table.mem_of_find? now).1

/-- Every act keeps the invariant, by cases on the act. -/
theorem Sound.step (h : b.Sound seen) (act : Act)
    : (b.step act).Sound fun e => seen e ∨ b.table.find? e.id = some e := by
  have before : ∀ task ∈ b.tasks,
      task.Echoes fun e => seen e ∨ b.table.find? e.id = some e := fun task member =>
    (h.echoes task member).mono fun _ => .inl
  have joined {task : Task} (new : task.Echoes fun e => seen e ∨ b.table.find? e.id = some e)
      : ∀ other ∈ b.tasks ++ [task],
          other.Echoes fun e => seen e ∨ b.table.find? e.id = some e := by
    intro other member
    rcases List.mem_append.mp member with earlier | last
    · exact before other earlier
    · rw [List.mem_singleton.mp last]
      exact new
  refine ⟨kept_step h.kept act, h.whole_now, ?_⟩
  cases act with
  | request r => exact joined (echoes_request r)
  | notify now => exact joined (.plainScheduler (Dispatch.asks_notifyDue now))
  | sweep settings now => exact joined (.plainScheduler (Dispatch.asks_purgeExpired settings now))
  | goOn place fresh published =>
      cases present : b.tasks[place]? with
      | none =>
          rw [step_goOn_of_none present]
          exact before
      | some task =>
          rw [step_goOn present]
          intro other changed
          rcases List.mem_or_eq_of_mem_set changed with earlier | rfl
          · exact before other earlier
          · exact (h.echoes task (List.mem_of_getElem? present)).step b.table fresh published

/-- The invariant holds after any acts, with all that was seen before one of them. By induction. -/
theorem Sound.run (h : b.Sound seen) (acts : List Act)
    : (b.run acts).Sound fun e => seen e ∨ b.Saw acts e := by
  induction acts generalizing b seen with
  | nil =>
      have none (e : Event) : ¬b.Saw [] e := by
        rintro ⟨earlier, act, later, split, -⟩
        simp at split
      simpa [Bureau.run, none] using h
  | cons act acts ih =>
      have later := ih (h.step act)
      simp only [saw_cons, ← or_assoc]
      exact later

-------------------------------------------------------------------------------
-- One step
-------------------------------------------------------------------------------

/-- An act by which an update writes back the mark that it has read of an event, after the event's
mark has overtaken it. The store takes what is written. -/
inductive Overtaken (b : Bureau) (id : Uuid) : Act → Prop where
  | intro {place : Nat} {fresh : Uuid} {published : Except Broker.QueueError Unit}
    {owner : Uuid} {new read e : Event}
    (task : b.tasks[place]? = some (.owner (Ownership.writeBack id owner new read)))
    (accepted : (prepare (replacement id owner new read)).isOk)
    (stored : b.table.find? id = some e)
    (behind : ¬Upholds read.notified e.notified)
    : Overtaken b id (.goOn place fresh published)

/-- The mark that an update is about to write back is in whole microseconds, as it was read. -/
theorem Sound.whole_read (h : b.Sound seen) {place : Nat} {owner : Uuid} {new read : Event}
    (task : b.tasks[place]? = some (.owner (Ownership.writeBack id owner new read)))
    : read.notified.map Instant.truncate = read.notified := by
  have echoes := h.echoes _ (List.mem_of_getElem? task)
  obtain ⟨_, _, _, known, -, same, seen, -⟩ :=
    echoes.writes_of_update (e := replacement id owner new read) rfl
  have mark : read.notified = known.notified := by
    simpa only [replacement] using congrArg Event.notified same
  rw [mark]
  exact h.whole known seen

/-- An update that goes on is a store's answer to its call. -/
theorem table_goOn {place : Nat} {fresh : Uuid} {published : Except Broker.QueueError Unit}
    {owner : Uuid} {new read : Event}
    (task : b.tasks[place]? = some (.owner (Ownership.writeBack id owner new read)))
    : (b.step (.goOn place fresh published)).table
      = (Table.answer fresh (.update (replacement id owner new read)) b.table).2 := by
  simp only [Bureau.step, task]
  rw [Ownership.writeBack, Task.step_call rfl]

theorem Sound.not_upholds (h : b.Sound seen) {act : Act} (overtaken : b.Overtaken id act)
    (before : b.table.find? id = some e) (after : (b.step act).table.find? id = some e')
    : ¬Upholds e'.notified e.notified := by
  cases overtaken with
  | intro task accepted stored behind =>
      rw [before] at stored
      cases stored
      rw [table_goOn task] at after
      have mark := Table.mark_update before after
      rw [if_pos ⟨rfl, accepted⟩] at mark
      rw [mark, replacement, h.whole_read task]
      exact behind

/-- No other act sets a mark back: a task that goes on makes an update of a mark that was not
overtaken, or no update. -/
theorem Sound.upholds (h : b.Sound seen) {act : Act} (calm : ¬b.Overtaken id act)
    (before : b.table.find? id = some e) (after : (b.step act).table.find? id = some e')
    : Upholds e'.notified e.notified := by
  rcases b.table_step act with same | ⟨place, fresh, _, task, c, rfl, present, asks, accepted, eq⟩
  · rw [same, before] at after
    cases after
    exact .refl _
  · rw [eq] at after
    by_cases plain : ∀ new, c ≠ .update new
    · exact h.kept.upholds_answer accepted plain before after
    · obtain ⟨written, rfl⟩ : ∃ written, c = .update written := by
        simpa only [not_forall, not_not] using plain
      -- Only an update of an owner asks so, and it has read the mark that it writes.
      have echoes := h.echoes task (List.mem_of_getElem? present)
      obtain ⟨target, owner, new, read, rfl, rfl, -⟩ := echoes.writes_of_update asks
      have mark := Table.mark_update before after
      split at mark
      · rename_i concerns
        obtain ⟨rfl, taken⟩ : id = target ∧ _ := concerns
        rw [mark, replacement, h.whole_read present]
        by_contra behind
        exact calm (.intro present taken before behind)
      · rw [mark]
        exact .refl _

/-- The event of an overtaken mark is still on record after the mark is set back. -/
theorem Overtaken.exists_after {act : Act} (overtaken : b.Overtaken id act)
    : ∃ e e', b.table.find? id = some e ∧ (b.step act).table.find? id = some e' := by
  cases overtaken with
  | intro task accepted stored behind =>
      obtain ⟨e', found⟩ := Table.exists_find?_update accepted stored
      rw [table_goOn task]
      exact ⟨_, e', stored, found⟩

-------------------------------------------------------------------------------
-- Whole runs
-------------------------------------------------------------------------------

/-- No mark goes back in the course of acts: from one moment of the run to a later one, as long as
the event stays on record, its mark is upheld. -/
def UpholdsMarks (b : Bureau) (acts : List Act) : Prop :=
  ∀ earlier middle later, acts = earlier ++ middle ++ later → ∀ id e e',
    (b.run earlier).table.find? id = some e →
    (∀ part rest, middle = part ++ rest → (b.run (earlier ++ part)).table.contains id) →
    (b.run (earlier ++ middle)).table.find? id = some e' →
    Upholds e'.notified e.notified

/-- Marks are upheld over acts of which none is an overtaken update, by induction on the acts. -/
theorem Sound.upholds_run (h : b.Sound seen) (acts : List Act)
    (calm : ∀ earlier act later, acts = earlier ++ act :: later → ¬(b.run earlier).Overtaken id act)
    (stays : ∀ part rest, acts = part ++ rest → (b.run part).table.contains id)
    (before : b.table.find? id = some e) (after : (b.run acts).table.find? id = some e')
    : Upholds e'.notified e.notified := by
  induction acts generalizing b seen e with
  | nil =>
      have same : b.table.find? id = some e' := after
      rw [before] at same
      cases same
      exact .refl _
  | cons act acts ih =>
      obtain ⟨middle, next⟩ : ∃ middle, (b.step act).table.find? id = some middle := by
        have used := stays [act] acts rfl
        rw [Table.contains_eq_isSome] at used
        exact Option.isSome_iff_exists.mp used
      have first := h.upholds (calm [] act acts rfl) before next
      have rest := ih (h.step act)
        (fun earlier other later split => calm (act :: earlier) other later (by rw [split]; rfl))
        (fun part rest split => stays (act :: part) rest (by rw [split]; rfl))
        next after
      exact rest.trans first

/-- Acts that uphold marks are no overtaken updates: such an act alone sets a mark back. -/
theorem Sound.not_overtaken (h : b.Sound seen) {acts earlier later : List Act} {act : Act}
    (upheld : b.UpholdsMarks acts) (split : acts = earlier ++ act :: later) (id : Uuid)
    : ¬(b.run earlier).Overtaken id act := by
  intro overtaken
  obtain ⟨e, e', before, after⟩ := overtaken.exists_after
  apply (h.run earlier).not_upholds overtaken before after
  refine upheld earlier [act] later (by simp [split]) id e e' before ?_ ?_
  · intro part rest parts
    rw [Table.contains_eq_isSome, run_append]
    rcases List.append_eq_singleton_iff.mp parts.symm with ⟨rfl, -⟩ | ⟨rfl, -⟩
    · exact before ▸ rfl
    · exact after ▸ rfl
  · rw [run_append]
    exact after

/-- Acts of which none is an overtaken update uphold marks, from any moment of the run on. -/
theorem Sound.upholdsMarks (h : b.Sound seen) {acts : List Act}
    (calm
      : ∀ earlier act later, acts = earlier ++ act :: later →
          ∀ id, ¬(b.run earlier).Overtaken id act)
    : b.UpholdsMarks acts := by
  intro earlier middle later split id e e' before stays after
  rw [run_append] at after
  refine (h.run earlier).upholds_run middle ?_ ?_ before after
  · intro first act rest parts
    rw [← run_append]
    exact calm (earlier ++ first) act (rest ++ later) (by simp [split, parts]) id
  · intro part rest parts
    rw [← run_append]
    exact stays part rest parts

/-- The mark that an update is about to write back was on record at an earlier moment of the run. -/
theorem Sound.read_before (h : b.Sound fun _ => False) {acts : List Act} {place : Nat}
    {owner : Uuid} {new read : Event}
    (task
      : (b.run acts).tasks[place]? = some (Task.owner (Ownership.writeBack id owner new read)))
    : ∃ earlier act later, acts = earlier ++ act :: later
        ∧ ∃ e, (b.run earlier).table.find? id = some e ∧ e.notified = read.notified := by
  have echoes := (h.run acts).echoes _ (List.mem_of_getElem? task)
  obtain ⟨_, _, _, known, -, same, seen, tagged⟩ :=
    echoes.writes_of_update (e := replacement id owner new read) rfl
  obtain ⟨earlier, act, later, split, found⟩ := seen.resolve_left not_false
  have target : id = known.id := by
    simpa only [replacement, tagged] using congrArg Event.id same
  have mark : read.notified = known.notified := by
    simpa only [replacement] using congrArg Event.notified same
  exact ⟨earlier, act, later, split, known, target ▸ found, mark.symm⟩

/-- Marks never go back in the course of acts just when no act is an overtaken update. What an
update is about to write back, it has read at an earlier moment of the run. -/
theorem upholdsMarks_iff (b : Bureau) (kept : b.table.Kept) (idle : b.tasks = [])
    (acts : List Act)
    : (b.UpholdsMarks acts
        ↔ ∀ earlier act later, acts = earlier ++ act :: later →
            ∀ id, ¬(b.run earlier).Overtaken id act)
      ∧ ∀ (place : Nat) (id owner : Uuid) (new read : Event),
          (b.run acts).tasks[place]? = some (Task.owner (Ownership.writeBack id owner new read)) →
          ∃ earlier act later, acts = earlier ++ act :: later
            ∧ ∃ e, (b.run earlier).table.find? id = some e ∧ e.notified = read.notified := by
  have start : b.Sound fun _ => False := ⟨kept, fun _ seen => seen.elim, by simp [idle]⟩
  refine ⟨⟨?_, start.upholdsMarks⟩, ?_⟩
  · intro upheld earlier act later split id
    exact start.not_overtaken upheld split id
  · intro place id owner new read task
    exact start.read_before task

-------------------------------------------------------------------------------
-- A mark that goes back
-------------------------------------------------------------------------------

/-- An owner creates an event and begins to update it. Once the update has read the event, a
scheduler notifies: it finds the event due, publishes and marks it. Then the update writes. -/
def race : List Act :=
  [.request (.create .nil meeting), .goOn 0 ⟨1⟩ (.ok ()),
    .request (.update ⟨1⟩ .nil meeting), .goOn 1 ⟨2⟩ (.ok ()),
    .notify noon, .goOn 2 ⟨2⟩ (.ok ()), .goOn 2 ⟨2⟩ (.ok ()), .goOn 2 ⟨2⟩ (.ok ()),
    .goOn 1 ⟨2⟩ (.ok ())]

/-- The condition decides the race, which starts at an empty table. -/
theorem upholdsMarks_race_iff
    : Table.empty.Kept
      ∧ (UpholdsMarks ⟨.empty, []⟩ race
        ↔ ∀ earlier act later, race = earlier ++ act :: later →
            ∀ id, ¬(run ⟨.empty, []⟩ earlier).Overtaken id act) :=
  ⟨.empty, (upholdsMarks_iff ⟨.empty, []⟩ .empty rfl race).1⟩

/-- The race sets the mark of its event back: the update writes that no notification went out. -/
theorem not_upholdsMarks_race : ¬UpholdsMarks ⟨.empty, []⟩ race := by
  intro upheld
  have before : (run ⟨.empty, []⟩ (race.take 8)).table.find? ⟨1⟩
      = some { meeting with id := ⟨1⟩, notified := some noon } := by decide +kernel
  have after : (run ⟨.empty, []⟩ (race.take 8 ++ race.drop 8)).table.find? ⟨1⟩
      = some { meeting with id := ⟨1⟩ } := by decide +kernel
  have mark := upheld (race.take 8) (race.drop 8) [] (by simp) ⟨1⟩ _ _ before ?_ after
  · obtain ⟨_, set, -⟩ := mark noon rfl
    cases set
  · intro part rest parts
    rw [Table.contains_eq_isSome]
    have split : part = [] ∨ part = race.drop 8 := by
      rcases List.append_eq_singleton_iff.mp parts.symm with ⟨empty, -⟩ | ⟨whole, -⟩
      · exact .inl empty
      · exact .inr whole
    rcases split with rfl | rfl
    · rw [List.append_nil, before]
      rfl
    · rw [after]
      rfl

end Bureau

end Almanac
