import Almanac.Proofs.Store.Bureau
import Almanac.Proofs.Store.Contract
import Almanac.Proofs.Store.Transition
import Mathlib.Data.List.Induction

/-! No mark without a publication, however owners and schedulers are interleaved.
Passes record only what they have published. Owners record nothing, but an update may write back a
mark long after it was read.
-/

namespace Almanac

open Time Query Store

-------------------------------------------------------------------------------
-- What owners do to marks
-------------------------------------------------------------------------------

namespace Ownership

/-- Rules about marks, in view of those that are known to be true of an identifier: new events have
none, and updates write such. Stores cut marks to whole microseconds. -/
def truthful : Rules (Uuid × Instant) where
  may known
    | .add e => e.notified = none
    | .update e => ∀ moment, e.notified = some moment → known (e.id, moment.truncate)
    | .delete _ | .get _ | .query _ _ | .deleteWhere _ | .due _ => True
    | .mark _ _ => False
  bearsOut known t :=
    ∀ id e, t.find? id = some e → ∀ moment, e.notified = some moment → known (id, moment.truncate)
  may_mono := by
    intro known more c grows allowed
    cases c with
    | update e => exact fun moment marked => grows _ (allowed moment marked)
    | _ => exact allowed

/-- Every operation of an owner keeps the rules about marks, by cases on the request. -/
theorem keeps_truthful (r : Request) (known : Uuid × Instant → Prop)
    : r.operation.Keeps truthful.contract (fun _ => True) known := by
  cases r with
  | create owner e => exact keeps_call rfl (fun _ => trivial) fun _ _ _ => trivial
  | get id owner => exact keeps_fetch trivial (fun _ => trivial) fun _ _ _ _ => trivial
  | update id owner new =>
      apply keeps_fetch trivial fun _ => trivial
      intro t more read grows fits found belongs
      apply keeps_call (fits id read found) fun _ => trivial
      intro t fresh last _ grows fits _
      exact keeps_call trivial (fun _ => trivial) fun _ _ _ => trivial
  | delete id owner =>
      apply keeps_fetch trivial fun _ => trivial
      intro t more e grows fits found belongs
      exact keeps_call trivial (fun _ => trivial) fun _ _ _ => trivial
  | listBetween owner first last => exact keeps_call trivial (fun _ => trivial) fun _ _ _ => trivial
  | listFor owner first period => exact keeps_call trivial (fun _ => trivial) fun _ _ _ => trivial

end Ownership

-------------------------------------------------------------------------------
-- What passes do to marks
-------------------------------------------------------------------------------

namespace Dispatch

/-- The contract of a pass that records notifications at a moment, if it records any: only those of
events that it has published. -/
def recording (moment? : Option Instant) : Contract Ask.Reply Uuid where
  may published
    | .publish _ => True
    | .store (.mark ids moment) => moment? = some moment ∧ ∀ id ∈ ids, published id
    | .store (.add _) | .store (.update _) => False
    | .store _ => True
  learns published
    | .publish payload, reply, more =>
        published ≤ more
          ∧ (reply = .ok () → ∀ n : Notification, n.encode = .ok payload → more n.event)
    | .store _, _, more => published ≤ more
  may_mono := by
    intro published more question grows allowed
    match question with
    | .store (.mark ids moment) => exact ⟨allowed.1, fun id listed => grows _ (allowed.2 id listed)⟩
    | .publish _ | .store (.add _) | .store (.update _) | .store (.delete _) | .store (.get _) =>
        exact allowed
    | .store (.query _ _) | .store (.deleteWhere _) | .store (.due _) => exact allowed
  learns_mono := by
    intro published more last question reply grows learned
    cases question with
    | publish payload => exact ⟨le_trans grows learned.1, learned.2⟩
    | store c => exact le_trans grows learned

/-- Dispatching records only what it has published, by induction on the events. -/
theorem keeps_dispatchAll (now : Instant) (events : List Event) (report : Report)
    (published : Uuid → Prop)
    : (dispatchAll now events report).Keeps (recording (some now)) (fun _ => True) published := by
  induction events generalizing report published with
  | nil => trivial
  | cons e events ih =>
      unfold dispatchAll
      cases written : e.notification.encode with
      | error cause => exact ih _ _
      | ok payload =>
          refine ⟨trivial, ?_⟩
          rintro (cause | _) more ⟨grows, learned⟩
          · exact ih _ _
          · have known : more e.id := learned rfl e.notification written
            refine ⟨⟨rfl, by simpa using known⟩, ?_⟩
            rintro (cause | _) last grows'
            · exact ih _ _
            · exact ih _ _

theorem keeps_notifyDue (now : Instant) (published : Uuid → Prop)
    : (notifyDue now).Keeps (recording (some now)) (fun _ => True) published := by
  refine ⟨trivial, ?_⟩
  rintro (cause | events) more grows
  · trivial
  · exact keeps_dispatchAll now events _ more

theorem keeps_purgeExpired (settings : Settings) (now : Instant) (published : Uuid → Prop)
    : (purgeExpired settings now).Keeps (recording none) (fun _ => True) published := by
  unfold purgeExpired
  split
  · trivial
  · refine ⟨trivial, ?_⟩
    rintro (cause | removed) more grows
    · trivial
    · trivial

end Dispatch

-------------------------------------------------------------------------------
-- Marks in the course of a run
-------------------------------------------------------------------------------

/-- The payload that a task publishes next. -/
def Task.payload? : Task → Option (List UInt8)
  | .scheduler (.ask (.publish payload) _) => some payload
  | _ => none

/-- The moment of the notifications that a task records, by the act that began it. -/
def Act.moment? : Act → Option Instant
  | .notify now => some now
  | _ => none

namespace Bureau

variable {b : Bureau} {started : List Act} {published later : Nat → Uuid → Prop} {act : Act}

/-- An act by which the task at a place publishes a notification of an event, and succeeds. -/
inductive Publishes (b : Bureau) (place : Nat) (id : Uuid) : Act → Prop where
  | intro {fresh : Uuid} {n : Notification} {payload : List UInt8}
    (asks : b.tasks[place]?.bind Task.payload? = some payload)
    (written : n.encode = .ok payload) (concerns : n.event = id)
    : Publishes b place id (.goOn place fresh (.ok ()))

/-- Whether a mark tells of a notification that the pass of its moment has published. -/
def Backed (started : List Act) (published : Nat → Uuid → Prop) (mark : Uuid × Instant) : Prop :=
  ∃ place now, started[place]? = some (.notify now) ∧ now.truncate = mark.2
    ∧ published place mark.1

/-- How a task stands to the marks, when `published` are the events that each pass has published. -/
def Records (known : Uuid × Instant → Prop) (published : Uuid → Prop) (starter : Act)
    : Task → Prop
  | .owner rest => rest.Keeps Ownership.truthful.contract (fun _ => True) known
  | .scheduler rest => rest.Keeps (Dispatch.recording starter.moment?) (fun _ => True) published

/-- What holds at a store that was empty: its marks tell of notifications that were published. -/
structure Truthful (b : Bureau) (started : List Act) (published : Nat → Uuid → Prop) : Prop where
  kept : b.table.Kept
  marks : Ownership.truthful.bearsOut (Backed started published) b.table
  tasks
    : InPlace (fun place => Records (Backed started published) (published place)) started b.tasks

theorem Backed.mono {more : List Act} {mark : Uuid × Instant} (h : Backed started published mark)
    (grows : ∀ place id, published place id → later place id)
    : Backed (started ++ more) later mark := by
  obtain ⟨place, now, asked, same, sent⟩ := h
  refine ⟨place, now, ?_, same, grows _ _ sent⟩
  rw [List.getElem?_append_left (List.getElem?_eq_some_iff.mp asked).1]
  exact asked

theorem Records.mono {known known' : Uuid × Instant → Prop} {sent sent' : Uuid → Prop}
    {starter : Act} {task : Task} (h : Records known sent starter task) (tells : known ≤ known')
    (grows : sent ≤ sent')
    : Records known' sent' starter task := by
  cases task with
  | owner rest => exact Process.Keeps.mono h tells
  | scheduler rest => exact Process.Keeps.mono h grows

/-- A call of a task obeys the rules for owners, or it records what its pass has published. -/
theorem Records.of_call {known : Uuid × Instant → Prop} {sent : Uuid → Prop} {starter : Act}
    {task : Task} {c : Call} (h : Records known sent starter task) (asks : task.call? = some c)
    : Ownership.truthful.may known c
      ∨ ∃ ids moment, c = .mark ids moment ∧ starter.moment? = some moment
          ∧ ∀ id ∈ ids, sent id := by
  cases task with
  | owner rest =>
      cases rest with
      | done result => cases asks
      | ask question next =>
          cases asks
          exact .inl h.1
  | scheduler rest =>
      cases rest with
      | done result => cases asks
      | ask question next =>
          cases question with
          | publish payload => cases asks
          | store call =>
              cases asks
              obtain ⟨allowed, -⟩ := h
              cases c with
              | mark ids moment => exact .inr ⟨ids, moment, rfl, allowed.1, allowed.2⟩
              | add e => exact allowed.elim
              | update e => exact allowed.elim
              | _ => exact .inl trivial

/-- Marks tell of what was published after any call of a task, by cases on the records. -/
theorem Truthful.marks_answer (h : b.Truthful started published) {place : Nat} {starter : Act}
    {task : Task} {c : Call} {fresh : Uuid} (asked : started[place]? = some starter)
    (present : b.tasks[place]? = some task) (asks : task.call? = some c)
    (accepted : b.table.accepts fresh c)
    : Ownership.truthful.bearsOut (Backed started published) (Table.answer fresh c b.table).2 := by
  intro id e found moment marked
  have call := (h.tasks.fits asked present).of_call asks
  have turns := h.kept.turns accepted id
  rw [found] at turns
  generalize before : b.table.find? id = record at turns
  cases turns with
  | stays => exact h.marks id e before moment marked
  | @filed new _ prepared issued =>
      obtain unmarked | ⟨_, _, other, -⟩ := call
      · obtain rfl := Table.of_prepare prepared
        have none : new.notified = none := unmarked
        simp [Event.normalize, none] at marked
      · cases other
  | @rewritten new _ old prepared same =>
      obtain allowed | ⟨_, _, other, -⟩ := call
      -- The mark that is written back was told of when the update read it, and that stays so.
      · obtain rfl := Table.of_prepare prepared
        obtain ⟨written, set, rfl⟩ := Option.map_eq_some_iff.mp marked
        rw [Instant.truncate_truncate, same]
        exact allowed written set
      · cases other
  | @marked ids instant listed old =>
      by_cases later : Table.advances instant.truncate old
      · rw [Table.advance_of_advances later] at marked
        cases marked
        rw [Instant.truncate_truncate]
        obtain impossible | ⟨_, _, same, recorded, sent⟩ := call
        · exact impossible.elim
        · cases same
          cases starter with
          | notify now =>
              cases recorded
              exact ⟨place, _, asked, rfl, sent id listed⟩
          | _ => cases recorded
      · rw [Table.advance_of_not_advances later] at marked
        exact h.marks id old before moment marked

/-- A task stands as before to the marks when it is answered. -/
theorem Truthful.records_step (h : b.Truthful started published) {place : Nat} {fresh : Uuid}
    {answer : Except Broker.QueueError Unit} {starter : Act} {task : Task}
    (present : b.tasks[place]? = some task)
    (records : Records (Backed started published) (published place) starter task)
    (grows : ∀ place id, published place id → later place id)
    (new : ∀ id, b.Publishes place id (.goOn place fresh answer) → later place id)
    : Records (Backed started published) (later place) starter
        (task.step b.table fresh answer).1 := by
  have upgrade {rest : Task} (h : Records (Backed started published) (published place) starter rest)
      : Records (Backed started published) (later place) starter rest :=
    h.mono (le_refl _) (grows place)
  cases task with
  | owner rest =>
      cases rest with
      | done result => exact upgrade records
      | ask c next =>
          simp only [Task.step]
          split
          · exact upgrade (records.2 _ _ ⟨le_refl _, b.table, fresh, h.marks, rfl⟩)
          · exact upgrade records
  | scheduler rest =>
      cases rest with
      | done result => exact upgrade records
      | ask question next =>
          cases question with
          | store c =>
              simp only [Task.step]
              split
              · exact upgrade (records.2 _ _ (le_refl _))
              · exact upgrade records
          | publish payload =>
              refine records.2 answer _ ⟨grows place, ?_⟩
              rintro rfl n written
              exact new n.event (.intro (by simp [present, Task.payload?]) written rfl)

/-- Every act keeps the marks truthful. -/
theorem Truthful.step (h : b.Truthful started published) (act : Act)
    (grows : ∀ place id, published place id → later place id)
    (new : ∀ place id, b.Publishes place id act → later place id)
    : (b.step act).Truthful (started ++ begun [act]) later := by
  have tells : Backed started published ≤ Backed (started ++ begun [act]) later :=
    fun _ backed => backed.mono grows
  constructor
  · exact kept_step h.kept act
  · intro id e found moment marked
    apply tells
    rcases b.table_step act with same | ⟨place, _, _, task, c, -, present, asks, accepted, eq⟩
    · rw [same] at found
      exact h.marks id e found moment marked
    · rw [eq] at found
      have inside : place < started.length := by
        rw [h.tasks.length]
        exact (List.getElem?_eq_some_iff.mp present).1
      exact h.marks_answer (List.getElem?_eq_getElem inside) present asks accepted id e found
        moment marked
  · apply h.tasks.step act
    · intro task begins
      cases act with
      | request r =>
          cases begins
          rw [Request.task]
          exact Ownership.keeps_truthful r _
      | notify now =>
          cases begins
          exact Dispatch.keeps_notifyDue now _
      | sweep settings now =>
          cases begins
          exact Dispatch.keeps_purgeExpired settings now _
      | goOn place fresh answer => cases begins
    · intro place starter task records
      exact records.mono tells (grows place)
    · rintro place fresh answer starter task rfl present records
      exact (h.records_step present records grows (new place)).mono tells (le_refl _)

/-- Whether the task at a place has published a notification of an event in the course of acts. -/
def HasPublished (b : Bureau) (acts : List Act) (place : Nat) (id : Uuid) : Prop :=
  ∃ earlier act later, acts = earlier ++ act :: later ∧ (b.run earlier).Publishes place id act

/-- Marks are truthful in every run from an empty store, by induction on the acts from the last
one. -/
theorem truthful_run (acts : List Act)
    : (run ⟨.empty, []⟩ acts).Truthful (begun acts) (HasPublished ⟨.empty, []⟩ acts) := by
  induction acts using List.reverseRecOn with
  | nil =>
      refine ⟨.empty, ?_, .nil⟩
      rintro id e found
      cases found
  | append_singleton acts act ih =>
      rw [run_concat, begun_append]
      apply ih.step act
      · rintro place id ⟨earlier, other, later, rfl, publishes⟩
        exact ⟨earlier, other, later ++ [act], by simp, publishes⟩
      · intro place id publishes
        exact ⟨acts, act, [], rfl, publishes⟩

/-- A mark on record at a store that was empty tells of a notification of that event, which an
earlier pass of the marked moment has published. -/
theorem published_of_marked (acts : List Act) (id : Uuid) (e : Event) (moment : Instant)
    (found : (run ⟨.empty, []⟩ acts).table.find? id = some e)
    (marked : e.notified = some moment)
    : ∃ earlier act later place now, acts = earlier ++ act :: later
        ∧ (begun earlier)[place]? = some (.notify now) ∧ now.truncate = moment
        ∧ (run ⟨.empty, []⟩ earlier).Publishes place id act := by
  have h := truthful_run acts
  obtain ⟨place, now, asked, same, earlier, act, later, rfl, publishes⟩ :=
    h.marks id e found moment marked
  refine ⟨earlier, act, later, place, now, rfl, ?_, ?_, publishes⟩
  · have inside : place < (begun earlier).length := by
      rw [(truthful_run earlier).tasks.length]
      cases publishes with
      | intro asks written concerns =>
          obtain ⟨task, present, -⟩ := Option.bind_eq_some_iff.mp asks
          exact (List.getElem?_eq_some_iff.mp present).1
    rw [begun_append, List.getElem?_append_left inside] at asked
    exact asked
  · have whole := h.kept.whole e (Table.mem_of_find? found).1
    rw [marked] at whole
    exact same.trans (Option.some.inj whole)

/-- A pass fails to publish a meeting, a second one publishes and marks it, and an owner's update
writes the mark back. -/
def reminder : List Act :=
  [.request (.create ⟨1⟩ meeting), .goOn 0 ⟨10⟩ (.ok ()),
    .notify noon, .goOn 1 ⟨11⟩ (.ok ()), .goOn 1 ⟨11⟩ (.error (.publish "refused")),
    .notify noon, .goOn 2 ⟨11⟩ (.ok ()), .goOn 2 ⟨11⟩ (.ok ()), .goOn 2 ⟨11⟩ (.ok ()),
    .request (.update ⟨10⟩ ⟨1⟩ meeting), .goOn 3 ⟨11⟩ (.ok ()), .goOn 3 ⟨11⟩ (.ok ())]

theorem published_of_marked_reminder
    : ∃ e : Event, (run ⟨.empty, []⟩ reminder).table.find? ⟨10⟩ = some e ∧ e.notified = some noon
        ∧ ∃ earlier act later place now, reminder = earlier ++ act :: later
          ∧ (begun earlier)[place]? = some (.notify now) ∧ now.truncate = noon
          ∧ (run ⟨.empty, []⟩ earlier).Publishes place ⟨10⟩ act := by
  have found : (run ⟨.empty, []⟩ reminder).table.find? ⟨10⟩
      = some { meeting with id := ⟨10⟩, owner := ⟨1⟩, notified := some noon } := by decide +kernel
  exact ⟨_, found, rfl, published_of_marked reminder ⟨10⟩ _ noon found rfl⟩

end Bureau

end Almanac
