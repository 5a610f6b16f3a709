import Almanac.Proofs.Store.Bureau
import Almanac.Proofs.Store.Contract
import Almanac.Proofs.Store.Transition
import Mathlib.Data.List.Induction

/-! Owners at one store are kept apart, however their operations are interleaved.
An operation compares owners in one call and writes in another. What was compared stays true, since
an identifier that was in use has the same owner for ever, as long as none is issued twice.
-/

namespace Almanac

open Time Query Store

-------------------------------------------------------------------------------
-- What an owner's operation may ask
-------------------------------------------------------------------------------

namespace Ownership

/-- Rules for the operations of an owner, in view of the identifiers that are known to be the
owner's: only those are written. -/
def apart (owner : Uuid) : Rules Uuid where
  may own
    | .add e => e.owner = owner
    | .update e => own e.id
    | .delete id => own id
    | .get _ | .query _ _ | .due _ => True
    | .deleteWhere _ | .mark _ _ => False
  bearsOut own t := ∀ id e, t.find? id = some e → (own id ↔ e.owner = owner)
  may_mono := by
    intro own more c grows allowed
    cases c with
    | update e => exact grows _ allowed
    | delete id => exact grows _ allowed
    | _ => exact allowed

theorem owner_of_add {t : Table} {fresh : Uuid} {e stored : Event}
    (answered : (Table.answer fresh (.add e) t).1 = .ok stored)
    : stored.owner = e.owner := by
  cases prepared : prepare e with
  | error cause =>
      simp only [Table.answer, Table.changed, Table.add, prepared, Except.map] at answered
      cases answered
  | ok normal =>
      simp only [Table.answer, Table.changed, Table.add, prepared, Except.map] at answered
      cases answered
      rw [Table.of_prepare prepared]
      rfl

/-- What a query with a condition gives meets the condition. -/
theorem holds_of_query {t : Table} {fresh : Uuid} {conditions : List Condition}
    {keys : List SortKey} {events : List Event} {condition : Condition}
    (answered : (Table.answer fresh (.query conditions keys) t).1 = .ok events)
    (asked : condition ∈ conditions)
    : ∀ e ∈ events, condition.holds e := by
  intro e member
  simp only [Table.answer, Table.unchanged, Table.query, select] at answered
  cases valid : validateAll conditions with
  | error cause =>
      simp only [valid, Except.map] at answered
      cases answered
  | ok _ =>
      simp only [valid, Except.map] at answered
      cases answered
      have selected := (sortBy_perm keys _).subset member
      exact List.all_eq_true.mp (List.mem_filter.mp selected).2 condition asked

theorem owner_of_holds {owner : Uuid} {e : Event}
    (holds : (Condition.of .owner .eq (.one .identifier owner)).holds e)
    : e.owner = owner := by
  have equal : compare e.owner owner = .eq := by
    simpa [Condition.of, Condition.holds, Operand.truncate, Field.value?, Operand.compare?,
      Kind.truncate, Kind.compare, Operator.accepts, Field.kind] using holds
  exact compare_eq_iff_eq.mp equal

end Ownership

namespace Request

def owner : Request → Uuid
  | .create owner _ | .get _ owner | .update _ owner _ | .delete _ owner => owner
  | .listBetween owner _ _ | .listFor owner _ _ => owner

/-- The events that an owner is shown. -/
def shown : (r : Request) → r.Result → List Event
  | .create _ _, e => [e]
  | .get _ _, e => [e]
  | .update _ _ _, e => [e]
  | .delete _ _, _ => []
  | .listBetween _ _ _, events => events
  | .listFor _ _ _, events => events

/-- Whether all events that an owner is shown are the owner's. -/
def Proper (r : Request) : Except AccessError r.Result → Prop
  | .ok result => ∀ e ∈ r.shown result, e.owner = r.owner
  | .error _ => True

end Request

namespace Ownership

/-- Listing answers with events of the owner alone, for its first condition asks for them. -/
theorem keeps_listBetween {owner : Uuid} {first last : Instant} {own : Uuid → Prop}
    {proper : Except AccessError (List Event) → Prop} (refused : ∀ cause, proper (.error cause))
    (listed : ∀ events : List Event, (∀ e ∈ events, e.owner = owner) → proper (.ok events))
    : (listBetween owner first last).Keeps (apart owner).contract proper own := by
  apply keeps_call trivial refused
  intro t fresh more events grows fits answered
  apply listed
  intro e member
  exact owner_of_holds (holds_of_query answered List.mem_cons_self e member)

/-- Every operation of an owner keeps the owner's rules, by cases on the request. -/
theorem keeps_apart (r : Request) (own : Uuid → Prop)
    : r.operation.Keeps (apart r.owner).contract r.Proper own := by
  cases r with
  | create owner e =>
      apply keeps_call rfl fun _ => trivial
      intro t fresh more stored grows fits answered other shown
      rw [List.mem_singleton.mp shown]
      exact owner_of_add answered
  | get id owner =>
      apply keeps_fetch trivial fun _ => trivial
      intro t more e grows fits found belongs other shown
      rw [List.mem_singleton.mp shown]
      exact belongs
  | update id owner new =>
      apply keeps_fetch trivial fun _ => trivial
      intro t more read grows fits found belongs
      have mine : more id := (fits id read found).mpr belongs
      apply keeps_call mine fun _ => trivial
      intro t fresh last _ grows fits _
      apply keeps_call trivial fun _ => trivial
      intro t fresh final stored grows' fits answered other shown
      rw [List.mem_singleton.mp shown]
      exact (fits id stored (find?_of_get answered)).mp (grows' id (grows id mine))
  | delete id owner =>
      apply keeps_fetch trivial fun _ => trivial
      intro t more e grows fits found belongs
      apply keeps_call ((fits id e found).mpr belongs) fun _ => trivial
      intro t fresh last _ grows fits _ other shown
      exact absurd shown List.not_mem_nil
  | listBetween owner first last => exact keeps_listBetween (fun _ => trivial) fun _ all => all
  | listFor owner first period => exact keeps_listBetween (fun _ => trivial) fun _ all => all

/-- A call that an owner may make leaves the records of others as they are. -/
theorem untouched {t : Table} {owner fresh id : Uuid} {own : Uuid → Prop} {c : Call} {e : Event}
    (kept : t.Kept) (fits : (apart owner).bearsOut own t) (allowed : (apart owner).may own c)
    (accepted : t.accepts fresh c) (found : t.find? id = some e) (foreign : e.owner ≠ owner)
    : (Table.answer fresh c t).2.find? id = some e := by
  have turns := kept.turns accepted id
  have notOwn : ¬own id := fun mine => foreign ((fits id e found).mp mine)
  rw [found] at turns
  generalize (Table.answer fresh c t).2.find? id = after at turns ⊢
  cases turns with
  | stays => rfl
  | rewritten prepared same => exact absurd (same ▸ allowed) notOwn
  | deleted => exact absurd allowed notOwn
  | swept meets => exact allowed.elim
  | marked listed => exact allowed.elim

end Ownership

-------------------------------------------------------------------------------
-- Identifiers and their owners in the course of a run
-------------------------------------------------------------------------------

namespace Bureau

variable {b : Bureau} {act : Act} {id : Uuid} {e e' : Event}

/-- The identifier that is issued for a new event in an act, if one is. -/
def issue? (b : Bureau) : Act → Option Uuid
  | .goOn place fresh _ =>
      match b.tasks[place]?.bind Task.call? with
      | some (.add e) => if (prepare e).isOk then some fresh else none
      | _ => none
  | _ => none

/-- The identifiers that are issued in the course of acts. -/
def issued (b : Bureau) : List Act → List Uuid
  | [] => []
  | act :: acts => (b.issue? act).toList ++ (b.step act).issued acts

/-- The identifiers issued in a run are those of its parts, the later part being run on what the
first left. -/
theorem issued_append (b : Bureau) (acts more : List Act)
    : b.issued (acts ++ more) = b.issued acts ++ (b.run acts).issued more := by
  induction acts generalizing b with
  | nil => rfl
  | cons act acts ih =>
      rw [List.cons_append, issued, issued, ih, List.append_assoc]
      rfl

/-- No step changes an owner: the table stays, or answers one call, and no call changes the owner
of a stored event. -/
theorem owner_step (kept : b.table.Kept) (before : b.table.find? id = some e)
    (after : (b.step act).table.find? id = some e')
    : e'.owner = e.owner := by
  rcases b.table_step act with same | ⟨_, _, _, _, c, -, -, -, accepted, eq⟩
  · rw [same, before] at after
    cases after
    rfl
  · rw [eq] at after
    exact kept.owner_answer accepted before after

/-- An identifier that comes into use has been issued. -/
theorem issue?_of_new (kept : b.table.Kept) (unused : b.table.find? id = none)
    (after : (b.step act).table.find? id = some e)
    : b.issue? act = some id := by
  rcases b.table_step act with same | ⟨place, fresh, _, task, c, rfl, present, asks, accepted, eq⟩
  · rw [same, unused] at after
    cases after
  · have turns := kept.turns accepted id
    rw [eq] at after
    rw [unused, after] at turns
    cases turns with
    | filed prepared issued =>
        simp [issue?, present, asks, prepared, issued, Except.isOk, Except.toBool]

/-- How a task serves the owner who asked for it, when `own` are the identifiers known to be each
owner's. -/
def Serves (own : Uuid → Uuid → Prop) : Act → Task → Prop
  | .request r, task =>
      ∃ rest : Ownership.Operation r.Result, task = .owner rest
        ∧ rest.Keeps (Ownership.apart r.owner).contract r.Proper (own r.owner)
  | _, _ => True

/-- What holds at a store where no identifier is issued twice: each that was ever in use has one
owner. -/
structure Apart (b : Bureau) (used : List Uuid) (own : Uuid → Uuid → Prop) (started : List Act)
    : Prop where
  kept : b.table.Kept
  recorded : ∀ {id e}, b.table.find? id = some e → own e.owner id
  sole : ∀ {owner id e}, own owner id → b.table.find? id = some e → e.owner = owner
  issued : ∀ {owner id}, own owner id → id ∈ used
  tasks : InPlace (fun _ => Serves own) started b.tasks

variable {used : List Uuid} {own : Uuid → Uuid → Prop} {started : List Act}

/-- What the history knows of an owner's events, the table bears out, both ways. -/
theorem Apart.bearsOut (h : b.Apart used own started) (owner : Uuid)
    : (Ownership.apart owner).bearsOut (own owner) b.table := by
  intro id e found
  constructor
  · intro mine
    exact h.sole mine found
  · rintro rfl
    exact h.recorded found

theorem Serves.mono {more : Uuid → Uuid → Prop} {starter : Act} {task : Task}
    (h : Serves own starter task) (grows : own ≤ more)
    : Serves more starter task := by
  cases starter with
  | request r =>
      obtain ⟨rest, rfl, keeps⟩ := h
      exact ⟨rest, rfl, keeps.mono (grows r.owner)⟩
  | _ => trivial

/-- A task serves its owner on when a store answers it. -/
theorem Apart.serves_step (h : b.Apart used own started) {starter : Act} {task : Task}
    (serves : Serves own starter task) (fresh : Uuid) (published : Except Broker.QueueError Unit)
    : Serves own starter (task.step b.table fresh published).1 := by
  cases starter with
  | request r =>
      obtain ⟨rest, rfl, keeps⟩ := serves
      cases rest with
      | done result => exact ⟨_, rfl, keeps⟩
      | ask c next =>
          obtain ⟨allowed, later⟩ := keeps
          simp only [Task.step]
          split
          · exact ⟨_, rfl, later _ _ ⟨le_refl _, b.table, fresh, h.bearsOut r.owner, rfl⟩⟩
          · exact ⟨_, rfl, allowed, later⟩
  | _ => trivial

/-- A step for an owner leaves the events of others as they are. -/
theorem Apart.untouched (h : b.Apart used own started) {place : Nat} {r : Request}
    (asked : started[place]? = some (.request r)) (fresh : Uuid)
    (published : Except Broker.QueueError Unit) (found : b.table.find? id = some e)
    (foreign : e.owner ≠ r.owner)
    : (b.step (.goOn place fresh published)).table.find? id = some e := by
  cases present : b.tasks[place]? with
  | none =>
      rw [step_goOn_of_none present]
      exact found
  | some task =>
      rw [step_goOn present]
      obtain ⟨rest, rfl, keeps⟩ := h.tasks.fits asked present
      cases rest with
      | done result => exact found
      | ask c next =>
          simp only [Task.step]
          split
          · rename_i accepted
            exact Ownership.untouched h.kept (h.bearsOut r.owner) keeps.1 accepted found foreign
          · exact found

/-- Every act keeps owners apart. -/
theorem Apart.step (h : b.Apart used own started) (act : Act)
    (new : ∀ id, b.issue? act = some id → id ∉ used)
    : (b.step act).Apart (used ++ (b.issue? act).toList)
        (fun owner id =>
          own owner id ∨ ∃ e, (b.step act).table.find? id = some e ∧ e.owner = owner)
        (started ++ begun [act]) := by
  have grows : own ≤ fun owner id =>
      own owner id ∨ ∃ e, (b.step act).table.find? id = some e ∧ e.owner = owner :=
    fun _ _ => .inl
  constructor
  · exact kept_step h.kept act
  · intro id e found
    exact .inr ⟨e, found, rfl⟩
  · rintro owner id e (mine | ⟨other, also, rfl⟩) found
    -- An event keeps its owner. One that comes into use has a new identifier, which no one owned.
    · cases before : b.table.find? id with
      | some old => rw [owner_step h.kept before found, h.sole mine before]
      | none => exact absurd (h.issued mine) (new id (issue?_of_new h.kept before found))
    · rw [also] at found
      cases found
      rfl
  · rintro owner id (mine | ⟨e, found, rfl⟩)
    · exact List.mem_append_left _ (h.issued mine)
    · cases before : b.table.find? id with
      | some old => exact List.mem_append_left _ (h.issued (h.recorded before))
      | none =>
          rw [issue?_of_new h.kept before found]
          exact List.mem_append_right _ (List.mem_singleton.mpr rfl)
  · apply h.tasks.step act
    · intro task begins
      cases act with
      | request r =>
          cases begins
          exact ⟨r.operation, rfl, Ownership.keeps_apart r _⟩
      | _ => trivial
    · intro place starter task serves
      exact serves.mono grows
    · intro place fresh published starter task _ _ serves
      exact (h.serves_step serves fresh published).mono grows

/-- Owners are kept apart in every run, by induction on the acts from the last one. -/
theorem apart_run (kept : b.table.Kept) (idle : b.tasks = []) (acts : List Act)
    (unique : (b.table.events.map Event.id ++ b.issued acts).Nodup)
    : ∃ own,
        (b.run acts).Apart (b.table.events.map Event.id ++ b.issued acts) own (begun acts) := by
  induction acts using List.reverseRecOn with
  | nil =>
      refine ⟨fun owner id => ∃ e, b.table.find? id = some e ∧ e.owner = owner, kept,
        ?_, ?_, ?_, ?_⟩
      · intro id e found
        exact ⟨e, found, rfl⟩
      · rintro owner id e ⟨other, also, rfl⟩ found
        rw [show b.table.find? id = some e from found] at also
        cases also
        rfl
      · rintro owner id ⟨e, found, rfl⟩
        obtain ⟨member, rfl⟩ := Table.mem_of_find? found
        exact List.mem_append_left _ (List.mem_map_of_mem member)
      · rw [show (b.run []).tasks = [] from idle]
        exact .nil
  | append_singleton acts act ih =>
      have last : (b.run acts).issued [act] = ((b.run acts).issue? act).toList := by simp [issued]
      rw [issued_append, last, ← List.append_assoc] at unique ⊢
      obtain ⟨earlier, -, apart⟩ := List.nodup_append.mp unique
      obtain ⟨own, h⟩ := ih earlier
      rw [run_concat, begun_append]
      refine ⟨_, h.step act ?_⟩
      intro id issues known
      exact apart id known id (by simp [issues]) rfl

/-- The task of a request that has succeeded. -/
def served (r : Request) (result : r.Result) : Task :=
  .owner (.done (.ok result) : Ownership.Operation r.Result)

/-- What keeps the owners at a store apart in the course of acts. -/
structure KeepsOwnersApart (b : Bureau) (acts : List Act) : Prop where
  /-- A step for an owner leaves the events of others on record as they are. -/
  untouched
    : ∀ earlier later (place : Nat) fresh published (r : Request),
        acts = earlier ++ .goOn place fresh published :: later →
        (begun earlier)[place]? = some (.request r) →
        ∀ id e, (b.run earlier).table.find? id = some e → e.owner ≠ r.owner →
        ((b.run earlier).step (.goOn place fresh published)).table.find? id = some e
  /-- An owner is shown only events of their own. -/
  shown
    : ∀ (place : Nat) (r : Request) (result : r.Result),
        (begun acts)[place]? = some (.request r) →
        (b.run acts).tasks[place]? = some (served r result) →
        ∀ e ∈ r.shown result, e.owner = r.owner

/-- Owners are kept apart in every interleaving of their calls and those of schedulers, at a store
that issues no identifier twice. -/
theorem owners_kept_apart (b : Bureau) (kept : b.table.Kept) (idle : b.tasks = [])
    (acts : List Act) (unique : (b.table.events.map Event.id ++ b.issued acts).Nodup)
    : b.KeepsOwnersApart acts := by
  constructor
  · rintro earlier later place fresh published r rfl asked id e found foreign
    rw [issued_append, ← List.append_assoc] at unique
    obtain ⟨own, h⟩ := apart_run kept idle earlier (List.nodup_append.mp unique).1
    exact h.untouched asked fresh published found foreign
  · intro place r result asked ended
    obtain ⟨own, h⟩ := apart_run kept idle acts unique
    obtain ⟨rest, same, keeps⟩ := h.tasks.fits asked ended
    cases same
    exact keeps

/-- An owner creates an event. While they delete it, another reads it, tries to move it and looks
for events, and the first creates a second one. -/
def visit : List Act :=
  [.request (.create ⟨1⟩ meeting), .goOn 0 ⟨10⟩ (.ok ()),
    .request (.delete ⟨10⟩ ⟨1⟩), .goOn 1 ⟨11⟩ (.ok ()),
    .request (.update ⟨10⟩ ⟨2⟩ meeting), .goOn 2 ⟨11⟩ (.ok ()),
    .request (.create ⟨1⟩ meeting), .goOn 3 ⟨11⟩ (.ok ()),
    .request (.listBetween ⟨2⟩ noon noon), .goOn 1 ⟨12⟩ (.ok ()), .goOn 4 ⟨12⟩ (.ok ())]

/-- Two owners whose requests begin, go on and end between each other's steps. -/
theorem owners_kept_apart_visit
    : Table.empty.Kept ∧ (issued ⟨.empty, []⟩ visit).Nodup
        ∧ KeepsOwnersApart ⟨.empty, []⟩ visit := by
  have unique : (issued ⟨.empty, []⟩ visit).Nodup := by decide +kernel
  exact ⟨.empty, unique, owners_kept_apart ⟨.empty, []⟩ .empty rfl visit unique⟩

end Bureau

end Almanac
