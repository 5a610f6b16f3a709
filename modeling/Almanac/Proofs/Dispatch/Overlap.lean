import Almanac.Proofs.Dispatch.Lifecycle

/-! Starts and stops of one scheduler that overlap.
A start holds the lock until its loops are recorded. A stop gives the lock up as soon as it has
taken the loops, so a start may get in before the stop has set the status and closed the outlet.
-/

namespace Almanac.Dispatch

open Time Store

-------------------------------------------------------------------------------
-- Calls under way
-------------------------------------------------------------------------------

/-- How far a start is, which holds the lock. -/
inductive Entry where
  /-- Nothing speaks against it. -/
  | admitted
  | connected
  /-- The status is set, and these loops are at work. -/
  | announced (loops : List Loop)
  deriving DecidableEq

/-- How far a stop is, which has taken the loops. -/
inductive Exit where
  /-- It waits for those that are left of the dismissed loops. -/
  | joining (loops : List Loop)
  /-- The status is set, and the outlet is to be closed. -/
  | closing
  deriving DecidableEq

/-- A scheduler and the calls under way. `overlapped` is for proofs alone: whether a stop was under
way when a start last connected. -/
structure Control where
  scheduler : Scheduler
  entry : Option Entry := none
  exits : List Exit := []
  overlapped : Bool := false

/-- Where a loop is at work: recorded, launched by a start that has not recorded it, or dismissed by
a stop. -/
inductive Spot where
  | held
  | entering
  | dismissed (exit : Nat)

/-- The atomic steps of calls and loops. Brokers, storage and clocks are what the step finds. -/
inductive ControlAct where
  /-- A start takes the lock. It waits while another has it, and fails when there are loops or the
  cycle is zero. -/
  | start
  | connect (b : Broker.State)
  | announce
  /-- The next of the loops, notifications first, begins at a turn. -/
  | launch (turn : Turn)
  | record
  /-- A stop takes the loops and tells them to end. It waits while a start has the lock. -/
  | dismiss
  /-- A loop that is at its turn goes on. -/
  | tick (spot : Spot) (place : Nat) (turn now : Turn) (wall : Instant) (storage : Storage)
    (b : Broker.State)
  /-- A dismissed loop that is not at work sees that it is to end, or has ended before. -/
  | leave (exit place : Nat)
  /-- All loops of a stop have gone, and it sets the status. -/
  | settle (exit : Nat)
  | close (exit : Nat)

/-- A loop goes on, at most once at its turn; one that gives up leaves the scheduler degraded. -/
def Scheduler.beat (s : Scheduler) (turn now : Turn) (wall : Instant) (storage : Storage)
    (b : Broker.State) (loop : Loop) : Loop × Scheduler :=
  let (after, site) := advanceLoop s.settings turn now wall loop ⟨storage, s.outlet, b⟩
  (after,
    { s with
      outlet := site.outlet
      status := if after.phase = .ended ∧ loop.phase ≠ .ended then .degraded else s.status })

namespace Control

/-- No start and no stop is under way. -/
def Idle (c : Control) : Prop :=
  c.entry = none ∧ c.exits = []

instance (c : Control) : Decidable c.Idle :=
  inferInstanceAs (Decidable (_ ∧ _))

def loopsAt (c : Control) : Spot → Option (List Loop)
  | .held => c.scheduler.loops
  | .entering =>
      match c.entry with
      | some (.announced loops) => some loops
      | _ => none
  | .dismissed exit =>
      match c.exits[exit]? with
      | some (.joining loops) => some loops
      | _ => none

def withLoops (c : Control) (loops : List Loop) : Spot → Control
  | .held => { c with scheduler := { c.scheduler with loops := some loops } }
  | .entering => { c with entry := some (.announced loops) }
  | .dismissed exit => { c with exits := c.exits.set exit (.joining loops) }

/-- One step. What has to wait, or cannot be done, changes nothing. -/
def step (c : Control) : ControlAct → Control
  | .start =>
      if c.entry.isSome ∨ c.scheduler.loops.isSome ∨ c.scheduler.settings.cycle.nanos = 0 then c
      else { c with entry := some .admitted }
  | .connect b =>
      if c.entry = some .admitted then
        match c.scheduler.outlet.connect b with
        | .ok (outlet, _) =>
            { c with
              scheduler := { c.scheduler with outlet }
              entry := some .connected
              overlapped := !c.exits.isEmpty }
        | .error _ => { c with entry := none }
      else c
  | .announce =>
      if c.entry = some .connected then
        { c with
          scheduler := { c.scheduler with status := .running }
          entry := some (.announced []) }
      else c
  | .launch turn =>
      match c.entry with
      | some (.announced []) => { c with entry := some (.announced [⟨.notify, .waiting turn⟩]) }
      | some (.announced [loop]) =>
          { c with entry := some (.announced [loop, ⟨.sweep, .waiting turn⟩]) }
      | _ => c
  | .record =>
      match c.entry with
      | some (.announced [first, second]) =>
          { c with
            scheduler := { c.scheduler with loops := some [first, second] }
            entry := none }
      | _ => c
  | .dismiss =>
      if c.entry.isSome then c
      else
        match c.scheduler.dismiss with
        | (some loops, scheduler) =>
            { c with scheduler, exits := c.exits ++ [.joining loops] }
        | (none, _) => c
  | .tick spot place turn now wall storage b =>
      match c.loopsAt spot with
      | none => c
      | some loops =>
          match loops[place]? with
          | none => c
          | some loop =>
              let (after, scheduler) := c.scheduler.beat turn now wall storage b loop
              { c with scheduler }.withLoops (loops.set place after) spot
  | .leave exit place =>
      match c.exits[exit]? with
      | some (.joining loops) =>
          match loops[place]? with
          | some ⟨_, .failing _⟩ | none => c
          | some _ => { c with exits := c.exits.set exit (.joining (loops.eraseIdx place)) }
      | _ => c
  | .settle exit =>
      if c.exits[exit]? = some (.joining []) then
        { c with
          scheduler := { c.scheduler with status := .stopped }
          exits := c.exits.set exit .closing }
      else c
  | .close exit =>
      if c.exits[exit]? = some .closing then
        { c with
          scheduler := { c.scheduler with outlet := c.scheduler.outlet.close.2 }
          exits := c.exits.eraseIdx exit }
      else c

def run (c : Control) (acts : List ControlAct) : Control :=
  acts.foldl step c

theorem run_cons (c : Control) (act : ControlAct) (acts : List ControlAct)
    : c.run (act :: acts) = (c.step act).run acts := rfl

/-- Runs split wherever their acts do. -/
theorem run_append (c : Control) (acts more : List ControlAct)
    : c.run (acts ++ more) = (c.run acts).run more :=
  List.foldl_append

-------------------------------------------------------------------------------
-- Calls that nothing overlaps
-------------------------------------------------------------------------------

variable {c : Control} {loops : List Loop}

/-- The steps of a start, one after the other, are a start. -/
theorem run_start (free : c.entry = none) (b : Broker.State) (turn : Turn)
    : (c.run [.start, .connect b, .announce, .launch turn, .launch turn, .record]).scheduler
      = match c.scheduler.start b turn with
        | .ok (scheduler, _) => scheduler
        | .error _ => c.scheduler := by
  by_cases held : c.scheduler.loops.isSome
  · simp [run, step, Scheduler.start, free, held]
  · by_cases zero : c.scheduler.settings.cycle.nanos = 0
    · simp [run, step, Scheduler.start, free, held, zero]
    · cases outcome : c.scheduler.outlet.connect b <;>
        simp [run, step, Scheduler.start, free, held, zero, outcome]

/-- Loops that do not fail leave one after the other until none is left to wait for; by induction
on them. -/
theorem run_leave (joining : c.exits = [.joining loops])
    (quiet : ∀ loop ∈ loops, ∀ deadline, loop.phase ≠ .failing deadline)
    : c.run (List.replicate loops.length (.leave 0 0)) = { c with exits := [.joining []] } := by
  induction loops generalizing c with
  | nil => simp [run, ← joining]
  | cons loop loops ih =>
      obtain ⟨first, others⟩ := List.forall_mem_cons.mp quiet
      have left : c.step (.leave 0 0) = { c with exits := [.joining loops] } := by
        obtain ⟨task, phase⟩ := loop
        cases phase with
        | failing deadline => exact absurd rfl (first deadline)
        | waiting next => simp [step, joining]
        | ended => simp [step, joining]
      rw [List.length_cons, List.replicate_succ, run_cons, left, ih rfl others]

/-- The steps of a stop whose loops are not at work, one after the other, are a stop. -/
theorem run_stop (idle : c.Idle) (held : c.scheduler.loops = some loops)
    (quiet : ∀ loop ∈ loops, ∀ deadline, loop.phase ≠ .failing deadline)
    : c.run (.dismiss :: List.replicate loops.length (.leave 0 0) ++ [.settle 0, .close 0])
      = { c with scheduler := c.scheduler.dismiss.2.finishStop.2 } := by
  obtain ⟨free, none⟩ := idle
  have taken : c.step .dismiss
      = { c with scheduler := c.scheduler.dismiss.2, exits := [.joining loops] } := by
    simp [step, free, none, Scheduler.dismiss, held]
  rw [List.cons_append, run_cons, run_append, taken, run_leave rfl quiet]
  simp [run, step, ← none, Scheduler.finishStop]

-------------------------------------------------------------------------------
-- What every step keeps
-------------------------------------------------------------------------------

/-- Whether a scheduler has loops. -/
inductive Standing where
  | out
  /-- A start has connected for loops to come. -/
  | connected
  /-- They are recorded, or a start has set the status for them. -/
  | working (loops : List Loop)

def standing (c : Control) : Standing :=
  match c.entry, c.scheduler.loops with
  | some .connected, _ => .connected
  | some (.announced loops), _ => .working loops
  | _, some loops => .working loops
  | _, none => .out

/-- What holds of a scheduler and its calls after any steps. -/
structure Sound (c : Control) : Prop where
  /-- There are no recorded loops while a start has the lock. -/
  locked : c.entry.isSome → c.scheduler.loops = none
  /-- Without loops the scheduler counts as stopped, or a stop is going to see to that. -/
  stopped
    : (∀ loops, c.standing ≠ .working loops) →
        c.scheduler.status = .stopped ∨ ∃ loops, .joining loops ∈ c.exits
  /-- Nothing stops a scheduler that has loops, unless a stop was under way when it connected. -/
  alone
    : c.overlapped = false → c.standing ≠ .out →
        c.exits = [] ∧ c.scheduler.outlet.producer.connected = true
  counted
    : c.overlapped = false → ∀ loops, c.standing = .working loops →
        c.scheduler.status = Scheduler.statusOf loops
  /-- Otherwise that stop is still under way, or it has closed the outlet since. -/
  behind
    : c.overlapped = true → c.standing ≠ .out → c.scheduler.outlet.closeFails = false →
        c.exits ≠ [] ∨ c.scheduler.outlet.producer.connected = false

/-- A scheduler that was never started is sound. -/
theorem Sound.start (settings : Settings) (outlet : Broker.Outlet)
    : Sound { scheduler := { settings, outlet } } where
  locked := nofun
  stopped _ := .inl rfl
  alone _ inside := absurd rfl inside
  counted _ _ := nofun
  behind := nofun

/-- Admitting a start takes the lock and changes nothing else, so there is nothing new to count. -/
theorem Sound.admit (h : c.Sound) : (c.step .start).Sound := by
  simp only [step]
  split
  · exact h
  · rename_i free
    simp only [not_or, Bool.not_eq_true, Option.isSome_eq_false_iff, Option.isNone_iff_eq_none]
      at free
    obtain ⟨free, none, -⟩ := free
    have before : c.standing = .out := by simp [standing, free, none]
    have after : standing { c with entry := some .admitted } = .out := by simp [standing, none]
    refine ⟨fun _ => none, fun _ => h.stopped (by simp [before]), ?_, ?_, ?_⟩
    · exact fun _ inside => absurd after inside
    · exact fun _ loops working => by simp [after] at working
    · exact fun _ inside => absurd after inside

/-- A refused connection gives the lock back with nobody inside. One that is made is inside, alone
unless a stop was under way, which is what `overlapped` then records. -/
theorem Sound.connect (h : c.Sound) (b : Broker.State) : (c.step (.connect b)).Sound := by
  simp only [step]
  split
  · rename_i admitted
    have none : c.scheduler.loops = none := h.locked (by simp [admitted])
    have before : c.standing = .out := by simp [standing, admitted, none]
    have stopped := h.stopped (by simp [before])
    cases outcome : c.scheduler.outlet.connect b with
    | error cause =>
        have after : standing { c with entry := Option.none } = .out := by simp [standing, none]
        refine ⟨nofun, fun _ => stopped, ?_, ?_, ?_⟩
        · exact fun _ inside => absurd after inside
        · exact fun _ loops working => by simp [after] at working
        · exact fun _ inside => absurd after inside
    | ok result =>
        have connected := (Broker.Outlet.connected_of_connect outcome).1
        refine ⟨fun _ => none, fun _ => stopped, ?_, ?_, ?_⟩
        · exact fun clear _ => ⟨by simpa using clear, connected⟩
        · exact fun _ loops working => by simp [standing] at working
        · exact fun overlapped _ _ => .inl (by simpa using overlapped)
  · exact h

/-- Announcing writes the status that counts for no loops, and none are launched by then. -/
theorem Sound.announce (h : c.Sound) : (c.step .announce).Sound := by
  simp only [step]
  split
  · rename_i connected
    have none : c.scheduler.loops = none := h.locked (by simp [connected])
    have inside : c.standing ≠ .out := by simp [standing, connected]
    refine ⟨fun _ => none, fun outside => absurd rfl (outside []), ?_, ?_, ?_⟩
    · exact fun clear _ => h.alone clear inside
    · rintro - loops ⟨⟩
      rfl
    · exact fun overlapped _ => h.behind overlapped inside
  · exact h

/-- Loops that begin to wait or are recorded change nothing but where they are. -/
theorem Sound.regroup (h : c.Sound) {after : Control} {loops more : List Loop}
    (before : c.standing = .working loops) (now : after.standing = .working more)
    (same : Scheduler.statusOf more = Scheduler.statusOf loops)
    (locked : after.entry.isSome → after.scheduler.loops = none)
    (kept
      : after.exits = c.exits ∧ after.overlapped = c.overlapped
          ∧ after.scheduler.status = c.scheduler.status
          ∧ after.scheduler.outlet = c.scheduler.outlet)
    : after.Sound := by
  obtain ⟨exits, overlapped, status, outlet⟩ := kept
  have inside : c.standing ≠ .out := by simp [before]
  refine ⟨locked, fun outside => absurd now (outside more), ?_, ?_, ?_⟩
  · rw [overlapped, exits, outlet]
    exact fun clear _ => h.alone clear inside
  · rw [overlapped, status, now]
    rintro clear _ ⟨⟩
    exact same ▸ h.counted clear loops before
  · rw [overlapped, exits, outlet]
    exact fun overlapped _ => h.behind overlapped inside

/-- Launching a loop regroups what is inside; the loop waits, so the status counts as before. -/
theorem Sound.launch (h : c.Sound) (turn : Turn) : (c.step (.launch turn)).Sound := by
  simp only [step]
  split
  · rename_i entry
    have before : c.standing = .working [] := by simp [standing, entry]
    have locked : c.scheduler.loops = none := h.locked (by simp [entry])
    exact h.regroup before rfl rfl (fun _ => locked) ⟨rfl, rfl, rfl, rfl⟩
  · rename_i loop entry
    have before : c.standing = .working [loop] := by simp [standing, entry]
    have locked : c.scheduler.loops = none := h.locked (by simp [entry])
    refine h.regroup before rfl ?_ (fun _ => locked) ⟨rfl, rfl, rfl, rfl⟩
    simp [Scheduler.statusOf]
  · exact h

/-- Recording hands both loops over to the scheduler and releases the lock. -/
theorem Sound.record (h : c.Sound) : (c.step .record).Sound := by
  simp only [step]
  split
  · rename_i first second entry
    have before : c.standing = .working [first, second] := by simp [standing, entry]
    exact h.regroup before rfl rfl nofun ⟨rfl, rfl, rfl, rfl⟩
  · exact h

/-- Dismissing moves the loops to an exit, after which nobody is inside. -/
theorem Sound.dismiss (h : c.Sound) : (c.step .dismiss).Sound := by
  simp only [step, Scheduler.dismiss]
  split
  · exact h
  · rename_i free
    have free : c.entry = none := by simpa using free
    cases held : c.scheduler.loops with
    | none => exact h
    | some loops =>
        have after : standing
            { c with
              scheduler := { c.scheduler with loops := none }
              exits := c.exits ++ [.joining loops] } = .out := by
          simp [standing, free]
        refine ⟨fun _ => rfl, fun _ => .inr ⟨loops, by simp⟩, ?_, ?_, ?_⟩
        · exact fun _ inside => absurd after inside
        · exact fun _ loops working => by simp [after] at working
        · exact fun _ inside => absurd after inside

/-- A loop that goes on keeps the status in step with the loops that it is one of. -/
theorem statusOf_beat {s : Scheduler} {place : Nat} {loop : Loop}
    (known : loops[place]? = some loop) (before : s.status = Scheduler.statusOf loops)
    (turn now : Turn) (wall : Instant) (storage : Storage) (b : Broker.State)
    : (s.beat turn now wall storage b loop).2.status
      = Scheduler.statusOf (loops.set place (s.beat turn now wall storage b loop).1) := by
  by_cases ended : loop.phase = .ended
  · have still : s.beat turn now wall storage b loop = (loop, s) := by
      simp [Scheduler.beat, Scheduler.advanceLoop_of_ended, ended]
    obtain ⟨inside, rfl⟩ := List.getElem?_eq_some_iff.mp known
    rw [still, before, List.set_getElem_self]
  · rw [Scheduler.statusOf_set known ended, ← before]
    simp [Scheduler.beat, ended]

/-- A beat of one loop keeps the outlet alike. -/
theorem alike_beat (s : Scheduler) (turn now : Turn) (wall : Instant) (storage : Storage)
    (b : Broker.State) (loop : Loop)
    : s.outlet.Alike (s.beat turn now wall storage b loop).2.outlet :=
  Scheduler.alike_advanceLoop s.settings turn now wall loop ⟨storage, s.outlet, b⟩

/-- A loop of a scheduler that has loops goes on. -/
theorem Sound.beat (h : c.Sound) {after : Control} {place : Nat} {loop : Loop}
    (before : c.standing = .working loops) (known : loops[place]? = some loop) (turn now : Turn)
    (wall : Instant) (storage : Storage) (b : Broker.State)
    (working
      : after.standing
        = .working (loops.set place (c.scheduler.beat turn now wall storage b loop).1))
    (locked : after.entry.isSome → after.scheduler.loops = none)
    (kept
      : after.exits = c.exits ∧ after.overlapped = c.overlapped
          ∧ after.scheduler.status = (c.scheduler.beat turn now wall storage b loop).2.status
          ∧ after.scheduler.outlet = (c.scheduler.beat turn now wall storage b loop).2.outlet)
    : after.Sound := by
  obtain ⟨exits, overlapped, status, outlet⟩ := kept
  have alike := alike_beat c.scheduler turn now wall storage b loop
  have inside : c.standing ≠ .out := by simp [before]
  refine ⟨locked, fun outside => absurd working (outside _), ?_, ?_, ?_⟩
  · rw [overlapped, exits, outlet, alike.producer]
    exact fun clear _ => h.alone clear inside
  · rw [overlapped, status, working]
    rintro clear _ ⟨⟩
    exact statusOf_beat known (h.counted clear loops before) turn now wall storage b
  · rw [overlapped, exits, outlet, alike.producer, alike.closeFails]
    exact fun overlapped _ => h.behind overlapped inside

/-- Where an exit is found, there are exits. -/
theorem exits_ne_nil {exit : Nat} {e : Exit} (present : c.exits[exit]? = some e)
    : c.exits ≠ [] := by
  intro none
  simp [none] at present

/-- While a stop is under way, a scheduler that it did not overlap has no loops. -/
theorem Sound.out_of_clear (h : c.Sound) (busy : c.exits ≠ []) (clear : c.overlapped = false)
    : c.standing = .out :=
  Classical.byContradiction fun inside => busy (h.alone clear inside).1

/-- Whatever a stop's loops do, the stop waits for those that are left. -/
theorem Sound.exits (h : c.Sound) {exit : Nat} (present : c.exits[exit]? = some (.joining loops))
    {scheduler : Scheduler} (rest : List Loop) (held : scheduler.loops = c.scheduler.loops)
    : Sound { c with scheduler, exits := c.exits.set exit (.joining rest) } := by
  have busy := exits_ne_nil present
  have inside : exit < c.exits.length := (List.getElem?_eq_some_iff.mp present).1
  have same : standing { c with scheduler, exits := c.exits.set exit (.joining rest) }
      = c.standing := by
    simp only [standing, held]
  constructor
  case locked =>
    rw [held]
    exact h.locked
  case stopped => exact fun _ => .inr ⟨rest, List.mem_set inside _⟩
  case alone =>
    rw [same]
    exact fun clear inside => absurd (h.out_of_clear busy clear) inside
  case counted =>
    intro clear loops working
    rw [same, h.out_of_clear busy clear] at working
    cases working
  case behind => exact fun _ _ _ => .inl (by simpa using busy)

/-- A turn of a loop is counted where the loop is held, and of no account to the status where it
is on its way out. -/
theorem Sound.tick (h : c.Sound) (spot : Spot) (place : Nat) (turn now : Turn) (wall : Instant)
    (storage : Storage) (b : Broker.State)
    : (c.step (.tick spot place turn now wall storage b)).Sound := by
  simp only [step]
  cases present : c.loopsAt spot with
  | none => exact h
  | some loops =>
      cases known : loops[place]? with
      | none => simpa [known] using h
      | some loop =>
          simp only [known]
          cases spot with
          | held =>
              have held : c.scheduler.loops = some loops := present
              have free : c.entry = none := by
                cases taken : c.entry with
                | none => rfl
                | some entry =>
                    rw [h.locked (by simp [taken])] at held
                    cases held
              have before : c.standing = .working loops := by simp [standing, free, held]
              refine h.beat before known turn now wall storage b ?_ ?_ ⟨rfl, rfl, rfl, rfl⟩
              · simp [standing, withLoops, free]
              · simp [withLoops, free]
          | entering =>
              have entry : c.entry = some (.announced loops) := by
                simp only [loopsAt] at present
                split at present
                · cases present
                  assumption
                · cases present
              have none : c.scheduler.loops = none := h.locked (by simp [entry])
              have before : c.standing = .working loops := by simp [standing, entry]
              refine h.beat before known turn now wall storage b rfl ?_ ⟨rfl, rfl, rfl, rfl⟩
              exact fun _ => none
          | dismissed exit =>
              have joining : c.exits[exit]? = some (.joining loops) := by
                simp only [loopsAt] at present
                split at present
                · cases present
                  assumption
                · cases present
              exact h.exits joining _ rfl

/-- A loop that leaves only shortens the list its exit waits for. -/
theorem Sound.leave (h : c.Sound) (exit place : Nat) : (c.step (.leave exit place)).Sound := by
  simp only [step]
  split
  · rename_i loops joining
    split
    · exact h
    · exact h
    · exact h.exits joining _ rfl
  · exact h

/-- Writing the stop down is sound while an exit is open: without overlap nobody is inside then. -/
theorem Sound.settle (h : c.Sound) (exit : Nat) : (c.step (.settle exit)).Sound := by
  simp only [step]
  split
  · rename_i joined
    have busy := exits_ne_nil joined
    constructor
    case locked => exact h.locked
    case stopped => exact fun _ => .inl rfl
    case alone => exact fun clear inside => absurd (h.out_of_clear busy clear) inside
    case counted =>
      intro clear loops working
      exact absurd ((h.out_of_clear busy clear).symm.trans working) nofun
    case behind => exact fun _ _ _ => .inl (by simpa using busy)
  · exact h

/-- Closing the producer ends one exit and leaves the others waiting. Only a scheduler that was
overlapped can be inside by then, and its outlet is closed, as `behind` says. -/
theorem Sound.close (h : c.Sound) (exit : Nat) : (c.step (.close exit)).Sound := by
  simp only [step]
  split
  · rename_i closing
    have busy := exits_ne_nil closing
    constructor
    case locked => exact h.locked
    case stopped =>
      intro outside
      refine (h.stopped outside).imp_right ?_
      rintro ⟨loops, joining⟩
      obtain ⟨place, present⟩ := List.getElem?_of_mem joining
      refine ⟨loops, List.mem_eraseIdx_iff_getElem?.mpr ⟨place, ?_, present⟩⟩
      rintro rfl
      rw [closing] at present
      cases present
    case alone => exact fun clear inside => absurd (h.out_of_clear busy clear) inside
    case counted =>
      intro clear loops working
      exact absurd ((h.out_of_clear busy clear).symm.trans working) nofun
    case behind =>
      intro _ _ closes
      rw [Broker.Outlet.closeFails_close] at closes
      exact .inr (Broker.Outlet.connected_close closes)
  · exact h

/-- Every step keeps what holds of a scheduler and its calls, by cases on the step. -/
theorem Sound.step (h : c.Sound) (act : ControlAct) : (c.step act).Sound := by
  cases act with
  | start => exact h.admit
  | connect b => exact h.connect b
  | announce => exact h.announce
  | launch turn => exact h.launch turn
  | record => exact h.record
  | dismiss => exact h.dismiss
  | tick spot place turn now wall storage b => exact h.tick spot place turn now wall storage b
  | leave exit place => exact h.leave exit place
  | settle exit => exact h.settle exit
  | close exit => exact h.close exit

/-- So does every run, by induction on the steps. -/
theorem Sound.run (h : c.Sound) (acts : List ControlAct) : (c.run acts).Sound := by
  induction acts generalizing c with
  | nil => exact h
  | cons act acts ih => exact ih (h.step act)

-------------------------------------------------------------------------------
-- At rest
-------------------------------------------------------------------------------

/-- Why a start fails at a step. -/
inductive Refuses (c : Control) : ControlAct → SchedulerError → Prop where
  | alreadyRunning (free : c.entry = none) (held : c.scheduler.loops.isSome)
    : Refuses c .start .alreadyRunning
  | zeroCycle (free : c.entry = none) (none : c.scheduler.loops = none)
    (zero : c.scheduler.settings.cycle.nanos = 0)
    : Refuses c .start (.invalidConfig "work cycle must be greater than zero")
  | unconnected {b : Broker.State} {cause : Broker.QueueError}
    (admitted : c.entry = some .admitted) (refused : c.scheduler.outlet.connect b = .error cause)
    : Refuses c (.connect b) (.queue cause)

/-- A start that fails gives the lock up and changes nothing. -/
theorem Refuses.step {act : ControlAct} {cause : SchedulerError} (refuses : c.Refuses act cause)
    : c.step act = { c with entry := none } := by
  cases refuses with
  | alreadyRunning free held => simp [Control.step, held, ← free]
  | zeroCycle free none zero => simp [Control.step, zero, ← free]
  | unconnected admitted refused => simp [Control.step, admitted, refused]

/-- At rest and without overlap, the scheduler is consistent: it is out and stopped, or works and
is counted. -/
theorem Sound.consistent (h : c.Sound) (idle : c.Idle)
    (clear : c.scheduler.loops.isSome → c.overlapped = false)
    : c.scheduler.Consistent := by
  obtain ⟨free, quiet⟩ := idle
  cases held : c.scheduler.loops with
  | none =>
      refine .of_none held ((h.stopped ?_).resolve_right ?_)
      · simp [standing, free, held]
      · simp [quiet]
  | some loops =>
      have clear := clear (by simp [held])
      have working : c.standing = .working loops := by simp [standing, free, held]
      exact .of_held held (h.counted clear loops working) (h.alone clear (by simp [working])).2

/-- A stop that overlapped a start leaves the new loops with a closed outlet. -/
theorem Sound.not_consistent (h : c.Sound) (idle : c.Idle) (held : c.scheduler.loops.isSome)
    (overlapped : c.overlapped = true) (closes : c.scheduler.outlet.closeFails = false)
    : ¬c.scheduler.Consistent := by
  intro consistent
  obtain ⟨loops, present⟩ := Option.isSome_iff_exists.mp held
  have inside : c.standing ≠ .out := by simp [standing, idle.1, present]
  rcases h.behind overlapped inside closes with busy | closed
  · exact busy idle.2
  · exact absurd (consistent.connected held) (by simp [closed])

/-- The life of a scheduler whose starts and stops may overlap. -/
structure Lifecycle (c : Control) : Prop where
  /-- At rest its status says what its loops do, and its outlet is connected while it has loops,
  unless a stop was under way when the loops' start connected. -/
  consistent
    : c.Idle → (c.scheduler.loops.isSome → c.overlapped = false) → c.scheduler.Consistent
  /-- Then it is never so again before the loops are dismissed, if the outlet can be closed. -/
  consistent_iff
    : c.Idle → c.scheduler.outlet.closeFails = false →
        (c.scheduler.Consistent ↔ (c.scheduler.loops.isSome → c.overlapped = false))
  /-- A start that fails leaves the scheduler as it is. -/
  refused : ∀ act cause, c.Refuses act cause → (c.step act).scheduler = c.scheduler

/-- The life of a scheduler, after any steps of starts, stops and loops. -/
theorem lifecycle_run (settings : Settings) (outlet : Broker.Outlet) (acts : List ControlAct)
    : (run { scheduler := { settings, outlet } } acts).Lifecycle := by
  have sound := (Sound.start settings outlet).run acts
  constructor
  case consistent => exact sound.consistent
  case consistent_iff =>
    refine fun idle closes => ⟨fun consistent held => ?_, sound.consistent idle⟩
    exact Bool.eq_false_iff.mpr fun overlapped =>
      sound.not_consistent idle held overlapped closes consistent
  case refused =>
    intro act cause refuses
    rw [refuses.step]

/-- A scheduler is consistent whenever no call is under way. -/
def ConsistentAtRest (settings : Settings) (outlet : Broker.Outlet) (acts : List ControlAct)
    : Prop :=
  ∀ moment rest, acts = moment ++ rest → (run { scheduler := { settings, outlet } } moment).Idle →
    (run { scheduler := { settings, outlet } } moment).scheduler.Consistent

/-- The steps of a start at an empty broker. -/
def starting : List ControlAct :=
  [.start, .connect {}, .announce, .launch ⟨0, 0⟩, .launch ⟨0, 0⟩, .record]

/-- A second start gets in while a stop waits for the loops of the first. -/
def restart : List ControlAct :=
  starting ++ .dismiss :: starting ++ [.leave 0 0, .leave 0 0, .settle 0, .close 0]

/-- The stop then ends with a scheduler that counts as stopped, and has loops. -/
theorem not_consistentAtRest_restart
    : ¬ConsistentAtRest {} { producer := { settings := {} } } restart := by
  intro always
  have consistent := always restart [] (List.append_nil _).symm (by decide +kernel)
  have loopless := consistent.stopped_iff.mp (by decide +kernel)
  exact absurd loopless (by decide +kernel)

end Control

end Almanac.Dispatch
