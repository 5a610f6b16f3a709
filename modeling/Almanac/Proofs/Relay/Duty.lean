import Almanac.Proofs.Relay.Neighbours
import Almanac.Relay.Shift

/-! A sender's run in small steps, with others at work around it.
The run connects, lets workers take and handle deliveries, and closes what it opened. Between any
two of its steps, and of the steps of its workers, others may act, and the run may be asked to stop.
Nobody else uses its consumer, and nobody else takes messages from its queue or removes them.
-/

namespace Almanac.Relay

open Time Broker

-------------------------------------------------------------------------------
-- A run and its steps
-------------------------------------------------------------------------------

/-- How a run stands to its target. -/
inductive Line where
  | unopened
  | opened
  | closed
  deriving DecidableEq, Repr

/-- Closes what was opened. -/
def Line.close : Line → Line
  | .opened => .closed
  | line => line

/-- How far a request to stop has come. -/
inductive Request where
  | unmade
  | made
  /-- It has reached the workers. -/
  | heard
  deriving DecidableEq, Repr

namespace Request

def make : Request → Request
  | .unmade => .made
  | request => request

def hear : Request → Request
  | .made => .heard
  | request => request

theorem make_ne_unmade (request : Request) : request.make ≠ .unmade := by
  cases request <;> nofun

theorem hear_ne_unmade {request : Request} (asked : request ≠ .unmade)
    : request.hear ≠ .unmade := by
  cases request with
  | unmade => exact absurd rfl asked
  | made | heard => nofun

end Request

namespace Duty

/-- How far a run is. -/
inductive Stage where
  | begun
  /-- It is over, since its consumer did not connect. -/
  | refused (cause : QueueError)
  | connected
  /-- Workers are at a stream of a session. Some have no delivery in hand, and the stream may have
  failed. -/
  | working (session free : Nat) (failure : Option QueueError)
  /-- The consumer is closed next, in two steps. -/
  | closing (outcome : Except SenderError Unit)
  | handingBack (outcome : Except SenderError Unit)
  /-- The target is closed next, if it was reached. -/
  | parting (outcome : Except SenderError Unit)
  | over (outcome : Except SenderError Unit)
  deriving DecidableEq

/-- The steps of a run while its workers are there. -/
inductive Chore where
  /-- A request to stop reaches the workers. -/
  | hear
  | poll
  | giveUp
  | take (turn : Turn)
  /-- A worker goes on with a job as one of a crew, whose target may give any verdict. -/
  | work (job : Job) (crew : Crew) (now : Turn)
  | balk (job : Job) (now : Turn)
  /-- A worker finds that the stream has ended, and leaves. -/
  | findEnd
  /-- A worker that is to stop leaves. -/
  | leave
  /-- All workers have left. -/
  | conclude

inductive Act where
  | other (act : WorkAct)
  | stop (ending : Ending)
  | connect
  /-- The target is connected, or cannot be. -/
  | reach (verdict : Except RelayError Unit)
  | crew (chore : Chore)
  | close
  | handBack
  | part

end Duty

/-- A sender's run over the consumer at a place of a workplace: the sender as it was given, and what
was done at the workplace before the run began and since then. -/
structure Duty where
  sender : Sender
  place : Nat
  before : List WorkAct
  since : List WorkAct := []
  stage : Duty.Stage := .begun
  line : Line := .unopened
  request : Request := .unmade

namespace Duty

/-- A run that begins. -/
def start (sender : Sender) (place : Nat) (before : List WorkAct) : Duty :=
  { sender, place, before }

def workplace (d : Duty) : Workplace :=
  Workplace.run {} (d.before ++ d.since)

def broker (d : Duty) : Broker.State :=
  d.workplace.market.broker

/-- The name of the queue that the run's consumer takes from. -/
def queue (d : Duty) : String :=
  d.sender.consumer.settings.queue

/-- What the workers have in hand. -/
def jobs (d : Duty) : List Job :=
  d.workplace.jobsAt d.queue

/-- The run's consumer as it is now. -/
def consumer? (d : Duty) : Option Consumer :=
  d.workplace.market.consumers[d.place]?

/-- Whether the workers are to stop. -/
def isStopping (d : Duty) : Bool :=
  d.sender.shutDown || d.request = .heard

def doing (d : Duty) (act : WorkAct) : Duty :=
  { d with since := d.since ++ [act] }

def enter (d : Duty) (stage : Stage) : Duty :=
  { d with stage }

/-- What the work came to. -/
def result (d : Duty) (failure : Option QueueError) : Except SenderError Unit :=
  let pool : Pool Job := { free := 0, reader := .nobody, cancelled := d.isStopping, failure }
  pool.result.mapError .queue

def connect (d : Duty) : Duty :=
  match d.sender.consumer.connect d.broker with
  | .ok _ => (d.doing (.client (.connectConsumer d.place))).enter .connected
  | .error cause => d.enter (.refused cause)

/-- The target has answered. Once it is reached, workers go to the stream of the consumer's session,
and there is at least one of them. -/
def reach (d : Duty) : Except RelayError Unit → Duty
  | .error cause => d.enter (.closing (.error (.relay cause)))
  | .ok _ =>
      let stage :=
        match d.consumer?.bind Consumer.session with
        | some session => .working session (max 1 d.sender.settings.workers.toNat) none
        | none => .closing (.error (.queue .notConnected))
      { d.enter stage with line := .opened }

/-- A step of the workers at a session's stream. What cannot be done changes nothing. -/
def labour (d : Duty) (session free : Nat) (failure : Option QueueError) : Chore → Duty
  | .hear => { d with request := d.request.hear }
  | .poll => d.doing (.client (.poll d.place session))
  | .giveUp => d.doing (.client (.giveUp d.place session))
  | .take turn =>
      if 0 < free ∧ (d.workplace.market.receive? d.place session).isSome then
        (d.doing (.take d.place session turn)).enter (.working session (free - 1) failure)
      else d
  | .work job crew now =>
      if job ∈ d.jobs then
        let isDone := (crew.step d.broker now job).1.isNone
        (d.doing (.work job crew now)).enter
          (.working session (if isDone then free + 1 else free) failure)
      else d
  | .balk job now => if job ∈ d.jobs then d.doing (.balk job now) else d
  | .findEnd =>
      if 0 < free ∧ d.consumer?.bind Consumer.session ≠ some session then
        d.enter (.working session (free - 1) (failure.or (some .streamClosed)))
      else d
  | .leave =>
      if 0 < free ∧ (d.isStopping ∨ failure.isSome) then
        d.enter (.working session (free - 1) failure)
      else d
  | .conclude =>
      if free = 0 ∧ d.jobs = [] then d.enter (.closing (d.result failure)) else d

/-- The consumer ends its session. -/
def close (d : Duty) (outcome : Except SenderError Unit) : Duty :=
  (d.doing (.client (.leave d.place))).enter (.handingBack outcome)

/-- What the consumer holds returns to the queue. -/
def handBack (d : Duty) (outcome : Except SenderError Unit) : Duty :=
  (d.doing (.client (.handBack d.queue d.sender.consumer.number))).enter (.parting outcome)

/-- The target is closed, if it was reached, and the run is over. -/
def part (d : Duty) (outcome : Except SenderError Unit) : Duty :=
  { d.enter (.over outcome) with line := d.line.close }

/-- One step. What cannot be done at this stage changes nothing. -/
def step (d : Duty) (act : Act) : Duty :=
  match act, d.stage with
  | .other act, _ => if d.workplace.allowsOther d.place d.queue act then d.doing act else d
  | .stop .request, _ => { d with request := d.request.make }
  | .stop .shutdown, _ => { d with sender := d.sender.ended .shutdown }
  | .connect, .begun => d.connect
  | .reach verdict, .connected => d.reach verdict
  | .crew chore, .working session free failure => d.labour session free failure chore
  | .close, .closing outcome => d.close outcome
  | .handBack, .handingBack outcome => d.handBack outcome
  | .part, .parting outcome => d.part outcome
  | _, _ => d

def run (d : Duty) (acts : List Act) : Duty :=
  acts.foldl step d

theorem run_append (d : Duty) (acts more : List Act)
    : d.run (acts ++ more) = (d.run acts).run more :=
  List.foldl_append

/-- Whether a step can be one with a target that it leaves as another. A target is connected once,
the workers at a job are of a crew with the target, and one that was reached is closed at last. -/
def Uses (d : Duty) (act : Act) (target next : Target) : Prop :=
  match act, d.stage with
  | .reach (.ok _), .connected => ∃ b after, target.connect b = .ok (next, after)
  | .reach (.error cause), .connected => target.connect d.broker = .error cause ∧ next = target
  | .crew (.work job crew now), .working _ _ _ =>
      if job ∈ d.jobs then crew.target = target ∧ next = (crew.step d.broker now job).2.1.target
      else next = target
  | .part, .parting _ => next = if d.line = .opened then target.close.2 else target
  | _, _ => next = target

def UsesAll (d : Duty) : List Act → Target → Target → Prop
  | [], target, last => last = target
  | act :: acts, target, last =>
      ∃ next, d.Uses act target next ∧ (d.step act).UsesAll acts next last

/-- Whether a step is none with a target. -/
def Act.sparesTarget : Act → Bool
  | .reach _ | .crew (.work ..) | .part => false
  | _ => true

section Doing

variable (d : Duty) (act : WorkAct)

@[simp]
theorem workplace_doing : (d.doing act).workplace = d.workplace.step act := by
  simp [workplace, doing, Workplace.run]

@[simp]
theorem consumer?_doing
    : (d.doing act).consumer? = (d.workplace.step act).market.consumers[d.place]? := by
  simp [consumer?, doing, ← workplace_doing]

@[simp]
theorem jobs_doing : (d.doing act).jobs = (d.workplace.step act).jobsAt d.queue := by
  rw [jobs, workplace_doing]
  rfl

@[simp]
theorem broker_doing : (d.doing act).broker = (d.workplace.step act).market.broker := by
  rw [broker, workplace_doing]

end Doing

section Request

variable {d : Duty}

theorem request_labour (asked : d.request ≠ .unmade) (session free : Nat)
    (failure : Option QueueError) (chore : Chore)
    : (d.labour session free failure chore).request ≠ .unmade := by
  cases chore with
  | hear => exact Request.hear_ne_unmade asked
  | poll | giveUp => exact asked
  | take | work | balk | findEnd | leave | conclude =>
      simp only [labour]
      split <;> exact asked

/-- No step takes a request back. -/
theorem request_step (asked : d.request ≠ .unmade) (act : Act)
    : (d.step act).request ≠ .unmade := by
  unfold step
  split
  · split <;> exact asked
  · exact d.request.make_ne_unmade
  · exact asked
  · unfold connect
    split <;> exact asked
  · unfold reach
    split <;> exact asked
  · exact request_labour asked _ _ _ _
  all_goals exact asked

theorem request_run (asked : d.request ≠ .unmade) (acts : List Act)
    : (d.run acts).request ≠ .unmade := by
  induction acts generalizing d with
  | nil => exact asked
  | cons act acts ih => exact ih (request_step asked act)

end Request

section Target

variable {d : Duty} {acts more : List Act} {target next last : Target}

theorem UsesAll.append (h : d.UsesAll acts target next)
    (later : (d.run acts).UsesAll more next last)
    : d.UsesAll (acts ++ more) target last := by
  induction acts generalizing d target with
  | nil =>
      subst h
      exact later
  | cons act acts ih =>
      obtain ⟨middle, uses, rest⟩ := h
      exact ⟨middle, uses, ih rest later⟩

theorem usesAll_of_sparesTarget (spares : acts.all Act.sparesTarget) (target : Target)
    : d.UsesAll acts target target := by
  induction acts generalizing d with
  | nil => rfl
  | cons act acts ih =>
      rw [List.all_cons, Bool.and_eq_true] at spares
      refine ⟨target, ?_, ih spares.2⟩
      unfold Uses
      split <;> first | rfl | simp [Act.sparesTarget] at spares

end Target

end Duty

end Almanac.Relay
