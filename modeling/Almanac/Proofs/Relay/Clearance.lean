import Almanac.Proofs.Relay.Duty
import Almanac.Proofs.Relay.Reserve

/-! A sender's run leaves nothing in flight, however it ends and whatever others do meanwhile.
At each stage it is known what the run has opened and has in hand, and every step keeps to that.
-/

namespace Almanac.Relay

open Time Broker

namespace Duty

variable {d after : Duty} {stage : Stage}

-------------------------------------------------------------------------------
-- What holds at each stage
-------------------------------------------------------------------------------

/-- The run's consumer with some session, or none. -/
def client (d : Duty) (session : Option Nat) : Consumer :=
  { d.sender.consumer with session }

/-- What the run's consumer holds. -/
def held (d : Duty) : List Pending :=
  (d.broker.queueOf d.queue).heldBy d.sender.consumer.number

/-- What a run has opened and has in hand at a stage. Workers that are not to stop are there, each
with a delivery or free for one, and a run that ends well was to stop. -/
inductive InOrder (d : Duty) : Stage → Prop where
  | begun (client : d.consumer? = some d.sender.consumer) (unhandled : d.jobs = [])
    (line : d.line = .unopened)
    : InOrder d .begun
  | refused {cause : QueueError} (client : d.consumer? = some d.sender.consumer)
    (line : d.line = .unopened)
    : InOrder d (.refused cause)
  | connected {session : Nat} (client : d.consumer? = some (d.client (some session)))
    (stream : (d.place, session) ∈ d.workplace.market.streams) (unhandled : d.jobs = [])
    (line : d.line = .unopened)
    : InOrder d .connected
  | working {session free : Nat} (client : d.consumer? = some (d.client (some session)))
    (stream : (d.place, session) ∈ d.workplace.market.streams) (line : d.line = .opened)
    (manned : d.isStopping ∨ 0 < free ∨ d.jobs ≠ [])
    : InOrder d (.working session free none)
  | closing {session : Nat} {outcome : Except SenderError Unit}
    (client : d.consumer? = some (d.client (some session))) (unhandled : d.jobs = [])
    (well : outcome = .ok () → d.isStopping)
    : InOrder d (.closing outcome)
  | handingBack {outcome : Except SenderError Unit} (client : d.consumer? = some (d.client none))
    (left : (d.queue, d.sender.consumer.number) ∈ d.workplace.market.closing)
    (unhandled : d.jobs = []) (well : outcome = .ok () → d.isStopping)
    : InOrder d (.handingBack outcome)
  | parting {outcome : Except SenderError Unit} (client : d.consumer? = some (d.client none))
    (unhandled : d.jobs = []) (nothing : d.held = []) (well : outcome = .ok () → d.isStopping)
    : InOrder d (.parting outcome)
  | ended {outcome : Except SenderError Unit} (client : d.consumer? = some (d.client none))
    (unhandled : d.jobs = []) (nothing : d.held = []) (well : outcome = .ok () → d.isStopping)
    (line : d.line ≠ .opened)
    : InOrder d (.over outcome)

-------------------------------------------------------------------------------
-- Steps that change nothing of that
-------------------------------------------------------------------------------

/-- What a run finds as it left it, apart from being asked to stop. -/
structure Spares (d after : Duty) : Prop where
  place : after.place = d.place
  consumer : after.sender.consumer = d.sender.consumer
  line : after.line = d.line
  stopping : d.isStopping → after.isStopping
  workplace : d.workplace.Spares after.workplace d.place d.queue

namespace Spares

/-- What spares a duty keeps the queue of its sender. -/
theorem queue (s : d.Spares after) : after.queue = d.queue := by
  rw [Duty.queue, s.consumer, Duty.queue]

/-- A known consumer stays known. -/
theorem known (s : d.Spares after) {c : Consumer} (known : d.consumer? = some c)
    : after.consumer? = some c := by
  rw [consumer?, s.place]
  exact s.workplace.market.client c known

/-- The client of a session stays in its place. -/
theorem client (s : d.Spares after) {session : Option Nat}
    (known : d.consumer? = some (d.client session))
    : after.consumer? = some (after.client session) := by
  rw [Duty.client, s.consumer]
  exact s.known known

/-- The stream of a session stays open. -/
theorem stream (s : d.Spares after) {session : Nat}
    (stream : (d.place, session) ∈ d.workplace.market.streams)
    : (after.place, session) ∈ after.workplace.market.streams := by
  rw [s.place]
  exact s.workplace.market.streams session stream

/-- The jobs in hand are the same up to their order. -/
theorem jobs (s : d.Spares after) : after.jobs.Perm d.jobs := by
  rw [Duty.jobs, s.queue]
  exact s.workplace.jobs

/-- Where nothing was handled, nothing is. -/
theorem unhandled (s : d.Spares after) (unhandled : d.jobs = []) : after.jobs = [] :=
  (unhandled ▸ s.jobs).eq_nil

/-- Where nothing was held, nothing is: entries that are still pending were pending before. -/
theorem nothing (s : d.Spares after) (nothing : d.held = []) : after.held = [] := by
  apply List.eq_nil_iff_forall_not_mem.mpr
  intro p member
  rw [held, s.queue, s.consumer, Queue.mem_heldBy_iff] at member
  have still : p ∈ d.held :=
    Queue.mem_heldBy_iff.mpr ⟨s.workplace.pending p member.1, member.2⟩
  rw [nothing] at still
  cases still

end Spares

/-- Order at a stage survives whatever spares the duty; each stage only asks for what is spared. -/
theorem InOrder.spared (h : d.InOrder stage) (s : d.Spares after) : after.InOrder stage := by
  cases h with
  | begun client unhandled line =>
      exact .begun (s.consumer ▸ s.known client) (s.unhandled unhandled) (s.line.trans line)
  | refused client line => exact .refused (s.consumer ▸ s.known client) (s.line.trans line)
  | connected client stream unhandled line =>
      exact .connected (s.client client) (s.stream stream) (s.unhandled unhandled)
        (s.line.trans line)
  | working client stream line manned =>
      refine .working (s.client client) (s.stream stream) (s.line.trans line) ?_
      exact manned.imp s.stopping (.imp id fun busy none => busy (none ▸ s.jobs).symm.eq_nil)
  | closing client unhandled well =>
      exact .closing (s.client client) (s.unhandled unhandled) (s.stopping ∘ well)
  | handingBack client left unhandled well =>
      refine .handingBack (s.client client) ?_ (s.unhandled unhandled) (s.stopping ∘ well)
      rw [s.queue, s.consumer]
      exact s.workplace.market.closing _ left
  | parting client unhandled nothing well =>
      exact .parting (s.client client) (s.unhandled unhandled) (s.nothing nothing)
        (s.stopping ∘ well)
  | ended client unhandled nothing well line =>
      exact .ended (s.client client) (s.unhandled unhandled) (s.nothing nothing)
        (s.stopping ∘ well) (s.line ▸ line)

/-- What is done at the workplace and spares the run's things there spares them. -/
theorem spares_doing {act : WorkAct}
    (spares : d.workplace.Spares (d.workplace.step act) d.place d.queue)
    : d.Spares (d.doing act) where
  place := rfl
  consumer := rfl
  line := rfl
  stopping := id
  workplace := by simpa using spares

/-- What does nothing at the workplace spares the run's things, if it leaves the run's own as they
are. -/
theorem spares_of_same (place : after.place = d.place)
    (consumer : after.sender.consumer = d.sender.consumer) (line : after.line = d.line)
    (workplace : after.workplace = d.workplace) (stopping : d.isStopping → after.isStopping)
    : d.Spares after where
  place := place
  consumer := consumer
  line := line
  stopping := stopping
  workplace := workplace ▸ ⟨.refl _, fun _ => id, .refl _⟩

/-- A duty stops for a shutdown or for a request that was heard. -/
theorem isStopping_iff : d.isStopping ↔ d.sender.shutDown ∨ d.request = .heard := by
  simp [isStopping]

/-- A request to stop is not taken back. -/
theorem spares_request (request : Request) (kept : d.request = .heard → request = .heard)
    : d.Spares { d with request } :=
  spares_of_same rfl rfl rfl rfl fun stopping =>
    isStopping_iff.mpr ((isStopping_iff.mp stopping).imp id kept)

/-- Hearing a request changes the request alone. -/
theorem spares_hear : d.Spares { d with request := d.request.hear } :=
  spares_request _ fun heard => by rw [heard]; rfl

section Stop

variable (d) (ending : Ending)

/-- A stop leaves the stage to the run itself. -/
theorem stage_stop : (d.step (.stop ending)).stage = d.stage := by cases ending <;> rfl

/-- A stop does not touch the broker. -/
theorem broker_stop : (d.step (.stop ending)).broker = d.broker := by cases ending <;> rfl

/-- Shutting down marks the sender as shut down at once. -/
theorem shutDown_stop : (d.step (.stop .shutdown)).sender.shutDown := by
  simp [step, Sender.ended]

/-- A stop of either kind spares the duty and can only make it stop. -/
theorem spares_stop : d.Spares (d.step (.stop ending)) := by
  cases ending with
  | request => exact spares_request _ fun heard => by rw [heard]; rfl
  | shutdown =>
      exact spares_of_same rfl rfl rfl rfl fun _ => isStopping_iff.mpr (.inl d.shutDown_stop)

end Stop

/-- A stage is not among the things that a run has in hand. -/
theorem InOrder.of_enter {other : Stage} (h : (d.enter other).InOrder stage) : d.InOrder stage :=
  h.spared (spares_of_same rfl rfl rfl rfl id)

-------------------------------------------------------------------------------
-- Connecting
-------------------------------------------------------------------------------

/-- The run has connected its consumer, or is over. -/
theorem InOrder.connect (h : d.InOrder .begun) : d.connect.InOrder d.connect.stage := by
  cases h with | begun known unhandled line =>
  unfold Duty.connect
  cases connected : d.sender.consumer.connect d.broker with
  | error cause => exact .refused known line
  | ok result =>
      obtain ⟨next, broker⟩ := result
      obtain ⟨session, rfl⟩ := Consumer.of_connect connected
      have served := Market.serve_connectConsumer known connected
      have inside := (List.getElem?_eq_some_iff.mp known).1
      have found : (d.doing (.client (.connectConsumer d.place))).consumer?
          = some (d.client (some session)) := by
        simp [Workplace.step, served, inside, client]
      have stream : (d.place, session)
          ∈ (d.doing (.client (.connectConsumer d.place))).workplace.market.streams := by
        simp [Workplace.step, served]
      have still : (d.doing (.client (.connectConsumer d.place))).jobs = [] := by
        rw [jobs_doing]
        exact unhandled
      exact .connected found stream still line

/-- Workers are there, or the consumer is to be closed. -/
theorem InOrder.reach (h : d.InOrder .connected) (verdict : Except RelayError Unit)
    : (d.reach verdict).InOrder (d.reach verdict).stage := by
  cases h with | connected known stream unhandled line =>
  cases verdict with
  | error cause => exact .closing known unhandled nofun
  | ok _ =>
      simp only [Duty.reach, known, Option.bind_some, client]
      have somebody : 0 < max 1 d.sender.settings.workers.toNat :=
        Nat.lt_of_lt_of_le Nat.one_pos (Nat.le_max_left ..)
      exact .working known stream rfl (.inr (.inl somebody))

-------------------------------------------------------------------------------
-- Workers
-------------------------------------------------------------------------------

section Labour

variable {session free : Nat} {failure : Option QueueError}

/-- Workers are there after a step that keeps the consumer, one of them free or with a job. -/
theorem InOrder.doing {act : WorkAct} (h : d.InOrder (.working session free failure))
    (keeps : d.workplace.market.Keeps (d.workplace.step act).market d.place d.queue) (left : Nat)
    (manned : 0 < left ∨ (d.workplace.step act).jobsAt d.queue ≠ [])
    : ((d.doing act).enter (.working session left failure)).InOrder
        (.working session left failure) := by
  cases h with | working known stream line _ =>
  have found : (d.doing act).consumer? = some (d.client (some session)) := by
    rw [consumer?_doing]
    exact keeps.client _ known
  have still : (d.place, session) ∈ (d.doing act).workplace.market.streams := by
    rw [workplace_doing]
    exact keeps.streams session stream
  rw [← jobs_doing] at manned
  exact .working found still line (.inr manned)

/-- What is taken is in hand. -/
theorem InOrder.take (h : d.InOrder (.working session free failure)) (turn : Turn)
    (received : (d.workplace.market.receive? d.place session).isSome)
    : ((d.doing (.take d.place session turn)).enter (.working session (free - 1) failure)).InOrder
        (.working session (free - 1) failure) := by
  refine h.doing (d.workplace.keeps_take d.place session turn) (free - 1) (.inr ?_)
  obtain ⟨⟨delivery, market⟩, received⟩ := Option.isSome_iff_exists.mp received
  obtain ⟨c, -, known, same, -⟩ := Market.of_receive? received
  have here : delivery.queue = d.queue := by
    cases h with | working found stream line _ =>
    rw [same, ← Option.some.inj (found.symm.trans known)]
    rfl
  simp [Workplace.step, received, Workplace.jobsAt, here]

/-- A worker that goes on with its job has it in hand or is free again. -/
theorem InOrder.work (h : d.InOrder (.working session free failure)) {job : Job}
    (hand : job ∈ d.jobs) (crew : Crew) (now : Turn)
    : ((d.doing (.work job crew now)).enter
          (.working session
            (if (crew.step d.broker now job).1.isNone then free + 1 else free) failure)).InOrder
        (.working session
          (if (crew.step d.broker now job).1.isNone then free + 1 else free) failure) := by
  refine h.doing (d.workplace.keeps_work job crew now) _ ?_
  obtain ⟨member, here⟩ := List.mem_filter.mp hand
  cases goesOn : (crew.step d.broker now job).1 with
  | none => exact .inl (Nat.succ_pos _)
  | some next =>
      have same : next.delivery.queue = d.queue := by
        rw [Crew.delivery_step goesOn]
        simpa using here
      have goesOn : (crew.step d.workplace.market.broker now job).1 = some next := goesOn
      exact .inr (by simp [Workplace.step, member, goesOn, Workplace.jobsAt, same])

/-- A job of the duty that balks is still its own, so the crew stays in order. -/
theorem InOrder.balk (h : d.InOrder (.working session free failure)) {job : Job}
    (hand : job ∈ d.jobs) (now : Turn)
    : ((d.doing (.balk job now)).enter (.working session free failure)).InOrder
        (.working session free failure) := by
  obtain ⟨member, here⟩ := List.mem_filter.mp hand
  have same : (job.balk now).delivery.queue = d.queue := by
    rw [Job.delivery_balk]
    simpa using here
  refine h.doing ?_ free (.inr ?_)
  · simpa [Workplace.step, member] using .refl _
  · simp [Workplace.step, member, Workplace.jobsAt, same]

/-- Every step of the workers keeps the run in order, by cases on it. -/
theorem InOrder.labour (h : d.InOrder d.stage) (here : d.stage = .working session free failure)
    (chore : Chore)
    : (d.labour session free failure chore).InOrder
        (d.labour session free failure chore).stage := by
  have polls (act : ClientAct) (same : act = .poll d.place session ∨ act = .giveUp d.place session)
      : (d.doing (.client act)).InOrder d.stage := by
    refine h.spared (spares_doing (d.workplace.spares_client act ?_ ?_ ?_)) <;>
      rcases same with rfl | rfl <;> simp [Market.moves]
  have atWork : d.InOrder (.working session free failure) := here ▸ h
  cases chore with
  | hear => exact h.spared spares_hear
  | poll => exact polls _ (.inl rfl)
  | giveUp => exact polls _ (.inr rfl)
  | take turn =>
      simp only [Duty.labour]
      split
      · rename_i able
        exact atWork.take turn able.2
      · exact h
  | work job crew now =>
      simp only [Duty.labour]
      split
      · rename_i hand
        exact atWork.work hand crew now
      · exact h
  | balk job now =>
      simp only [Duty.labour]
      split
      · rename_i hand
        have balked := (atWork.balk hand now).of_enter
        rwa [← here] at balked
      · exact h
  | findEnd =>
      cases atWork with | working known stream line manned =>
      simpa [Duty.labour, known, client] using h
  | leave =>
      simp only [Duty.labour]
      split
      · rename_i able
        cases atWork with | working known stream line manned =>
        exact .working known stream line (.inl (able.2.resolve_right (by simp)))
      · exact h
  | conclude =>
      simp only [Duty.labour]
      split
      · rename_i gone
        cases atWork with | working known stream line manned =>
        have stopping : d.isStopping :=
          manned.resolve_right (not_or.mpr ⟨by omega, fun busy => busy gone.2⟩)
        exact .closing known gone.2 fun _ => stopping
      · exact h

end Labour

-------------------------------------------------------------------------------
-- Closing
-------------------------------------------------------------------------------

/-- Leaving the queue takes the client off and lists its number for handing back. -/
theorem InOrder.close {outcome : Except SenderError Unit} (h : d.InOrder (.closing outcome))
    : (d.close outcome).InOrder (.handingBack outcome) := by
  cases h with | closing known unhandled well =>
  have inside := (List.getElem?_eq_some_iff.mp known).1
  have known : d.workplace.market.consumers[d.place]? = some (d.client _) := known
  have served : d.workplace.market.serve (.leave d.place)
      = { d.workplace.market with
          consumers := d.workplace.market.consumers.set d.place (d.client none)
          closing := (d.queue, d.sender.consumer.number) :: d.workplace.market.closing } := by
    simp [Market.serve, Market.asConsumer, known, client, queue]
  have found : (d.doing (.client (.leave d.place))).consumer? = some (d.client none) := by
    simp [Workplace.step, served, inside]
  have left : (d.queue, d.sender.consumer.number)
      ∈ (d.doing (.client (.leave d.place))).workplace.market.closing := by
    simp [Workplace.step, served]
  have still : (d.doing (.client (.leave d.place))).jobs = [] := by
    rw [jobs_doing]
    exact unhandled
  exact .handingBack found left still well

/-- Handing back returns all that the consumer held, after which nothing is in hand. -/
theorem InOrder.handBack {outcome : Except SenderError Unit} (h : d.InOrder (.handingBack outcome))
    : (d.handBack outcome).InOrder (.parting outcome) := by
  cases h with | handingBack known left unhandled well =>
  let act : WorkAct := .client (.handBack d.queue d.sender.consumer.number)
  have found : (d.doing act).consumer? = some (d.client none) := by
    rw [consumer?_doing]
    have known : d.workplace.market.consumers[d.place]? = some (d.client none) := known
    simpa [act, Workplace.step, Market.serve, left] using known
  have still : (d.doing act).jobs = [] := by
    rw [jobs_doing]
    exact unhandled
  have moved : d.workplace.moves d.queue act = [.returnAll d.sender.consumer.number] := by
    simp [act, Workplace.moves, Market.actMoves, Market.moves, left]
  have nothing : (d.doing act).held = [] := by
    rw [held, broker_doing]
    change ((d.workplace.step act).market.broker.queueOf d.queue).heldBy _ = []
    rw [Workplace.queueOf_step, moved]
    exact Queue.heldBy_returnAll _ _
  exact .parting found still nothing well

/-- Closing the line is the last step of a run, whose duty is then in order at its end. -/
theorem InOrder.part {outcome : Except SenderError Unit} (h : d.InOrder (.parting outcome))
    : (d.part outcome).InOrder (.over outcome) := by
  cases h with | parting known unhandled nothing well =>
  have closed : d.line.close ≠ .opened := by cases d.line <;> nofun
  exact .ended known unhandled nothing well closed

/-- Every step keeps a run in order, by cases on it. -/
theorem InOrder.step (h : d.InOrder d.stage) (act : Act)
    : (d.step act).InOrder (d.step act).stage := by
  unfold Duty.step
  split
  · split
    · rename_i allowed
      exact h.spared (spares_doing (Workplace.spares_of_allowsOther allowed))
    · exact h
  · exact h.spared (d.spares_stop .request)
  · exact h.spared (d.spares_stop .shutdown)
  · rename_i here
    exact (here ▸ h).connect
  · rename_i here
    exact (here ▸ h).reach _
  · rename_i here
    exact h.labour here _
  · rename_i here
    exact (here ▸ h).close
  · rename_i here
    exact (here ▸ h).handBack
  · rename_i here
    exact (here ▸ h).part
  · exact h

-------------------------------------------------------------------------------
-- The queue is left to the run's consumer
-------------------------------------------------------------------------------

/-- Whether everything done since the run began leaves the queue to its consumer. -/
def KeepsQueue (d : Duty) : Prop :=
  (Workplace.run {} d.before).Reserved d.queue d.sender.consumer.number d.since

/-- An act keeps the queue reserved if none of its moves takes what belongs to the consumer. -/
theorem KeepsQueue.doing (h : d.KeepsQueue) {act : WorkAct}
    (leaves
      : ∀ move ∈ d.workplace.moves d.queue act, move.LeavesTo d.sender.consumer.number)
    : (d.doing act).KeepsQueue := by
  refine Workplace.reserved_append.mpr ⟨h, ?_, trivial⟩
  rwa [← Workplace.run_append]

/-- The workers' steps leave the queue to their consumer, by cases on them. -/
theorem KeepsQueue.labour (h : d.KeepsQueue) {session free : Nat} {failure : Option QueueError}
    (order : d.InOrder (.working session free failure)) (chore : Chore)
    : (d.labour session free failure chore).KeepsQueue := by
  cases chore with
  | hear => exact h
  | findEnd | leave | conclude =>
      simp only [Duty.labour]
      split <;> exact h
  | poll | giveUp => exact h.doing (by simp [Workplace.moves, Market.actMoves, Market.moves])
  | take turn =>
      simp only [Duty.labour]
      split
      · refine h.doing fun move member => ?_
        obtain ⟨c, known, rfl⟩ := Market.of_mem_takeMoves member
        cases order with | working found stream line manned =>
        rw [← Option.some.inj (found.symm.trans known)]
        rfl
      · exact h
  | work job crew now =>
      simp only [Duty.labour]
      split
      · refine h.doing fun move member => ?_
        simp only [Workplace.moves] at member
        split at member
        · exact Crew.leavesTo_of_moves member _
        · cases member
      · exact h
  | balk job now =>
      simp only [Duty.labour]
      split
      · exact h.doing (by simp [Workplace.moves])
      · exact h

/-- Every step keeps the queue reserved; only acts of others and those of the crew reach it at
all. -/
theorem KeepsQueue.step (h : d.KeepsQueue) (order : d.InOrder d.stage) (act : Act)
    : (d.step act).KeepsQueue := by
  unfold Duty.step
  split
  · split
    · rename_i allowed
      refine h.doing fun move member => ?_
      obtain ⟨body, rfl⟩ := Workplace.push_of_allowsOther allowed member
      trivial
    · exact h
  · exact h
  · exact h
  · unfold Duty.connect
    split
    · exact h.doing (by simp [Workplace.moves, Market.actMoves, Market.moves])
    · exact h
  · unfold Duty.reach
    split <;> exact h
  · rename_i here
    exact h.labour (here ▸ order) _
  · exact h.doing (by simp [Workplace.moves, Market.actMoves, Market.moves])
  · refine h.doing fun move member => ?_
    simp only [Workplace.moves, Market.actMoves, Market.moves, List.mem_ite_nil_right,
      List.mem_singleton] at member
    rw [member.2]
    trivial
  · exact h
  · exact h

-------------------------------------------------------------------------------
-- Runs
-------------------------------------------------------------------------------

/-- What every step of a run keeps. -/
structure Kept (d : Duty) : Prop where
  order : d.InOrder d.stage
  queue : d.KeepsQueue

/-- Order and reservation are kept together, since the second reads the first. -/
theorem Kept.step (h : d.Kept) (act : Act) : (d.step act).Kept where
  order := h.order.step act
  queue := h.queue.step h.order act

/-- A whole run keeps both, by induction on its acts. -/
theorem Kept.run (h : d.Kept) (acts : List Act) : (d.run acts).Kept := by
  induction acts generalizing d with
  | nil => exact h
  | cons act acts ih => exact ih (h.step act)

/-- A run begins in order when its consumer is there and nobody handles deliveries of its queue. -/
theorem Kept.start {sender : Sender} {place : Nat} {before : List WorkAct}
    (known : (Workplace.run {} before).market.consumers[place]? = some sender.consumer)
    (unhandled : (Workplace.run {} before).jobsAt sender.consumer.settings.queue = [])
    : (Duty.start sender place before).Kept where
  order := by
    refine .begun ?_ ?_ rfl
    · simpa [consumer?, workplace, Duty.start] using known
    · simpa [jobs, Duty.queue, workplace, Duty.start] using unhandled
  queue := trivial

/-- What happened at the run's queue since it began. -/
def log (d : Duty) : List Happening :=
  (Workplace.run {} d.before).log d.queue d.since

/-- What is noted for the run's queue. -/
def notes (d : Duty) : List Note :=
  Workplace.history {} d.queue (d.before ++ d.since)

/-- What a run whose consumer connected leaves behind. -/
structure LeavesNothing (d : Duty) (outcome : Except SenderError Unit) : Prop where
  /-- The consumer is closed, and holds nothing. -/
  closed : d.consumer? = some { d.sender.consumer with session := none }
  nothing : (d.broker.queueOf d.queue).heldBy d.sender.consumer.number = []
  /-- No delivery is in a worker's hands. -/
  unhandled : d.jobs = []
  /-- What was taken was relayed and then acknowledged, or it had no notification, or it is ready
  again and flagged. -/
  cleared
    : ∀ copy tag, .delivered copy tag ∈ d.log → d.workplace.Cleared d.queue d.notes copy
  /-- The target is closed, if it was reached. -/
  line : d.line ≠ .opened
  /-- The run ends well only if it was asked to stop. -/
  asked : outcome = .ok () → d.request ≠ .unmade ∨ d.sender.shutDown

/-- A run that is over leaves nothing in flight: the order at its end says what is gone, and the
reserved queue that each delivery was settled or returned. -/
theorem Kept.leavesNothing (h : d.Kept) {outcome : Except SenderError Unit}
    (ended : d.stage = .over outcome)
    : d.LeavesNothing outcome := by
  have order := ended ▸ h.order
  cases order with | ended known unhandled nothing well line =>
  refine ⟨known, nothing, unhandled, fun copy tag delivered => ?_, line, fun good => ?_⟩
  · have sound := (Workplace.Sound.start d.queue).run d.before
    have start : (({} : Workplace).market.broker.queueOf d.queue).InLine [] := .start
    have inLine := Workplace.inLine_run start Queue.Accounted.start d.before
    have taken := mem_deliveries_iff.mpr ⟨tag, delivered⟩
    have whole : d.workplace = (Workplace.run {} d.before).run d.since :=
      Workplace.run_append _ _ _
    rw [notes, Workplace.history_append, whole]
    refine sound.cleared inLine h.queue ?_ taken
    rw [← whole]
    exact nothing
  · exact (isStopping_iff.mp (well good)).symm.imp (fun heard => by simp [heard]) id

end Duty

end Almanac.Relay
