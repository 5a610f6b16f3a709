import Almanac.Proofs.Relay.Clearance
import Almanac.Proofs.Relay.Staffing

/-! A crew does what the workers of a duty can do.
The crew does much at once: a worker takes a delivery and goes on with it until it has to wait. The
duty gets there in several of its steps, one for each thing that the worker does.
-/

namespace Almanac

open Time Broker

-------------------------------------------------------------------------------
-- Taking a delivery in two steps
-------------------------------------------------------------------------------

namespace Broker

/-- A poll that waits is one of its session's polls. -/
theorem State.session?_of_poll? {b after : State} {number : Nat}
    (polled : b.poll? number = some after)
    : ∃ s, after.session? number = some s ∧ 0 < s.polls := by
  obtain ⟨asked, found, rfl⟩ := Option.map_eq_some_iff.mp polled
  obtain ⟨s, present, asks⟩ := Option.bind_eq_some_iff.mp found
  have isNumber : s.number = number := by simpa using List.find?_some present
  obtain ⟨same, waits⟩ : asked.number = s.number ∧ 0 < asked.polls := by
    unfold Session.poll? at asks
    split at asks
    · cases asks
      exact ⟨rfl, Nat.succ_pos _⟩
    · split at asks
      · cases asks
        exact ⟨rfl, Nat.succ_pos _⟩
      · cases asks
  let renew (other : Session) : Session := if other.number = number then asked else other
  have alike : (fun other : Session => decide (other.number = number)) ∘ renew
      = fun other => decide (other.number = number) := by
    funext other
    by_cases here : other.number = number <;> simp [renew, here, same, isNumber]
  have renewed : renew s = asked := if_pos isNumber
  refine ⟨asked, ?_, waits⟩
  change (b.sessions.map renew).find? _ = some asked
  rw [List.find?_map, alike, ← renewed]
  exact congrArg (Option.map renew) present

/-- What a consumer takes at once, a stream of it takes in two steps. -/
theorem Market.receive?_of_take? {m : Market} {place session : Nat} {c : Consumer} {d : Delivery}
    {broker : State} (known : m.consumers[place]? = some c)
    (stream : (place, session) ∈ m.streams) (taken : c.take? m.broker session = some (d, broker))
    : (m.serve (.poll place session)).receive? place session = some (d, m.onBroker broker) := by
  obtain ⟨polled, asks, received⟩ := Option.bind_eq_some_iff.mp taken
  obtain ⟨s, found, waits⟩ := State.session?_of_poll? asks
  have served : m.serve (.poll place session) = m.onBroker polled := by
    simp [serve, stream, asks]
  have waiting : (m.onBroker polled).isPolled place session := by
    simp [isPolled, onBroker, stream, found, waits]
  have known : (m.onBroker polled).consumers[place]? = some c := known
  have received : c.receive? (m.onBroker polled).broker session = some (d, broker) := received
  rw [served, receive?, if_pos waiting, known, Option.bind_some, received]
  rfl

end Broker

namespace Relay

-------------------------------------------------------------------------------
-- Jobs and their tasks
-------------------------------------------------------------------------------

/-- What there is to do in a job, at whatever turn. -/
def Job.task (j : Job) : Delivery × Stage :=
  (j.delivery, j.stage)

theorem Job.task_hurry (j : Job) (now : Turn) : (j.hurry now).task = j.task := by
  unfold hurry
  split <;> rfl

namespace Crew

/-- A step of a job is the same whenever it was due. -/
theorem step_eq_of_task {job other : Job} (same : other.task = job.task) (c : Crew)
    (b : Broker.State) (now : Turn)
    : c.step b now other = c.step b now job := by
  obtain ⟨delivery, stage, turn⟩ := job
  obtain ⟨delivery', stage', turn'⟩ := other
  obtain ⟨rfl, rfl⟩ := Prod.mk.inj same
  cases stage' <;> rfl

/-- A step of a job changes nothing of the crew but its target. -/
theorem exists_target_step (c : Crew) (b : Broker.State) (now : Turn) (job : Job)
    : ∃ target, (c.step b now job).2.1 = { c with target } := by
  cases stage : job.stage with
  | fresh =>
      cases decoded : Notification.decode job.delivery.body with
      | error e => exact ⟨c.target, by simp [step, stage, decoded]⟩
      | ok n => exact ⟨_, by simp only [step, stage, decoded]; rfl⟩
  | relaying n => exact ⟨_, by simp only [step, stage]; rfl⟩
  | relayed | pausing => exact ⟨c.target, by simp [step, stage]⟩

/-- A crew that is done does nothing more. -/
theorem advance_of_isDone (c : Crew) (manned : c.pool.IsManned) (done : c.pool.isDone)
    (b : Broker.State) (turn now : Turn)
    : c.advance b turn now = (c, b) := by
  obtain ⟨stopping, finished⟩ := Bool.and_eq_true_iff.mp done
  have nobody : c.pool.reader = .nobody := by
    by_contra attended
    simp [(manned attended).2] at stopping
  simp [advance, nobody, Reader.wake?, List.isEmpty_iff.mp finished]

theorem isDone_stop (c : Crew) (now : Turn) (done : c.pool.isDone) : (c.stop now).pool.isDone := by
  obtain ⟨-, finished⟩ := Bool.and_eq_true_iff.mp done
  simp [stop, Pool.isDone, Pool.cancel, Pool.isStopping, List.isEmpty_iff.mp finished]

theorem target_alert (c : Crew) (b : Broker.State) (now : Turn)
    : (c.alert b now).target = c.target := by
  unfold alert
  split <;> rfl

theorem isDone_alert (c : Crew) (b : Broker.State) (now : Turn)
    : (c.alert b now).pool.isDone = c.pool.isDone := by
  unfold alert Pool.call
  split
  · rfl
  · split <;> rfl

end Crew

-------------------------------------------------------------------------------
-- Crews at work
-------------------------------------------------------------------------------

namespace Duty

variable {d : Duty} {c : Crew} {job : Job} {hand : List Job}

/-- Whether a crew is where a duty's workers are, apart from the jobs in hand just now. -/
structure Mans (d : Duty) (c : Crew) (hand : List Job) : Prop where
  stage : d.stage = .working c.session c.pool.free none
  consumer : c.consumer = d.client (some c.session)
  jobs : (d.jobs.map Job.task).Perm ((hand ++ c.pool.jobs).map Job.task)
  stopping : c.pool.cancelled → d.isStopping
  sound : c.pool.failure = none
  manned : c.pool.IsManned

/-- Whether a duty with a target can come to where a crew is, in steps that leave the target and the
broker as they are then. -/
def Reaches (d : Duty) (target : Target) (c : Crew) (hand : List Job) (b : Broker.State) : Prop :=
  ∃ acts, d.UsesAll acts target c.target ∧ (d.run acts).Mans c hand ∧ (d.run acts).broker = b

theorem Mans.reaches (h : d.Mans c hand) : d.Reaches c.target c hand d.broker :=
  ⟨[], rfl, h, rfl⟩

theorem Reaches.after {target next : Target} {b : Broker.State} {acts : List Act}
    (uses : d.UsesAll acts target next) (h : (d.run acts).Reaches next c hand b)
    : d.Reaches target c hand b := by
  obtain ⟨more, later, mans, left⟩ := h
  exact ⟨acts ++ more, uses.append later, by rwa [run_append], by rwa [run_append]⟩

/-- What is reached from whatever was reached is reached, since the first stretch leaves a kept
duty. -/
theorem Reaches.trans {target : Target} {c' : Crew} {hand' : List Job} {b b' : Broker.State}
    (h : d.Reaches target c hand b) (kept : d.Kept)
    (next : ∀ e : Duty, e.Kept → e.Mans c hand → e.broker = b → e.Reaches c.target c' hand' b')
    : d.Reaches target c' hand' b' := by
  obtain ⟨acts, uses, mans, left⟩ := h
  exact .after uses (next _ (kept.run acts) mans left)

/-- What is known of a consumer with workers. -/
theorem Mans.known (h : d.Mans c hand) (kept : d.Kept)
    : d.workplace.market.consumers[d.place]? = some c.consumer
      ∧ (d.place, c.session) ∈ d.workplace.market.streams := by
  have order := h.stage ▸ kept.order
  cases order with | working known stream line manned =>
  exact ⟨h.consumer ▸ known, stream⟩

/-- The tasks of the jobs at the queue after one of them has gone on. -/
theorem Mans.jobs_work (h : d.Mans c [job]) {other : Job} (member : other ∈ d.jobs)
    (same : other.task = job.task) (next : List Job)
    (here : ∀ j ∈ next, j.delivery.queue = d.queue)
    : ((((d.workplace.jobs.erase other) ++ next).filter (·.delivery.queue = d.queue)).map
          Job.task).Perm ((next ++ c.pool.jobs).map Job.task) := by
  have after := (Workplace.perm_jobsAt member here).map Job.task
  have before := ((List.perm_cons_erase member).map Job.task).symm.trans h.jobs
  simp only [List.map_cons, same, List.singleton_append] at before
  refine after.trans ?_
  rw [List.map_append, List.map_append]
  exact ((List.Perm.cons_inv before).append_right _).trans List.perm_append_comm

/-- A worker that goes on with a job has it in hand as what it goes on as, or is free again. -/
theorem step_work {session free : Nat} {failure : Option QueueError}
    (stage : d.stage = .working session free failure) (member : job ∈ d.jobs) {now : Turn}
    {next : Option Job} {crew : Crew} {b : Broker.State}
    (goes : c.step d.broker now job = (next, crew, b))
    : d.step (.crew (.work job c now))
          = (d.doing (.work job c now)).enter
              (.working session (if next.isNone then free + 1 else free) failure)
        ∧ (d.doing (.work job c now)).workplace
          = ⟨d.workplace.market.onBroker b, d.workplace.jobs.erase job ++ next.toList⟩
        ∧ d.Uses (.crew (.work job c now)) c.target crew.target := by
  have inHand := (List.mem_filter.mp member).1
  have stepped : c.step d.workplace.market.broker now job = (next, crew, b) := goes
  refine ⟨?_, ?_, ?_⟩
  · simp [step, stage, labour, member, goes]
  · simp [Workplace.step, inHand, stepped]
  · simp [Uses, stage, member, goes]

/-- The worker with a job in hand goes on with it as the duty's worker with that task does. -/
theorem Mans.work (h : d.Mans c [job]) {now : Turn} {next : Option Job} {crew : Crew}
    {b : Broker.State} (goes : c.step d.broker now job = (next, crew, b))
    : ∃ act, d.Uses act c.target crew.target ∧ (d.step act).broker = b
        ∧ match next with
          | some later => (d.step act).Mans crew [later]
          | none => (d.step act).Mans { crew with pool := crew.pool.release } [] := by
  have task : job.task ∈ d.jobs.map Job.task := h.jobs.mem_iff.mpr (by simp)
  obtain ⟨other, member, same⟩ := List.mem_map.mp task
  have stepped := (c.step_eq_of_task same d.broker now).trans goes
  obtain ⟨acted, worked, uses⟩ := step_work h.stage member stepped
  have queue : other.delivery.queue = d.queue := by simpa using (List.mem_filter.mp member).2
  obtain ⟨target, rfl⟩ : ∃ target, crew = { c with target } := by
    obtain ⟨target, same⟩ := c.exists_target_step d.broker now job
    exact ⟨target, by rw [← same, goes]⟩
  have here : ∀ j ∈ next.toList, j.delivery.queue = d.queue := by
    intro j later
    have goesOn : (c.step d.broker now other).1 = some j := by
      rw [stepped]
      exact Option.mem_toList.mp later
    rw [Crew.delivery_step goesOn, queue]
  have jobs := h.jobs_work member same next.toList here
  refine ⟨.crew (.work other c now), uses, ?_, ?_⟩
  · rw [acted]
    change (d.doing _).workplace.market.broker = b
    rw [worked]
    rfl
  · rw [acted]
    have left : (d.doing (.work other c now)).jobs
        = (d.workplace.jobs.erase other ++ next.toList).filter (·.delivery.queue = d.queue) := by
      rw [Duty.jobs, worked]
      rfl
    rw [← left] at jobs
    cases next with
    | none => exact ⟨rfl, h.consumer, jobs, h.stopping, h.sound, h.manned.release⟩
    | some later => exact ⟨rfl, h.consumer, jobs, h.stopping, h.sound, h.manned⟩

/-- It keeps the job in hand while it waits. -/
theorem Mans.keep (h : d.Mans c [job]) : d.Mans { c with pool := c.pool.keep job } [] where
  stage := h.stage
  consumer := h.consumer
  jobs := h.jobs.trans (List.perm_append_comm.map Job.task)
  stopping := h.stopping
  sound := h.sound
  manned := h.manned

/-- It goes on until it has to wait or is free again, by induction on the steps of its job. -/
theorem Mans.goOn (h : d.Mans c [job]) (now : Turn) (steps : Nat)
    : d.Reaches c.target (Crew.goOn now steps job c d.broker).1 []
        (Crew.goOn now steps job c d.broker).2 := by
  induction steps generalizing d c job with
  | zero => exact h.keep.reaches
  | succ steps ih =>
      unfold Crew.goOn
      split
      · exact h.keep.reaches
      · cases goes : c.step d.broker now job with | mk next after =>
        obtain ⟨crew, b⟩ := after
        obtain ⟨act, uses, rfl, mans⟩ := h.work goes
        have uses : d.UsesAll [act] c.target crew.target := ⟨_, uses, rfl⟩
        cases next with
        | none => exact .after uses mans.reaches
        | some later => exact .after uses (ih mans)

-------------------------------------------------------------------------------
-- Workers at the stream
-------------------------------------------------------------------------------

theorem Mans.step_poll (h : d.Mans c [])
    : d.step (.crew .poll) = d.doing (.client (.poll d.place c.session)) := by
  simp [step, h.stage, labour]

/-- A poll waits at the session, and is no change to the crew. -/
theorem Mans.poll (h : d.Mans c []) : (d.step (.crew .poll)).Mans c [] := by
  rw [h.step_poll]
  refine ⟨h.stage, h.consumer, ?_, h.stopping, h.sound, h.manned⟩
  rw [jobs_doing]
  exact h.jobs

/-- A worker at the stream takes what its poll has waited for. -/
theorem Mans.receive (h : d.Mans c []) (kept : d.Kept) (idle : 0 < c.pool.free)
    (going : c.pool.isStopping = false) {delivery : Delivery} {market : Market}
    (received : d.workplace.market.receive? d.place c.session = some (delivery, market))
    (now : Turn)
    : (d.step (.crew (.take now))).Mans { c with pool := c.pool.occupy now }
          [⟨delivery, .fresh, now⟩]
        ∧ (d.step (.crew (.take now))).broker = market.broker := by
  obtain ⟨consumer, -, found, same, -⟩ := Market.of_receive? received
  have here : delivery.queue = d.queue := by
    rw [same, ← Option.some.inj ((h.known kept).1.symm.trans found), h.consumer]
    rfl
  have worked : d.workplace.step (.take d.place c.session now)
      = ⟨market, d.workplace.jobs ++ [⟨delivery, .fresh, now⟩]⟩ := by
    simp [Workplace.step, received]
  have acted : d.step (.crew (.take now))
      = (d.doing (.take d.place c.session now)).enter
          (.working c.session (c.pool.free - 1) none) := by
    simp [step, h.stage, labour, idle, received]
  have jobs : (d.doing (.take d.place c.session now)).jobs
      = d.jobs ++ [⟨delivery, .fresh, now⟩] := by
    rw [jobs_doing, worked]
    simp [Workplace.jobsAt, List.filter_append, here, Duty.jobs]
  rw [acted]
  refine ⟨⟨rfl, h.consumer, ?_, h.stopping, h.sound, Pool.isManned_occupy going now⟩, ?_⟩
  · change ((d.doing (.take d.place c.session now)).jobs.map Job.task).Perm _
    rw [jobs, List.map_append]
    exact (h.jobs.append_right _).trans List.perm_append_comm
  · exact (d.broker_doing _).trans (by rw [worked])

/-- A worker takes a delivery from the stream, in two steps. -/
theorem Mans.take (h : d.Mans c []) (kept : d.Kept) (idle : 0 < c.pool.free)
    (going : c.pool.isStopping = false) {delivery : Delivery} {b : Broker.State}
    (taken : c.consumer.take? d.broker c.session = some (delivery, b)) (now : Turn)
    : d.Reaches c.target { c with pool := c.pool.occupy now } [⟨delivery, .fresh, now⟩] b := by
  obtain ⟨known, stream⟩ := h.known kept
  have received := Market.receive?_of_take? known stream taken
  have polled : (d.step (.crew .poll)).workplace.market
      = d.workplace.market.serve (.poll d.place c.session) := by
    rw [h.step_poll, workplace_doing]
    rfl
  have place : (d.step (.crew .poll)).place = d.place := by rw [h.step_poll]; rfl
  rw [← polled, ← place] at received
  obtain ⟨mans, left⟩ := h.poll.receive (kept.step _) idle going received now
  exact ⟨[.crew .poll, .crew (.take now)], usesAll_of_sparesTarget rfl _, mans, left⟩

/-- At the stream there is a delivery or nothing: while workers are there, the consumer is not
closed. -/
theorem Mans.look (h : d.Mans c [])
    : (∃ delivery b, c.look d.broker = .delivery delivery b
          ∧ c.consumer.take? d.broker c.session = some (delivery, b))
        ∨ c.look d.broker = .nothing := by
  have open_ : c.consumer.session = some c.session := by rw [h.consumer]; rfl
  cases taken : c.consumer.take? d.broker c.session with
  | some result =>
      obtain ⟨delivery, b⟩ := result
      exact .inl ⟨delivery, b, by simp [Crew.look, open_, taken], rfl⟩
  | none => exact .inr (by simp [Crew.look, open_, taken])

theorem Mans.wait (h : d.Mans c []) (idle : 0 < c.pool.free) (going : c.pool.isStopping = false)
    : d.Mans { c with pool := c.pool.wait } [] where
  stage := h.stage
  consumer := h.consumer
  jobs := h.jobs
  stopping := h.stopping
  sound := h.sound
  manned _ := ⟨idle, going⟩

/-- A worker at the stream takes what it can, by induction on the fuel. -/
theorem Mans.read (h : d.Mans c []) (kept : d.Kept) (idle : 0 < c.pool.free)
    (going : c.pool.isStopping = false) (now : Turn) (fuel : Nat)
    : d.Reaches c.target (Crew.read now fuel c d.broker).1 []
        (Crew.read now fuel c d.broker).2 := by
  induction fuel generalizing d c with
  | zero => exact (h.wait idle going).reaches
  | succ fuel ih =>
      unfold Crew.read
      rcases h.look with ⟨delivery, b, found, taken⟩ | nothing
      · simp only [found]
        refine (h.take kept idle going taken now).trans kept fun e kept mans left => ?_
        subst left
        refine (mans.goOn now 3).trans kept fun e' kept mans left => ?_
        simp only [Crew.handle, ← left]
        split
        · rename_i unattended
          obtain ⟨idle, going⟩ := Pool.of_isUnattended unattended
          exact ih mans kept idle going
        · exact mans.reaches
      · simp only [nothing]
        exact (h.wait idle going).reaches

/-- The worker of a turn goes on, at the stream or with its job. -/
theorem Mans.advance (h : d.Mans c []) (kept : d.Kept) (turn now : Turn)
    : d.Reaches c.target (c.advance d.broker turn now).1 []
        (c.advance d.broker turn now).2 := by
  unfold Crew.advance
  split
  · rename_i called
    have attended : c.pool.reader ≠ .nobody := by
      intro nobody
      simp [nobody, Reader.wake?] at called
    obtain ⟨idle, going⟩ := h.manned attended
    exact h.read kept idle going now _
  · split
    · exact h.reaches
    · rename_i job found
      have member := List.mem_of_find?_eq_some found
      have inHand : d.Mans { c with pool := { c.pool with jobs := c.pool.jobs.erase job } } [job] :=
        { h with jobs := h.jobs.trans ((List.perm_cons_erase member).map Job.task) }
      refine (inHand.goOn now 3).trans kept fun e kept mans left => ?_
      simp only [Crew.handle, ← left]
      split
      · rename_i unattended
        obtain ⟨idle, going⟩ := Pool.of_isUnattended unattended
        exact mans.read kept idle going now _
      · exact mans.reaches

theorem Mans.alert (h : d.Mans c []) (now : Turn) : d.Mans (c.alert d.broker now) [] := by
  have calls : d.Mans { c with pool := c.pool.call now } [] := by
    unfold Pool.call
    split
    · rename_i waiting
      exact ⟨h.stage, h.consumer, h.jobs, h.stopping, h.sound,
        fun _ => h.manned (by simp [waiting])⟩
    · exact h
  unfold Crew.alert
  split
  · exact h
  · exact calls

/-- Workers that are to stop are told so. -/
theorem Mans.stop (h : d.Mans c []) (stopping : d.isStopping) (now : Turn)
    : d.Mans (c.stop now) [] where
  stage := h.stage
  consumer := h.consumer
  jobs := by
    simpa [Crew.stop, Job.task_hurry, Function.comp_def] using h.jobs
  stopping _ := stopping
  sound := h.sound
  manned attended := absurd rfl attended

/-- What spares the run's things leaves its workers where they are. -/
theorem Mans.spared {e : Duty} (h : d.Mans c hand) (stage : e.stage = d.stage)
    (spares : d.Spares e)
    : e.Mans c hand where
  stage := stage.trans h.stage
  consumer := by
    rw [h.consumer, client, client, spares.consumer]
  jobs := (spares.jobs.map Job.task).trans h.jobs
  stopping := spares.stopping ∘ h.stopping
  sound := h.sound
  manned := h.manned

/-- A request to stop that was made reaches the workers. -/
theorem Mans.hear (h : d.Mans c []) (asked : d.request ≠ .unmade ∨ d.sender.shutDown)
    : (d.step (.crew .hear)).Mans c [] ∧ (d.step (.crew .hear)).isStopping
      ∧ (d.step (.crew .hear)).broker = d.broker := by
  have heard : d.step (.crew .hear) = { d with request := d.request.hear } := by
    simp [step, h.stage, labour]
  rw [heard]
  refine ⟨h.spared rfl spares_hear, ?_, rfl⟩
  refine isStopping_iff.mpr (asked.symm.imp id fun made => ?_)
  change d.request.hear = .heard
  cases request : d.request with
  | unmade => exact absurd request made
  | made | heard => rfl

end Duty

end Relay

end Almanac
