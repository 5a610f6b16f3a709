import Almanac.Proofs.Relay.Workplace

/-! What the notes of a queue say of the deliveries in the hands of handlers.
A job's stage tells what was decoded, relayed and decided under its tag, and every act keeps it so.
-/

namespace Almanac.Relay

open Time Broker

-------------------------------------------------------------------------------
-- Jobs and the notes of their queue
-------------------------------------------------------------------------------

/-- A notification was relayed under a tag, after the delivery of that tag was taken. -/
def RelayedAfter (notes : List Note) (copy : Copy) (tag : Nat) (n : Notification) : Prop :=
  ∃ before later, notes = before ++ .happened (.delivered copy tag) :: later
    ∧ .dealt ⟨tag, n, .relayed⟩ ∈ later

theorem RelayedAfter.append {notes : List Note} {copy : Copy} {tag : Nat} {n : Notification}
    (h : RelayedAfter notes copy tag n) (more : List Note)
    : RelayedAfter (notes ++ more) copy tag n := by
  obtain ⟨before, later, rfl, relayed⟩ := h
  exact ⟨before, later ++ more, by simp, List.mem_append_left _ relayed⟩

/-- What is relayed now, under the tag of a delivery noted before, is relayed after it. -/
theorem RelayedAfter.of_mem {notes more : List Note} {copy : Copy} {tag : Nat} {n : Notification}
    (delivered : .happened (.delivered copy tag) ∈ notes)
    (relayed : .dealt ⟨tag, n, .relayed⟩ ∈ more)
    : RelayedAfter (notes ++ more) copy tag n := by
  obtain ⟨before, later, rfl⟩ := List.append_of_mem delivered
  exact ⟨before, later ++ more, by simp, List.mem_append_right _ relayed⟩

/-- The notes of a queue fit a job at one of its deliveries. -/
structure Job.Fits (j : Job) (notes : List Note) : Prop where
  taken
    : ∃ number, .happened (.delivered ⟨number, j.delivery.body⟩ j.delivery.tag) ∈ notes
  undecided : j.stage ≠ .pausing → j.delivery.tag ∉ notes.filterMap Note.decided?
  unacknowledged : ∀ copy, .happened (.acknowledged copy j.delivery.tag) ∉ notes
  underway
    : ∀ n, j.stage = .relaying n → Notification.decode j.delivery.body = .ok n
  relayed
    : j.stage = .relayed → ∃ n number, Notification.decode j.delivery.body = .ok n
        ∧ RelayedAfter notes ⟨number, j.delivery.body⟩ j.delivery.tag n

/-- More notes fit a job as long as they decide nothing under its tag. -/
theorem Job.Fits.append {j : Job} {notes more : List Note} (h : j.Fits notes)
    (spares : j.delivery.tag ∉ more.filterMap Note.decided?)
    : j.Fits (notes ++ more) where
  taken := by
    obtain ⟨number, delivered⟩ := h.taken
    exact ⟨number, List.mem_append_left _ delivered⟩
  undecided open_ := by
    rw [List.filterMap_append, List.mem_append]
    exact not_or.mpr ⟨h.undecided open_, spares⟩
  unacknowledged copy acknowledged := by
    rcases List.mem_append.mp acknowledged with earlier | new
    · exact h.unacknowledged copy earlier
    · exact spares (List.mem_filterMap.mpr ⟨_, new, rfl⟩)
  underway := h.underway
  relayed stage := by
    obtain ⟨n, number, decoded, relayed⟩ := h.relayed stage
    exact ⟨n, number, decoded, relayed.append more⟩

/-- More notes fit a job that goes on, as long as they say what its next stage needs. -/
theorem Job.Fits.become {j : Job} {notes more : List Note} (h : j.Fits notes) {stage : Stage}
    (turn : Turn)
    (unacknowledged : ∀ copy, .happened (.acknowledged copy j.delivery.tag) ∉ more)
    (undecided
      : stage ≠ .pausing → j.stage ≠ .pausing ∧ j.delivery.tag ∉ more.filterMap Note.decided?)
    (underway : ∀ n, stage = .relaying n → Notification.decode j.delivery.body = .ok n)
    (relayed
      : stage = .relayed → ∃ n, Notification.decode j.delivery.body = .ok n
          ∧ .dealt ⟨j.delivery.tag, n, .relayed⟩ ∈ more)
    : (j.become stage turn).Fits (notes ++ more) where
  taken := by
    obtain ⟨number, delivered⟩ := h.taken
    exact ⟨number, List.mem_append_left _ delivered⟩
  undecided notPausing := by
    obtain ⟨before, spares⟩ := undecided notPausing
    rw [List.filterMap_append, List.mem_append]
    exact not_or.mpr ⟨h.undecided before, spares⟩
  unacknowledged copy acknowledged := by
    rcases List.mem_append.mp acknowledged with earlier | new
    · exact h.unacknowledged copy earlier
    · exact unacknowledged copy new
  underway := underway
  relayed stage := by
    obtain ⟨n, decoded, done⟩ := relayed stage
    obtain ⟨number, delivered⟩ := h.taken
    exact ⟨n, number, decoded, .of_mem delivered done⟩

-------------------------------------------------------------------------------
-- The invariant
-------------------------------------------------------------------------------

/-- What holds of a workplace and the notes of a queue. Its accounts balance, no two jobs are at one
delivery, what was passed to a target was decoded from the delivery of that tag, and no delivery was
both refused by a target and acknowledged. -/
structure Workplace.Sound (w : Workplace) (name : String) (notes : List Note) : Prop where
  accounted : (w.market.broker.queueOf name).Accounted (notes.filterMap Note.happening?)
  distinct
    : w.jobs.Pairwise fun a b =>
        a.delivery.queue = name → b.delivery.queue = name → a.delivery.tag ≠ b.delivery.tag
  fits : ∀ j ∈ w.jobs, j.delivery.queue = name → j.Fits notes
  passed
    : ∀ d : Dealing, .dealt d ∈ notes →
        ∃ copy, .happened (.delivered copy d.tag) ∈ notes
          ∧ Notification.decode copy.body = .ok d.notification
  spared
    : ∀ tag n, .dealt ⟨tag, n, .refused⟩ ∈ notes →
        ∀ copy, .happened (.acknowledged copy tag) ∉ notes

-------------------------------------------------------------------------------
-- What an act notes
-------------------------------------------------------------------------------

/-- The job that an act goes on with. -/
def WorkAct.job? : WorkAct → Option Job
  | .work job _ _ | .balk job _ => some job
  | .client _ | .take _ _ _ | .abandon _ => none

/-- In a step, a handler passes to its target what it decodes from its delivery. A refusal ends the
attempt, or what it was underway to. -/
theorem Crew.of_mem_dealings {c : Crew} {b : Broker.State} {job : Job} {notes : List Note}
    (fits : job.Fits notes) {d : Dealing} (member : d ∈ c.dealings b job)
    : d.tag = job.delivery.tag ∧ Notification.decode job.delivery.body = .ok d.notification := by
  cases stage : job.stage with
  | fresh =>
      cases decoded : Notification.decode job.delivery.body with
      | error e => simp [dealings, stage, decoded] at member
      | ok n =>
          cases verdict : (c.target.attempt b n).1 <;>
            simp only [dealings, stage, decoded, verdict, List.mem_cons, List.not_mem_nil,
              or_false] at member <;>
            rcases member with rfl | rfl <;> exact ⟨rfl, rfl⟩
  | relaying n =>
      obtain rfl := List.mem_singleton.mp (by simpa [dealings, stage] using member)
      exact ⟨rfl, fits.underway n stage⟩
  | relayed => simp [dealings, stage] at member
  | pausing => simp [dealings, stage] at member

/-- In a step, only the attempt itself may be refused. -/
theorem Crew.fresh_of_refused {c : Crew} {b : Broker.State} {job : Job} {tag : Nat}
    {n : Notification} (refused : ⟨tag, n, .refused⟩ ∈ c.dealings b job)
    : tag = job.delivery.tag ∧ job.stage = .fresh := by
  cases stage : job.stage with
  | fresh =>
      cases decoded : Notification.decode job.delivery.body with
      | error e => simp [dealings, stage, decoded] at refused
      | ok decodedAs =>
          cases verdict : (c.target.attempt b decodedAs).1 <;>
            simp_all [dealings]
  | relaying n => simp [dealings, stage] at refused
  | relayed => simp [dealings, stage] at refused
  | pausing => simp [dealings, stage] at refused

/-- Only a step of a relayed job acknowledges, and what it acknowledges is its own delivery. -/
theorem Crew.relayed_of_acknowledge {c : Crew} {b : Broker.State} {job : Job} {name : String}
    {tag : Nat} (member : .acknowledge tag ∈ c.moves b job name)
    : job.delivery.queue = name ∧ tag = job.delivery.tag ∧ job.stage = .relayed := by
  cases stage : job.stage with
  | fresh =>
      cases decoded : Notification.decode job.delivery.body with
      | error e => simp [moves, stage, decoded] at member
      | ok n =>
          simp only [moves, stage, decoded] at member
          obtain ⟨payload, push⟩ := Target.push_of_moves member
          cases push
  | relaying n => simp [moves, stage] at member
  | relayed =>
      have here : name = job.delivery.queue ∧ tag = job.delivery.tag := by
        simpa [moves, stage] using member
      exact ⟨here.1.symm, here.2, rfl⟩
  | pausing => simp [moves, stage] at member

theorem not_acknowledge_of_client (m : Market) (name : String) (act : ClientAct) (tag : Nat)
    : .acknowledge tag ∉ m.actMoves name (.client act) := by
  intro member
  cases act with
  | publish place body =>
      cases known : m.producers[place]? with
      | none => simp [Market.actMoves, Market.moves, known] at member
      | some p =>
          simp only [Market.actMoves, Market.moves, known, Option.elim] at member
          cases Producer.push_of_moves member
  | purge place =>
      cases known : m.consumers[place]? <;>
        simp [Market.actMoves, Market.moves, known] at member
  | handBack queue consumer => simp [Market.actMoves, Market.moves] at member
  | _ => cases member

namespace Workplace

variable {w : Workplace} {name : String} {notes : List Note} {act : WorkAct}

theorem happenings_notes (w : Workplace) (name : String) (act : WorkAct)
    : (w.notes name act).filterMap Note.happening?
      = (w.market.broker.queueOf name).log (w.moves name act) := by
  simp [Workplace.notes, Note.happening?, Function.comp_def]

theorem dealt_mem_notes {d : Dealing} : .dealt d ∈ w.notes name act ↔ d ∈ w.dealings name act := by
  simp [Workplace.notes]

theorem happened_mem_notes {happening : Happening}
    : .happened happening ∈ w.notes name act
      ↔ happening ∈ (w.market.broker.queueOf name).log (w.moves name act) := by
  simp [Workplace.notes]

/-- What an act passes to a target is decoded from the delivery of its tag. -/
theorem decoded_of_dealt (fits : ∀ j ∈ w.jobs, j.delivery.queue = name → j.Fits notes)
    {d : Dealing} (dealt : .dealt d ∈ w.notes name act)
    : ∃ copy, .happened (.delivered copy d.tag) ∈ notes
        ∧ Notification.decode copy.body = .ok d.notification := by
  have dealt := dealt_mem_notes.mp dealt
  cases act with
  | work job crew now =>
      simp only [dealings] at dealt
      split at dealt
      · rename_i here
        have fitting := fits job here.1 here.2
        obtain ⟨tagged, decoded⟩ := Crew.of_mem_dealings fitting dealt
        obtain ⟨number, delivered⟩ := fitting.taken
        exact ⟨_, tagged ▸ delivered, decoded⟩
      · cases dealt
  | balk job now =>
      simp only [dealings] at dealt
      split at dealt
      · rename_i here
        have fitting := fits job here.1 here.2
        obtain ⟨number, delivered⟩ := fitting.taken
        cases stage : job.stage with
        | relaying n =>
            obtain rfl := List.mem_singleton.mp (by simpa [Job.balking, stage] using dealt)
            exact ⟨_, delivered, fitting.underway n stage⟩
        | _ => simp [Job.balking, stage] at dealt
      · cases dealt
  | _ => cases dealt

/-- What an act refuses is the delivery of its job, before that job's pause. -/
theorem job_of_refused {tag : Nat} {n : Notification}
    (refused : .dealt ⟨tag, n, .refused⟩ ∈ w.notes name act)
    : ∃ job ∈ w.jobs, act.job? = some job ∧ job.delivery.queue = name
        ∧ job.delivery.tag = tag ∧ job.stage ≠ .pausing ∧ job.stage ≠ .relayed := by
  have refused := dealt_mem_notes.mp refused
  cases act with
  | work job crew now =>
      simp only [dealings] at refused
      split at refused
      · rename_i here
        obtain ⟨rfl, fresh⟩ := Crew.fresh_of_refused refused
        exact ⟨job, here.1, rfl, here.2, rfl, by simp [fresh], by simp [fresh]⟩
      · cases refused
  | balk job now =>
      simp only [dealings] at refused
      split at refused
      · rename_i here
        cases stage : job.stage with
        | relaying passed =>
            obtain ⟨rfl, -⟩ : tag = job.delivery.tag ∧ n = passed := by
              simpa [Job.balking, stage] using refused
            exact ⟨job, here.1, rfl, here.2, rfl, by simp [stage], by simp [stage]⟩
        | _ => simp [Job.balking, stage] at refused
      · cases refused
  | _ => cases refused

/-- What an act acknowledges is the delivery of its job, which was relayed. -/
theorem job_of_acknowledged {copy : Copy} {tag : Nat}
    (acknowledged : .happened (.acknowledged copy tag) ∈ w.notes name act)
    : ∃ job ∈ w.jobs, act.job? = some job ∧ job.delivery.queue = name
        ∧ job.delivery.tag = tag ∧ job.stage = .relayed := by
  have member := Queue.acknowledge_of_mem_log (happened_mem_notes.mp acknowledged)
  cases act with
  | client act => exact absurd member (not_acknowledge_of_client _ _ _ _)
  | take place session turn =>
      cases known : w.market.consumers[place]? <;>
        simp [moves, Market.actMoves, Market.takeMoves, known] at member
  | work job crew now =>
      simp only [moves] at member
      split at member
      · rename_i here
        obtain ⟨queue, rfl, stage⟩ := Crew.relayed_of_acknowledge member
        exact ⟨job, here, rfl, queue, rfl, stage⟩
      · cases member
  | _ => cases member

/-- What an act decides is about the delivery of its job, before that job's pause. -/
theorem job_of_decided {tag : Nat}
    (decided : tag ∈ (w.notes name act).filterMap Note.decided?)
    : ∃ job ∈ w.jobs, act.job? = some job ∧ job.delivery.queue = name
        ∧ job.delivery.tag = tag ∧ job.stage ≠ .pausing := by
  obtain ⟨note, member, decides⟩ := List.mem_filterMap.mp decided
  unfold Note.decided? at decides
  split at decides
  · obtain rfl := Option.some.inj decides
    obtain ⟨job, hand, act, queue, tagged, stage⟩ := job_of_acknowledged member
    exact ⟨job, hand, act, queue, tagged, by simp [stage]⟩
  · obtain rfl := Option.some.inj decides
    obtain ⟨job, hand, act, queue, tagged, stage, -⟩ := job_of_refused member
    exact ⟨job, hand, act, queue, tagged, stage⟩
  · cases decides

-------------------------------------------------------------------------------
-- Every act keeps the invariant
-------------------------------------------------------------------------------

theorem Sound.start (name : String) : Sound {} name [] where
  accounted := Queue.Accounted.start
  distinct := List.Pairwise.nil
  fits _ hand := absurd hand List.not_mem_nil
  passed _ dealt := absurd dealt List.not_mem_nil
  spared _ _ refused := absurd refused List.not_mem_nil

/-- The accounts of the queue balance after an act. -/
theorem Sound.accounted_step (h : w.Sound name notes) (act : WorkAct)
    : ((w.step act).market.broker.queueOf name).Accounted
        ((notes ++ w.notes name act).filterMap Note.happening?) := by
  rw [queueOf_step, List.filterMap_append, happenings_notes]
  exact h.accounted.afterAll _

/-- A job in the place of another at the same delivery is at no delivery of a third. -/
theorem Sound.distinct_replace (h : w.Sound name notes) {job : Job} (hand : job ∈ w.jobs)
    (next : Option Job) (same : ∀ j ∈ next, j.delivery = job.delivery)
    : (w.jobs.erase job ++ next.toList).Pairwise fun a b =>
        a.delivery.queue = name → b.delivery.queue = name → a.delivery.tag ≠ b.delivery.tag := by
  have others := ((List.perm_cons_erase hand).pairwise_iff
    fun apart queue queue' => (apart queue' queue).symm).mp h.distinct
  obtain ⟨apart, others⟩ := List.pairwise_cons.mp others
  cases next with
  | none => simpa using others
  | some j =>
      refine List.pairwise_append.mpr ⟨others, List.pairwise_singleton _ _, ?_⟩
      intro other member j' last
      obtain rfl := List.mem_singleton.mp last
      rw [same j' rfl]
      exact fun queue queue' => (apart other member queue' queue).symm

/-- Another job of the queue is at another delivery. -/
theorem Sound.tag_ne (h : w.Sound name notes) {job other : Job} (hand : job ∈ w.jobs)
    (member : other ∈ w.jobs.erase job) (queue : job.delivery.queue = name)
    (queue' : other.delivery.queue = name)
    : job.delivery.tag ≠ other.delivery.tag := by
  have others := ((List.perm_cons_erase hand).pairwise_iff
    fun apart queue queue' => (apart queue' queue).symm).mp h.distinct
  exact (List.pairwise_cons.mp others).1 other member queue queue'

/-- A tag of which something is decided was handed out. -/
theorem Sound.le_of_decided (h : w.Sound name notes) {tag : Nat}
    (decided : tag ∈ notes.filterMap Note.decided?)
    : tag ≤ (w.market.broker.queueOf name).lastTag := by
  obtain ⟨note, member, decides⟩ := List.mem_filterMap.mp decided
  unfold Note.decided? at decides
  split at decides
  · rename_i copy closed
    obtain rfl := Option.some.inj decides
    refine h.accounted.le_of_opening (h.accounted.opening_of_closing ?_)
    exact List.mem_filterMap.mpr
      ⟨.acknowledged copy closed, List.mem_filterMap.mpr ⟨_, member, rfl⟩, rfl⟩
  · obtain rfl := Option.some.inj decides
    obtain ⟨copy, delivered, -⟩ := h.passed _ member
    apply h.accounted.le_of_opening
    exact List.mem_filterMap.mpr
      ⟨.delivered copy _, List.mem_filterMap.mpr ⟨_, delivered, rfl⟩, rfl⟩
  · cases decides

/-- A delivery of the queue that is pending or was ever is under a tag that was handed out. -/
theorem Sound.le_of_job (h : w.Sound name notes) {job : Job} (hand : job ∈ w.jobs)
    (queue : job.delivery.queue = name)
    : job.delivery.tag ≤ (w.market.broker.queueOf name).lastTag := by
  obtain ⟨number, delivered⟩ := (h.fits job hand queue).taken
  apply h.accounted.le_of_opening
  exact List.mem_filterMap.mpr
    ⟨.delivered _ _, List.mem_filterMap.mpr ⟨_, delivered, rfl⟩, rfl⟩

/-- What an act passes to a target was decoded from the delivery of its tag, also in the end. -/
theorem Sound.passed_step (h : w.Sound name notes) (act : WorkAct) (d : Dealing)
    (dealt : .dealt d ∈ notes ++ w.notes name act)
    : ∃ copy, .happened (.delivered copy d.tag) ∈ notes ++ w.notes name act
        ∧ Notification.decode copy.body = .ok d.notification := by
  obtain ⟨copy, delivered, decoded⟩ :
      ∃ copy, .happened (.delivered copy d.tag) ∈ notes
        ∧ Notification.decode copy.body = .ok d.notification := by
    rcases List.mem_append.mp dealt with earlier | now
    · exact h.passed d earlier
    · exact decoded_of_dealt h.fits now
  exact ⟨copy, List.mem_append_left _ delivered, decoded⟩

/-- No delivery is both refused by a target and acknowledged. Witness: the job at the delivery has
decided nothing before it decides, and does not decide both ways at once. -/
theorem Sound.spared_step (h : w.Sound name notes) (act : WorkAct) (tag : Nat) (n : Notification)
    (refused : .dealt ⟨tag, n, .refused⟩ ∈ notes ++ w.notes name act) (copy : Copy)
    : .happened (.acknowledged copy tag) ∉ notes ++ w.notes name act := by
  intro acknowledged
  rcases List.mem_append.mp refused with refused | refused
  · rcases List.mem_append.mp acknowledged with acknowledged | acknowledged
    · exact h.spared tag n refused copy acknowledged
    · obtain ⟨job, hand, -, queue, rfl, stage⟩ := job_of_acknowledged acknowledged
      apply (h.fits job hand queue).undecided (by simp [stage])
      exact List.mem_filterMap.mpr ⟨_, refused, rfl⟩
  · obtain ⟨job, hand, goesOn, queue, rfl, early, notRelayed⟩ := job_of_refused refused
    rcases List.mem_append.mp acknowledged with acknowledged | acknowledged
    · exact (h.fits job hand queue).unacknowledged copy acknowledged
    · obtain ⟨other, -, goesOn', -, -, stage⟩ := job_of_acknowledged acknowledged
      obtain rfl := Option.some.inj (goesOn.symm.trans goesOn')
      exact notRelayed stage

section Work

variable {job next : Job} {crew : Crew} {now : Turn}

/-- A step acknowledges the delivery of its job only when that was relayed. -/
theorem not_acknowledged_of_work (early : job.stage ≠ .relayed) (copy : Copy)
    : .happened (.acknowledged copy job.delivery.tag) ∉ w.notes name (.work job crew now) := by
  intro acknowledged
  obtain ⟨other, -, same, -, -, stage⟩ := job_of_acknowledged acknowledged
  obtain rfl := Option.some.inj same
  exact early stage

/-- What a step of a job of the queue passes to its target is noted. -/
theorem dealt_of_work (hand : job ∈ w.jobs) (queue : job.delivery.queue = name) {d : Dealing}
    : .dealt d ∈ w.notes name (.work job crew now) ↔ d ∈ crew.dealings w.market.broker job := by
  rw [dealt_mem_notes]
  simp [dealings, hand, queue]

/-- A step that neither ends a relayed job nor sees the target refuse decides nothing. -/
theorem not_decided_of_work (hand : job ∈ w.jobs) (queue : job.delivery.queue = name)
    (early : job.stage ≠ .relayed)
    (unrefused : ∀ n, ⟨job.delivery.tag, n, .refused⟩ ∉ crew.dealings w.market.broker job)
    : job.delivery.tag ∉ (w.notes name (.work job crew now)).filterMap Note.decided? := by
  intro decided
  obtain ⟨note, member, decides⟩ := List.mem_filterMap.mp decided
  unfold Note.decided? at decides
  split at decides
  · obtain rfl := Option.some.inj decides
    exact not_acknowledged_of_work early _ member
  · obtain rfl := Option.some.inj decides
    exact unrefused _ ((dealt_of_work hand queue).mp member)
  · cases decides

/-- The first step of a job fits the job that it gives, by cases on the verdict of the target. -/
theorem fits_attempt (hand : job ∈ w.jobs) (queue : job.delivery.queue = name)
    (fits : job.Fits notes) (stage : job.stage = .fresh)
    (goesOn : (crew.step w.market.broker now job).1 = some next)
    : next.Fits (notes ++ w.notes name (.work job crew now)) := by
  have early : job.stage ≠ .relayed := by simp [stage]
  have before : job.stage ≠ .pausing := by simp [stage]
  have spares (copy : Copy)
      : .happened (.acknowledged copy job.delivery.tag) ∉ w.notes name (.work job crew now) :=
    not_acknowledged_of_work early copy
  cases decoded : Notification.decode job.delivery.body with
  | error e => simp [Crew.step, stage, decoded] at goesOn
  | ok n =>
      cases verdict : (crew.target.attempt w.market.broker n).1 with
      | taken =>
          obtain rfl : job.become .relayed now = next := by
            simpa [Crew.step, stage, decoded, verdict] using goesOn
          refine fits.become now spares
            (fun _ => ⟨before, not_decided_of_work hand queue early ?_⟩) (by simp)
            (fun _ => ⟨n, decoded, (dealt_of_work hand queue).mpr ?_⟩)
          · simp [Crew.dealings, stage, decoded, verdict]
          · simp [Crew.dealings, stage, decoded, verdict]
      | underway millis =>
          obtain rfl : job.become (.relaying n) (now.after millis) = next := by
            simpa [Crew.step, stage, decoded, verdict] using goesOn
          refine fits.become _ spares
            (fun _ => ⟨before, not_decided_of_work hand queue early ?_⟩) (fun _ same => ?_) (by simp)
          · simp [Crew.dealings, stage, decoded, verdict]
          · cases same
            exact decoded
      | refused cause =>
          obtain rfl : job.become .pausing (now.after crew.pause) = next := by
            simpa [Crew.step, stage, decoded, verdict] using goesOn
          exact fits.become _ spares (absurd rfl) (by simp) (by simp)

/-- A step of a job of the queue fits the job that it gives, by cases on the stage. -/
theorem fits_work (hand : job ∈ w.jobs) (queue : job.delivery.queue = name)
    (fits : job.Fits notes) (goesOn : (crew.step w.market.broker now job).1 = some next)
    : next.Fits (notes ++ w.notes name (.work job crew now)) := by
  cases stage : job.stage with
  | fresh => exact fits_attempt hand queue fits stage goesOn
  | relaying n =>
      have early : job.stage ≠ .relayed := by simp [stage]
      have before : job.stage ≠ .pausing := by simp [stage]
      obtain rfl : job.become .relayed now = next := by
        simpa [Crew.step, stage] using goesOn
      refine fits.become now (not_acknowledged_of_work early)
        (fun _ => ⟨before, not_decided_of_work hand queue early ?_⟩) (by simp)
        (fun _ => ⟨n, fits.underway n stage, (dealt_of_work hand queue).mpr ?_⟩)
      · simp [Crew.dealings, stage]
      · simp [Crew.dealings, stage]
  | relayed => simp [Crew.step, stage] at goesOn
  | pausing => simp [Crew.step, stage] at goesOn

end Work

/-- A job whose target refuses after a while fits what is noted of it. -/
theorem fits_balk {job : Job} {now : Turn} (hand : job ∈ w.jobs)
    (queue : job.delivery.queue = name) (fits : job.Fits notes)
    : (job.balk now).Fits (notes ++ w.notes name (.balk job now)) := by
  have balking : w.notes name (.balk job now) = job.balking.map .dealt := by
    simp [Workplace.notes, dealings, moves, hand, queue]
  rw [balking]
  cases stage : job.stage with
  | relaying n =>
      simp only [Job.balk, Job.balking, stage]
      exact fits.become now (by simp) (absurd rfl) (by simp) (by simp)
  | _ => simpa [Job.balk, Job.balking, stage] using fits

/-- The notes fit a delivery that is taken now: nothing was decided under its tag. -/
theorem Sound.fits_take (h : w.Sound name notes) {place session : Nat} {turn : Turn}
    {d : Delivery} {market : Market}
    (taken : w.market.receive? place session = some (d, market)) (queue : d.queue = name)
    : Job.Fits ⟨d, .fresh, turn⟩ (notes ++ w.notes name (.take place session turn)) := by
  subst queue
  obtain ⟨next, number, logged⟩ := Market.log_receive? taken
  have noted : w.notes d.queue (.take place session turn)
      = [.happened (.delivered ⟨number, d.body⟩ d.tag)] := by
    simp [Workplace.notes, dealings, moves, Market.actMoves, logged]
  -- Decided tags were handed out, and this one comes next.
  have undecided : d.tag ∉ notes.filterMap Note.decided? := by
    intro decided
    have old := h.le_of_decided decided
    omega
  rw [noted]
  refine ⟨⟨number, by simp⟩, fun _ => ?_, fun copy acknowledged => ?_, by simp, by simp⟩
  · simpa [Note.decided?] using undecided
  · refine undecided (List.mem_filterMap.mpr ⟨.happened (.acknowledged copy d.tag), ?_, rfl⟩)
    simpa using acknowledged

/-- An act that goes on with no job of the queue at this delivery leaves the job there as it is. -/
theorem Sound.fits_others (h : w.Sound name notes) {j : Job} (member : j ∈ w.jobs)
    (queue : j.delivery.queue = name)
    (other
      : ∀ job ∈ w.jobs, act.job? = some job → job.delivery.queue = name →
          job.delivery.tag ≠ j.delivery.tag)
    : j.Fits (notes ++ w.notes name act) := by
  apply (h.fits j member queue).append
  intro decided
  obtain ⟨job, hand, goesOn, queue, tagged, -⟩ := job_of_decided decided
  exact other job hand goesOn queue tagged

/-- The notes fit all jobs after an act, by cases on the act. -/
theorem Sound.fits_step (h : w.Sound name notes) (act : WorkAct)
    : ∀ j ∈ (w.step act).jobs, j.delivery.queue = name → j.Fits (notes ++ w.notes name act) := by
  intro j member queue
  cases act with
  | client act => exact h.fits_others member queue (by simp [WorkAct.job?])
  | take place session turn =>
      have untouched (earlier : j ∈ w.jobs)
          : j.Fits (notes ++ w.notes name (.take place session turn)) :=
        h.fits_others earlier queue (by simp [WorkAct.job?])
      cases taken : w.market.receive? place session with
      | none => exact untouched (by simpa [step, taken] using member)
      | some result =>
          rcases (by simpa [step, taken] using member : _ ∨ _) with earlier | rfl
          · exact untouched earlier
          · exact h.fits_take taken queue
  | work job crew now =>
      by_cases hand : job ∈ w.jobs
      · simp only [step, hand, if_true, List.mem_append, Option.mem_toList] at member
        rcases member with other | next
        · apply h.fits_others (List.mem_of_mem_erase other) queue
          intro job' _ same queue'
          obtain rfl := Option.some.inj same
          exact h.tag_ne hand other queue' queue
        · have here := (Crew.delivery_step next) ▸ queue
          exact fits_work hand here (h.fits job hand here) next
      · apply h.fits_others (by simpa [step, hand] using member) queue
        intro job' hand' same _
        exact absurd (Option.some.inj same ▸ hand') hand
  | balk job now =>
      by_cases hand : job ∈ w.jobs
      · simp only [step, hand, if_true, List.mem_append, List.mem_singleton] at member
        rcases member with other | rfl
        · apply h.fits_others (List.mem_of_mem_erase other) queue
          intro job' _ same queue'
          obtain rfl := Option.some.inj same
          exact h.tag_ne hand other queue' queue
        · have here := (Job.delivery_balk job now) ▸ queue
          exact fits_balk hand here (h.fits job hand here)
      · apply h.fits_others (by simpa [step, hand] using member) queue
        intro job' hand' same _
        exact absurd (Option.some.inj same ▸ hand') hand
  | abandon job =>
      exact h.fits_others (List.mem_of_mem_erase member) queue (by simp [WorkAct.job?])

/-- No two jobs are at one delivery after an act: a delivery that is taken has a tag of its own. -/
theorem Sound.distinct_step (h : w.Sound name notes) (act : WorkAct)
    : (w.step act).jobs.Pairwise fun a b =>
        a.delivery.queue = name → b.delivery.queue = name → a.delivery.tag ≠ b.delivery.tag := by
  cases act with
  | client act => exact h.distinct
  | take place session turn =>
      cases taken : w.market.receive? place session with
      | none => simpa [step, taken] using h.distinct
      | some result =>
          obtain ⟨d, market⟩ := result
          simp only [step, taken]
          refine List.pairwise_append.mpr ⟨h.distinct, List.pairwise_singleton _ _, ?_⟩
          intro earlier hand j last queue queue'
          obtain rfl := List.mem_singleton.mp last
          obtain ⟨next, -⟩ := Market.log_receive? taken
          obtain rfl : d.queue = name := queue'
          have old := h.le_of_job hand queue
          simp only [next]
          omega
  | work job crew now =>
      by_cases hand : job ∈ w.jobs
      · simpa [step, hand] using h.distinct_replace hand _ fun _ => Crew.delivery_step
      · simpa [step, hand] using h.distinct
  | balk job now =>
      by_cases hand : job ∈ w.jobs
      · simpa [step, hand] using h.distinct_replace hand (some (job.balk now))
          (by simp [Job.delivery_balk])
      · simpa [step, hand] using h.distinct
  | abandon job => exact h.distinct.sublist List.erase_sublist

theorem Sound.step (h : w.Sound name notes) (act : WorkAct)
    : (w.step act).Sound name (notes ++ w.notes name act) where
  accounted := h.accounted_step act
  distinct := h.distinct_step act
  fits := h.fits_step act
  passed := h.passed_step act
  spared := h.spared_step act

/-- The invariant holds after any acts, by induction on them. -/
theorem Sound.run (h : w.Sound name notes) (acts : List WorkAct)
    : (w.run acts).Sound name (notes ++ w.history name acts) := by
  induction acts generalizing w notes with
  | nil => simpa [Workplace.run, history] using h
  | cons act acts ih => simpa [Workplace.run, history] using ih (h.step act)

end Workplace

end Almanac.Relay
