import Almanac.Proofs.Broker.Team
import Almanac.Proofs.Relay.Workplace

/-! A crew's pool is one of the ways in which a team of workers can go.
A pool counts its idle workers and lets them leave all at once, and a crew passes a delivery on in
the step that takes it. Each thing that a crew does to its pool is what a team can do in some steps,
so what holds of every team holds of crews.
-/

namespace Almanac

open Time Broker

namespace Broker.Team

-------------------------------------------------------------------------------
-- Steps of one worker
-------------------------------------------------------------------------------

variable {t : Team} {worker : Nat} {s s' : Stage} {acts more : List Act}

/-- A run of a team splits wherever its acts do. -/
theorem run_append (t : Team) (acts more : List Act)
    : t.run (acts ++ more) = (t.run acts).run more :=
  List.foldl_append

@[simp]
theorem put_put (t : Team) (worker : Nat) (s s' : Stage)
    : (t.put worker s).put worker s' = t.put worker s' := by
  simp [put]

/-- The step of a worker is that of the stage it is in. -/
theorem step_go (present : t.workers[worker]? = some s) : t.step (.go worker) = t.go worker s := by
  simp [step, present]

/-- A worker put into a stage goes on from there. -/
theorem step_put (inside : worker < t.workers.length)
    : (t.put worker s).step (.go worker) = (t.put worker s).go worker s :=
  step_go (by simp [put, inside])

/-- A free worker comes to ask the stream, when nothing keeps it from that. -/
theorem run_toStream (present : t.workers[worker]? = some .free) (going : t.isStopping = false)
    (unattended : t.isAttended = false)
    : t.run (List.replicate 3 (.go worker)) = t.put worker .polling := by
  obtain ⟨inside, -⟩ := List.getElem?_eq_some_iff.mp present
  have first : t.step (.go worker) = t.put worker .asking := by
    rw [step_go present]
    simp [go, going]
  have second : (t.put worker .asking).step (.go worker) = t.put worker .arrived := by
    have still : (t.put worker .asking).isAttended = false := by
      simp only [isAttended, List.any_eq_false] at unattended ⊢
      intro other member
      rcases List.mem_or_eq_of_mem_set member with earlier | rfl
      · exact unattended other earlier
      · exact Bool.false_ne_true
    rw [step_put inside]
    simp [go, still]
  have third : (t.put worker .arrived).step (.go worker) = t.put worker .polling := by
    have still : (t.put worker .arrived).isStopping = false := going
    rw [step_put inside]
    simp [go, still]
  change ((t.step (.go worker)).step (.go worker)).step (.go worker) = _
  rw [first, second, third]

/-- It takes from there what the stream gives next. -/
theorem step_polling {answer : Answer} {rest : List Answer} (inside : worker < t.workers.length)
    (flows : t.ended = false) (next : t.answers = answer :: rest)
    : (t.put worker .polling).step (.go worker)
        = { t with
            answers := rest
            ended := answer.isNone
            taken := t.taken ++ [answer] }.put worker (.found answer) := by
  rw [step_put inside]
  simp [go, pull?, put, flows, next]

/-- It takes a delivery from there and passes it to the handler. -/
theorem run_handle {d : Delivery} {rest : List Answer}
    (present : t.workers[worker]? = some .free) (going : t.isStopping = false)
    (unattended : t.isAttended = false) (flows : t.ended = false)
    (next : t.answers = some (Except.ok d) :: rest)
    : t.run (List.replicate 5 (.go worker))
        = { t with
            answers := rest
            ended := false
            taken := t.taken ++ [some (Except.ok d)]
            passed := t.passed ++ [d] }.put worker (.handling d) := by
  obtain ⟨inside, -⟩ := List.getElem?_eq_some_iff.mp present
  rw [show 5 = 3 + 2 from rfl, List.replicate_add, run_append,
    run_toStream present going unattended]
  change ((t.put worker .polling).step (.go worker)).step (.go worker) = _
  rw [step_polling inside flows next, step_put]
  · simp [go, put, Stage.found]
  · exact inside

/-- It finds the stream failed or ended, notes that, tells the others and leaves. -/
theorem run_fail {answer : Answer} {cause : QueueError} {rest : List Answer}
    (present : t.workers[worker]? = some .free) (going : t.isStopping = false)
    (unattended : t.isAttended = false) (flows : t.ended = false)
    (next : t.answers = answer :: rest) (failed : Stage.found answer = .failing cause)
    : t.run (List.replicate 6 (.go worker))
        = { t with
            answers := rest
            ended := answer.isNone
            taken := t.taken ++ [answer]
            failure := t.failure.or (some cause)
            halted := true }.put worker .gone := by
  obtain ⟨inside, -⟩ := List.getElem?_eq_some_iff.mp present
  rw [show 6 = 3 + 3 from rfl, List.replicate_add, run_append,
    run_toStream present going unattended]
  change (((t.put worker .polling).step (.go worker)).step (.go worker)).step (.go worker) = _
  have noted (u : Team) (inside : worker < u.workers.length)
      : ((u.put worker (.failing cause)).step (.go worker)).step (.go worker)
          = { u with failure := u.failure.or (some cause), halted := true }.put worker .gone := by
    have next : (u.put worker (.failing cause)).step (.go worker)
        = { u with failure := u.failure.or (some cause) }.put worker .noted := by
      rw [step_put inside]
      simp [go, put]
    rw [next, step_put]
    · simp [go, put]
    · exact inside
  rw [step_polling inside flows next, failed, noted]
  exact inside

-------------------------------------------------------------------------------
-- Teams that show a pool
-------------------------------------------------------------------------------

/-- Whether a worker is not between two steps of a crew. -/
def Stage.isSettled : Stage → Bool
  | .free | .handling _ | .gone => true
  | _ => false

variable {Job : Type} {delivery : Job → Delivery} {p p' : Pool Job} {job : Job}

/-- Whether a team, whose workers are all settled, is in the state of a pool. -/
structure Shows (delivery : Job → Delivery) (t : Team) (p : Pool Job) : Prop where
  settled : ∀ s ∈ t.workers, s.isSettled
  free : t.pool.free = p.free
  jobs : t.pool.jobs.Perm (p.jobs.map delivery)
  cancelled : t.cancelled = p.cancelled
  failure : t.failure = p.failure
  halted : t.halted = p.failure.isSome
  ended : t.ended → p.failure.isSome
  outcome : t.outcome = none

/-- A team at its start shows a pool of free workers without jobs. -/
theorem shows_start (workers : Nat) (answers : List Answer) (turn : Turn)
    : (start workers answers).Shows delivery (Pool.ofWorkers workers turn) where
  settled s member := by rw [List.eq_of_mem_replicate member]; rfl
  free := by simp [pool, start, Pool.ofWorkers, List.countP_replicate, Stage.isIdle]
  jobs := by simp [pool, start, Pool.ofWorkers, List.filterMap_replicate, Stage.handled?]
  cancelled := rfl
  failure := rfl
  halted := rfl
  ended := nofun
  outcome := rfl

namespace Shows

/-- A shown team has nobody at the stream, since all of its workers are free or handle
something. -/
theorem unattended (h : t.Shows delivery p) : t.isAttended = false := by
  simp only [isAttended, List.any_eq_false]
  intro s member
  have settled := h.settled s member
  cases s <;> simp_all [Stage.isSettled, Stage.atStream]

/-- A shown team stops exactly when its pool does. -/
theorem isStopping (h : t.Shows delivery p) : t.isStopping = p.isStopping := by
  rw [Team.isStopping, Pool.isStopping, h.cancelled, h.halted]

/-- The stream of a team that is not to stop has not ended. -/
theorem flows (h : t.Shows delivery p) (going : p.isStopping = false) : t.ended = false := by
  by_contra ended
  have failed := h.ended (by simpa using ended)
  simp [(Bool.or_eq_false_iff.mp going).2] at failed

/-- A free slot of the pool is a free worker of the team: settled workers that are idle are
free. -/
theorem exists_free (h : t.Shows delivery p) (idle : 0 < p.free)
    : ∃ worker : Nat, t.workers[worker]? = some .free := by
  rw [← h.free] at idle
  obtain ⟨s, member, isIdle⟩ := List.countP_pos_iff.mp idle
  have settled := h.settled s member
  obtain rfl : s = Stage.free := by cases s <;> simp_all [Stage.isSettled, Stage.isIdle]
  exact List.getElem?_of_mem member

/-- A worker passes from one settled stage to another while the team around it changes. -/
theorem put (h : t.Shows delivery p) {u : Team} (same : u.workers = t.workers)
    (present : t.workers[worker]? = some s) (settled : s'.isSettled)
    (free : p'.free + (if s.isIdle then 1 else 0) = p.free + if s'.isIdle then 1 else 0)
    (jobs
      : (s.handled?.toList ++ p'.jobs.map delivery).Perm
          (s'.handled?.toList ++ p.jobs.map delivery))
    (cancelled : u.cancelled = p'.cancelled) (failure : u.failure = p'.failure)
    (halted : u.halted = p'.failure.isSome) (ended : u.ended → p'.failure.isSome)
    (outcome : u.outcome = none)
    : (u.put worker s').Shows delivery p' where
  settled other member := by
    rcases List.mem_or_eq_of_mem_set member with earlier | rfl
    · exact h.settled other (same ▸ earlier)
    · exact settled
  free := by
    have before := h.free
    have moved := countP_put (same.symm ▸ present) Stage.isIdle s'
    rw [same] at moved
    simp only [pool] at before ⊢
    omega
  jobs := by
    have moved := filterMap_put (same.symm ▸ present) Stage.handled? s'
    rw [same] at moved
    have held := moved.trans (h.jobs.append_left _)
    exact (List.perm_append_left_iff _).mp (held.trans jobs.symm)
  cancelled := cancelled
  failure := failure
  halted := halted
  ended := ended
  outcome := outcome

end Shows

/-- Whether teams that show one pool can come to show another, while the stream gives them some
answers and no others. -/
def Enacts (delivery : Job → Delivery) (p : Pool Job) (given : List Answer) (p' : Pool Job)
    : Prop :=
  ∀ (t : Team) rest, t.Shows delivery p → t.answers = given ++ rest →
    ∃ acts, (t.run acts).Shows delivery p' ∧ (t.run acts).answers = rest

namespace Enacts

variable {given later : List Answer} {p'' : Pool Job}

/-- What two stretches enact one after the other, they enact together. -/
theorem trans (h : Enacts delivery p given p') (h' : Enacts delivery p' later p'')
    : Enacts delivery p (given ++ later) p'' := by
  intro t rest before next
  obtain ⟨acts, shown, left⟩ := h t (later ++ rest) before (by rw [next, List.append_assoc])
  obtain ⟨more, shown, left⟩ := h' _ rest shown left
  exact ⟨acts ++ more, by rw [run_append]; exact shown, by rw [run_append]; exact left⟩

/-- Nothing happens to a team while a pool changes in what teams do not tell apart. -/
theorem same (free : p'.free = p.free) (jobs : (p'.jobs.map delivery).Perm (p.jobs.map delivery))
    (cancelled : p'.cancelled = p.cancelled) (failure : p'.failure = p.failure)
    : Enacts delivery p [] p' := by
  intro t rest h next
  refine ⟨[], ⟨h.settled, h.free.trans free.symm, h.jobs.trans jobs.symm,
    h.cancelled.trans cancelled.symm, h.failure.trans failure.symm, ?_, ?_, h.outcome⟩, next⟩
  · exact h.halted.trans (by rw [failure])
  · intro ended
    rw [failure]
    exact h.ended ended

/-- A pool that does not change needs no act of the team. -/
theorem refl (p : Pool Job) : Enacts delivery p [] p :=
  same rfl (.refl _) rfl rfl

/-- A worker takes a delivery in hand. -/
theorem take (idle : 0 < p.free) (going : p.isStopping = false) (job : Job) (now : Turn)
    : Enacts delivery p [some (Except.ok (delivery job))] ((p.occupy now).keep job) := by
  intro t rest h next
  obtain ⟨worker, present⟩ := h.exists_free idle
  -- Three steps to the stream, one that takes the delivery, and one that starts the handler.
  refine ⟨List.replicate 5 (.go worker), ?_, ?_⟩
  · rw [run_handle present (h.isStopping.trans going) h.unattended (h.flows going) next]
    refine h.put rfl present rfl ?_ ?_ h.cancelled h.failure h.halted nofun h.outcome
    · simp only [Pool.occupy, Pool.keep, Stage.isIdle, if_true, Bool.false_eq_true, if_false]
      omega
    · simp [Pool.occupy, Pool.keep, Stage.handled?]
  · rw [run_handle present (h.isStopping.trans going) h.unattended (h.flows going) next]
    rfl

/-- A worker finds the stream failed or ended. -/
theorem fail (idle : 0 < p.free) (going : p.isStopping = false) {answer : Answer}
    {cause : QueueError} (failed : Stage.found answer = .failing cause)
    : Enacts delivery p [answer] (p.fail cause) := by
  intro t rest h next
  obtain ⟨worker, present⟩ := h.exists_free idle
  have sound : p.failure = none := by simpa using (Bool.or_eq_false_iff.mp going).2
  have noted : (p.fail cause).failure = some cause := by simp [Pool.fail, sound]
  -- Three steps to the stream, and then it finds the failure, notes it, and tells the others.
  refine ⟨List.replicate 6 (.go worker), ?_, ?_⟩
  · rw [run_fail present (h.isStopping.trans going) h.unattended (h.flows going) next failed]
    refine h.put rfl present rfl ?_ (.refl _) h.cancelled ?_ ?_ ?_ h.outcome
    · simp only [Pool.fail, Stage.isIdle, if_true, Bool.false_eq_true, if_false]
      omega
    · simp [h.failure, Pool.fail]
    · simp [noted]
    · simp [noted]
  · rw [run_fail present (h.isStopping.trans going) h.unattended (h.flows going) next failed]
    rfl

/-- A worker is done with what it had in hand. -/
theorem finish [DecidableEq Job] (member : job ∈ p.jobs)
    : Enacts delivery p [] { p with jobs := p.jobs.erase job }.release := by
  intro t rest h next
  have inHand : delivery job ∈ t.pool.jobs :=
    h.jobs.mem_iff.mpr (List.mem_map_of_mem member)
  obtain ⟨s, there, handles⟩ := List.mem_filterMap.mp inHand
  obtain rfl : s = .handling (delivery job) := by
    cases s <;> simp_all [Stage.handled?]
  obtain ⟨worker, present⟩ := List.getElem?_of_mem there
  have done : t.run [.go worker] = t.put worker .free := step_go present
  refine ⟨[.go worker], ?_, ?_⟩
  · rw [done]
    refine h.put rfl present rfl ?_ ?_ h.cancelled h.failure h.halted h.ended h.outcome
    · simp [Pool.release, Stage.isIdle]
    · simpa [Pool.release, Stage.handled?]
        using ((List.perm_cons_erase member).map delivery).symm
  · rw [done]
    exact next

/-- Cancelling the pool is the team's own act of that name. -/
theorem cancel (p : Pool Job) : Enacts delivery p [] p.cancel := by
  intro t rest h next
  exact ⟨[.cancel], ⟨h.settled, h.free, h.jobs, rfl, h.failure, h.halted, h.ended, h.outcome⟩, next⟩

end Enacts

/-- The team and the pool it shows end with the same result. -/
theorem Shows.result_eq (h : t.Shows delivery p) : t.pool.result = p.result := by
  simp only [Pool.result, pool, h.failure, h.cancelled]

/-- Without a free slot and without a job, no worker of the team is left. -/
theorem Shows.isDeserted (h : t.Shows delivery p) (idle : p.free = 0) (done : p.jobs = [])
    : t.isDeserted := by
  have nobody : t.workers.countP Stage.isIdle = 0 := h.free.trans idle
  have nothing : t.workers.filterMap Stage.handled? = [] := by
    have jobs := h.jobs
    rw [done] at jobs
    exact jobs.eq_nil
  simp only [Team.isDeserted, List.all_eq_true, decide_eq_true_eq]
  intro s member
  have settled := h.settled s member
  have notIdle := List.countP_eq_zero.mp nobody s member
  have emptyHanded := List.filterMap_eq_nil_iff.mp nothing s member
  cases s <;> simp_all [Stage.isSettled, Stage.isIdle, Stage.handled?]

/-- A pool that is done is one whose team can be concluded with its result: the idle workers leave,
by induction on their number. -/
theorem Shows.exists_concludes (h : t.Shows delivery p) (done : p.isDone)
    : ∃ acts, (t.run acts).Concludes p.result := by
  generalize count : p.free = free
  induction free generalizing t p with
  | zero =>
      have finished : p.jobs = [] := by simpa using (Bool.and_eq_true_iff.mp done).2
      exact ⟨[], concludes_iff.mpr ⟨h.outcome, h.isDeserted count finished, h.result_eq⟩⟩
  | succ free ih =>
      obtain ⟨worker, present⟩ := h.exists_free (by omega)
      have stopping := (Bool.and_eq_true_iff.mp done).1
      have left : t.step (.go worker) = t.put worker .gone := by
        rw [step_go present]
        simp [go, h.isStopping, stopping]
      have shown : (t.put worker .gone).Shows delivery { p with free } := by
        refine h.put rfl present rfl ?_ (.refl _) h.cancelled h.failure h.halted h.ended h.outcome
        simp only [Stage.isIdle, if_true, Bool.false_eq_true, if_false]
        omega
      obtain ⟨acts, concludes⟩ := ih shown done rfl
      refine ⟨.go worker :: acts, ?_⟩
      change ((t.step (.go worker)).run acts).Concludes p.result
      rw [left]
      exact concludes

end Broker.Team

-------------------------------------------------------------------------------
-- What crews do to their pools
-------------------------------------------------------------------------------

namespace Broker.Pool

variable {Job : Type} {p : Pool Job}

/-- Whether a worker at the stream, if there is one, can go on there. -/
def IsManned (p : Pool Job) : Prop :=
  p.reader ≠ .nobody → 0 < p.free ∧ p.isStopping = false

/-- A pool that goes on is still manned when one of its workers takes a job: another one is called
to the stream only if it is free. -/
theorem isManned_occupy (going : p.isStopping = false) (now : Turn) : (p.occupy now).IsManned := by
  intro attended
  simp only [occupy] at attended ⊢
  split at attended
  · exact ⟨by omega, going⟩
  · exact absurd rfl attended

/-- Freeing a slot leaves a pool manned. -/
theorem IsManned.release (h : p.IsManned) : p.release.IsManned :=
  fun attended => ⟨Nat.succ_pos _, (h attended).2⟩

/-- An unattended pool has a free slot and is not stopping. -/
theorem of_isUnattended (unattended : p.isUnattended) : 0 < p.free ∧ p.isStopping = false := by
  simp only [isUnattended, Bool.and_eq_true, decide_eq_true_eq, Bool.not_eq_true'] at unattended
  exact ⟨unattended.1.1, unattended.2⟩

end Broker.Pool

namespace Relay.Crew

variable {c : Crew} {job : Job} {p : Pool Job}

/-- What a crew does to its pool, as a team can. -/
def Staffs (p p' : Pool Job) : Prop :=
  p'.IsManned ∧ ∃ given, Team.Enacts Job.delivery p given p'

/-- A manned pool is staffed as it stands. -/
theorem Staffs.refl (manned : p.IsManned) : Staffs p p :=
  ⟨manned, [], .refl p⟩

/-- Stretches that are staffed compose; the later one says that the pool is manned. -/
theorem Staffs.trans {p' p'' : Pool Job} (h : Staffs p p') (h' : Staffs p' p'') : Staffs p p'' := by
  obtain ⟨-, given, enacts⟩ := h
  obtain ⟨manned, later, enacts'⟩ := h'
  exact ⟨manned, given ++ later, enacts.trans enacts'⟩

@[simp]
theorem pool_step (c : Crew) (b : Broker.State) (now : Turn) (job : Job)
    : (c.step b now job).2.1.pool = c.pool := by
  cases stage : job.stage with
  | fresh =>
      cases decoded : Notification.decode job.delivery.body <;> simp [step, stage, decoded]
  | _ => simp [step, stage]

/-- A worker keeps its delivery in hand or is done with it, by induction on the steps of its job. -/
theorem pool_goOn (now : Turn) (steps : Nat) (job : Job) (c : Crew) (b : Broker.State)
    : (∃ later : Job, later.delivery = job.delivery
          ∧ (goOn now steps job c b).1.pool = c.pool.keep later)
        ∨ (goOn now steps job c b).1.pool = c.pool.release := by
  induction steps generalizing job c b with
  | zero => exact .inl ⟨job, rfl, rfl⟩
  | succ steps ih =>
      unfold goOn
      split
      · exact .inl ⟨job, rfl, rfl⟩
      · have kept := c.pool_step b now job
        have same {next : Job} (goesOn : (c.step b now job).1 = some next) := delivery_step goesOn
        generalize c.step b now job = done at kept same
        obtain ⟨_ | next, after, b'⟩ := done
        · exact .inr (by rw [← kept])
        · simpa only [← kept, same rfl] using ih next after b'

/-- A job that was in hand is kept or done with. -/
theorem staffs_goOn (now : Turn) (steps : Nat) (c : Crew) (b : Broker.State)
    (member : job ∈ p.jobs) (manned : p.IsManned)
    (pool : c.pool = { p with jobs := p.jobs.erase job })
    : Staffs p (goOn now steps job c b).1.pool := by
  rcases pool_goOn now steps job c b with ⟨later, same, kept⟩ | released
  · rw [kept, pool]
    refine ⟨manned, [], .same rfl ?_ rfl rfl⟩
    simpa [Pool.keep, same] using
      List.perm_append_comm.trans ((List.perm_cons_erase member).map Job.delivery).symm
  · rw [released, pool]
    exact ⟨manned.release, [], .finish member⟩

/-- A free worker takes a delivery and keeps it in hand, or is done with it at once. -/
theorem staffs_handle (c : Crew) (b : Broker.State) (now : Turn) (d : Delivery)
    (idle : 0 < c.pool.free) (going : c.pool.isStopping = false)
    : Staffs c.pool
        (handle now ⟨d, .fresh, now⟩ { c with pool := c.pool.occupy now } b).1.pool := by
  have manned := Pool.isManned_occupy going now
  rcases pool_goOn now 3 ⟨d, .fresh, now⟩ { c with pool := c.pool.occupy now } b with
    ⟨later, -, kept⟩ | released
  · rw [handle, kept]
    exact ⟨manned, _, .take idle going later now⟩
  · rw [handle, released]
    -- A pool never shows a job that is settled at once, but a worker of the team has it meanwhile.
    have taken : Staffs c.pool ((c.pool.occupy now).keep ⟨d, .fresh, now⟩) :=
      ⟨manned, _, .take idle going _ now⟩
    have done : ⟨d, .fresh, now⟩ ∈ ((c.pool.occupy now).keep ⟨d, .fresh, now⟩).jobs :=
      List.mem_append_right _ (List.mem_singleton.mpr rfl)
    refine taken.trans ⟨manned.release, _, (Team.Enacts.finish done).trans (.same rfl ?_ rfl rfl)⟩
    have same : ((c.pool.occupy now).keep ⟨d, .fresh, now⟩).jobs.Perm
        (⟨d, .fresh, now⟩ :: (c.pool.occupy now).jobs) := List.perm_append_comm
    exact ((List.cons_perm_iff_perm_erase.mp same.symm).2).map Job.delivery

/-- The worker at the stream takes what it can, by induction on the fuel. -/
theorem staffs_read (now : Turn) (fuel : Nat) (c : Crew) (b : Broker.State)
    (idle : 0 < c.pool.free) (going : c.pool.isStopping = false)
    : Staffs c.pool (read now fuel c b).1.pool := by
  have waits (c : Crew) (idle : 0 < c.pool.free) (going : c.pool.isStopping = false)
      : Staffs c.pool c.pool.wait :=
    ⟨fun _ => ⟨idle, going⟩, [], .same rfl (.refl _) rfl rfl⟩
  induction fuel generalizing c b with
  | zero => exact waits c idle going
  | succ fuel ih =>
      unfold read
      split
      · rename_i d b' _
        have handles := c.staffs_handle b' now d idle going
        simp only
        split
        · rename_i unattended
          obtain ⟨idle, going⟩ := Pool.of_isUnattended unattended
          exact handles.trans (ih _ _ idle going)
        · exact handles
      · exact waits c idle going
      · exact ⟨nofun, [none], .fail idle going rfl⟩

/-- The worker of a turn goes on, at the stream or with its job. -/
theorem staffs_advance (c : Crew) (b : Broker.State) (turn now : Turn) (manned : c.pool.IsManned)
    : Staffs c.pool (c.advance b turn now).1.pool := by
  unfold advance
  split
  · rename_i called
    have attended : c.pool.reader ≠ .nobody := by
      intro nobody
      simp [nobody, Reader.wake?] at called
    obtain ⟨idle, going⟩ := manned attended
    exact staffs_read now _ c b idle going
  · split
    · exact .refl manned
    · rename_i job found
      have handles := staffs_goOn now 3
        { c with pool := { c.pool with jobs := c.pool.jobs.erase job } } b
        (List.mem_of_find?_eq_some found) manned rfl
      simp only
      split
      · rename_i unattended
        obtain ⟨idle, going⟩ := Pool.of_isUnattended unattended
        exact handles.trans (staffs_read now _ _ _ idle going)
      · exact handles

/-- An alert at most calls a waiting pool to the stream, which the team takes for no act. -/
theorem staffs_alert (c : Crew) (b : Broker.State) (now : Turn) (manned : c.pool.IsManned)
    : Staffs c.pool (c.alert b now).pool := by
  have calls : Staffs c.pool (c.pool.call now) := by
    unfold Pool.call
    split
    · rename_i waiting
      exact ⟨fun _ => manned (by simp [waiting]), [], .same rfl (.refl _) rfl rfl⟩
    · exact .refl manned
  unfold alert
  split
  · exact .refl manned
  · exact calls

/-- Stopping is a cancellation for the team; hurried jobs keep their deliveries. -/
theorem staffs_stop (c : Crew) (now : Turn) : Staffs c.pool (c.stop now).pool := by
  refine ⟨fun attended => absurd rfl attended, _, (Team.Enacts.cancel c.pool).trans
    (.same rfl ?_ rfl rfl)⟩
  have same (job : Job) : (job.hurry now).delivery = job.delivery := by
    unfold Job.hurry
    split <;> rfl
  simp [stop, Pool.cancel, same, Function.comp_def]

-------------------------------------------------------------------------------
-- Crews as teams
-------------------------------------------------------------------------------

/-- What happens to a crew. The broker is the one that it finds at that time. -/
inductive Deed where
  | advance (b : Broker.State) (turn now : Turn)
  | alert (b : Broker.State) (now : Turn)
  | stop (now : Turn)
  /-- The consumer is opened or closed. -/
  | consumer (consumer : Consumer)

/-- A crew after a deed. -/
def after (c : Crew) : Deed → Crew
  | .advance b turn now => (c.advance b turn now).1
  | .alert b now => c.alert b now
  | .stop now => c.stop now
  | .consumer consumer => { c with consumer }

/-- Every deed of a manned crew can be staffed, deed by deed. -/
theorem staffs_after (c : Crew) (deed : Deed) (manned : c.pool.IsManned)
    : Staffs c.pool (c.after deed).pool := by
  cases deed with
  | advance b turn now => exact c.staffs_advance b turn now manned
  | alert b now => exact c.staffs_alert b now manned
  | stop now => exact c.staffs_stop now
  | consumer consumer => exact .refl manned

/-- Whether a team goes as a crew does: after each deed it is in the state of the pool, and as soon
as the crew is done, the team can come to its end with the result of the pool. -/
def GoesAs (c : Crew) (t : Team) (deeds : List Deed) : Prop :=
  t.Shows Job.delivery c.pool
    ∧ (c.pool.isDone → ∃ acts, (t.run acts).Concludes c.pool.result)
    ∧ match deeds with
      | [] => True
      | deed :: deeds => ∃ acts, (c.after deed).GoesAs (t.run acts) deeds

/-- A team that shows the pool of a crew can go on as the crew does, by induction on the deeds. -/
theorem exists_goesAs (c : Crew) (deeds : List Deed) (manned : c.pool.IsManned)
    : ∃ given, ∀ (t : Team) rest, t.Shows Job.delivery c.pool → t.answers = given ++ rest →
        c.GoesAs t deeds := by
  induction deeds generalizing c with
  | nil => exact ⟨[], fun t _ shown _ => ⟨shown, shown.exists_concludes, trivial⟩⟩
  | cons deed deeds ih =>
      obtain ⟨manned, given, enacts⟩ := c.staffs_after deed manned
      obtain ⟨later, follows⟩ := ih _ manned
      refine ⟨given ++ later, fun t rest shown next => ⟨shown, shown.exists_concludes, ?_⟩⟩
      rw [List.append_assoc] at next
      obtain ⟨acts, shown, left⟩ := enacts t _ shown next
      exact ⟨acts, follows _ rest shown left⟩

/-- Every crew goes as one of the teams of as many workers. -/
theorem exists_team (c : Crew) (workers : Nat) (turn : Turn) (deeds : List Deed)
    : ∃ answers,
        { c with pool := Pool.ofWorkers workers turn }.GoesAs (Team.start workers answers)
          deeds := by
  have manned : (Pool.ofWorkers workers turn : Pool Job).IsManned :=
    fun _ => ⟨Nat.lt_of_lt_of_le Nat.one_pos (Nat.le_max_left ..), rfl⟩
  obtain ⟨given, follows⟩ :=
    exists_goesAs { c with pool := Pool.ofWorkers workers turn } deeds manned
  exact ⟨given, follows _ [] (Team.shows_start workers given turn) (List.append_nil given).symm⟩

/-- Workers work off what their stream gives, in every interleaving of their steps, and the workers
of a crew go in one of these ways. -/
theorem teams_workOff (workers : Nat)
    : (∀ answers acts, ((Team.start workers answers).run acts).WorksOff workers answers)
      ∧ ∀ (c : Crew) (turn : Turn) (deeds : List Deed),
          ∃ answers,
            { c with pool := Pool.ofWorkers workers turn }.GoesAs (Team.start workers answers)
              deeds :=
  ⟨Team.worksOff_run workers, fun c turn deeds => c.exists_team workers turn deeds⟩

/-- A crew that a team follows has no more jobs than the team has workers, by induction on the
deeds. -/
theorem GoesAs.length_jobs_le {t : Team} {workers : Nat} {answers : List Team.Answer}
    {deeds : List Deed} (h : c.GoesAs t deeds) (orderly : t.Orderly (max 1 workers) answers)
    : (deeds.foldl after c).pool.jobs.length ≤ max 1 workers := by
  induction deeds generalizing c t with
  | nil =>
      have same := h.1.jobs.length_eq
      rw [List.length_map] at same
      exact same ▸ orderly.worksOff.running
  | cons deed deeds ih =>
      obtain ⟨-, -, acts, follows⟩ := h
      exact ih follows (orderly.run acts)

/-- A crew never has more deliveries in hand than it has workers, or one. -/
theorem length_jobs_le (c : Crew) (workers : Nat) (turn : Turn) (deeds : List Deed)
    : (deeds.foldl after { c with pool := Pool.ofWorkers workers turn }).pool.jobs.length
        ≤ max 1 workers := by
  obtain ⟨answers, follows⟩ := c.exists_team workers turn deeds
  exact follows.length_jobs_le (.start workers answers)

end Relay.Crew

end Almanac
