import Almanac.Dispatch.Scheduler

/-! What the status of a scheduler says.
It is stopped while it has no loops, degraded once one of them gave up, and running otherwise, and
its outlet is connected while it has loops. Starts, stops and cycles that follow each other keep it
so.
-/

namespace Almanac

open Time Store Broker

-------------------------------------------------------------------------------
-- What work does to the outlet
-------------------------------------------------------------------------------

namespace Broker.Outlet

/-- Outlets that differ at most in what they still refuse. -/
structure Alike (o after : Outlet) : Prop where
  producer : after.producer = o.producer
  closeFails : after.closeFails = o.closeFails

theorem Alike.refl (o : Outlet) : o.Alike o :=
  ⟨rfl, rfl⟩

/-- Outlets alike one after the other are alike throughout. -/
theorem Alike.trans {o middle after : Outlet} (first : o.Alike middle) (later : middle.Alike after)
    : o.Alike after :=
  ⟨later.producer.trans first.producer, later.closeFails.trans first.closeFails⟩

/-- A publication uses up an outcome and leaves the outlet connected as it was. -/
theorem alike_publish (o : Outlet) (b : State) (payload : List UInt8)
    : o.Alike (o.publish b payload).2.1 := by
  unfold publish
  split
  · exact ⟨rfl, rfl⟩
  · split <;> exact .refl o

/-- Connecting leaves the outlet connected; whether it closes is not decided there. -/
theorem connected_of_connect {o next : Outlet} {b after : State}
    (outcome : o.connect b = .ok (next, after))
    : next.producer.connected ∧ next.closeFails = o.closeFails := by
  unfold connect Producer.connect at outcome
  split at outcome
  · simp only [Except.map, Except.ok.injEq, Prod.mk.injEq] at outcome
    obtain ⟨rfl, -⟩ := outcome
    exact ⟨‹_›, rfl⟩
  · cases declared : b.declare o.producer.settings with
    | error e => simp [declared, Except.map] at outcome
    | ok middle =>
        simp only [declared, Except.map, Except.ok.injEq, Prod.mk.injEq] at outcome
        obtain ⟨rfl, -⟩ := outcome
        exact ⟨rfl, rfl⟩

/-- Closing does not change whether closing fails. -/
theorem closeFails_close (o : Outlet) : o.close.2.closeFails = o.closeFails := by
  unfold close
  split <;> rfl

/-- An outlet that closes is not connected afterwards. -/
theorem connected_close {o : Outlet} (closes : o.closeFails = false)
    : o.close.2.producer.connected = false := by
  simp [close, closes, Producer.close]

end Broker.Outlet

namespace Dispatch

/-- Answering a question keeps the outlet alike: the store does not touch it, and a publication
leaves it connected. -/
theorem Site.alike_answer (question : Ask) (s : Site)
    : s.outlet.Alike (Site.answer question s).2.outlet := by
  cases question with
  | store c => exact .refl s.outlet
  | publish payload => exact s.outlet.alike_publish s.broker payload

/-- A pass changes at most what the outlet still refuses, by induction on the pass. -/
theorem Site.alike_run {α : Type} (p : Pass α) (s : Site) : s.outlet.Alike (s.run p).2.outlet := by
  unfold Site.run
  induction p generalizing s with
  | done result => exact .refl s.outlet
  | ask question next ih => exact (s.alike_answer question).trans (ih _ _)

namespace Scheduler

variable (settings : Settings) (turn now : Turn) (wall : Instant)

/-- Either task keeps the outlet alike, as a run of its pass does. -/
theorem alike_work (task : Task) (site : Site)
    : site.outlet.Alike (work settings task wall site).2.outlet := by
  cases task with
  | notify => exact site.alike_run (notifyDue wall)
  | sweep => exact site.alike_run (purgeExpired settings wall)

/-- One loop keeps the outlet alike, whether or not it is its turn. -/
theorem alike_advanceLoop (loop : Loop) (site : Site)
    : site.outlet.Alike (advanceLoop settings turn now wall loop site).2.outlet := by
  unfold advanceLoop
  split
  · exact .refl site.outlet
  · split
    · exact alike_work settings wall loop.task site
    · exact .refl site.outlet

/-- All loops keep the outlet alike, by induction on them. -/
theorem alike_advanceLoops (loops : List Loop) (site : Site)
    : site.outlet.Alike (advanceLoops settings turn now wall loops site).2.outlet := by
  induction loops generalizing site with
  | nil => exact .refl site.outlet
  | cons loop loops ih => exact (alike_advanceLoop settings turn now wall loop site).trans (ih _)

/-- A loop that has ended does not go on. -/
theorem advanceLoop_of_ended {loop : Loop} (ended : loop.phase = .ended) (site : Site)
    : advanceLoop settings turn now wall loop site = (loop, site) := by
  simp [advanceLoop, ended, Phase.wake?]

-------------------------------------------------------------------------------
-- Status and loops
-------------------------------------------------------------------------------

/-- The status that loops give. -/
def statusOf (loops : List Loop) : Status :=
  if loops.any (·.phase = .ended) then .degraded else .running

/-- The status says what the loops do, and the outlet is connected while there are loops. -/
structure Consistent (s : Scheduler) : Prop where
  stopped_iff : s.status = .stopped ↔ s.loops = none
  degraded_iff
    : s.status = .degraded ↔ ∃ loops, s.loops = some loops ∧ ∃ loop ∈ loops, loop.phase = .ended
  connected : s.loops.isSome → s.outlet.producer.connected

variable {s : Scheduler} {loops : List Loop} {settings : Settings} {turn now : Turn}
  {wall : Instant}

/-- Loops are never counted as stopped. -/
theorem statusOf_ne_stopped (loops : List Loop) : statusOf loops ≠ .stopped := by
  unfold statusOf
  split <;> nofun

/-- Degraded means that one of the loops has ended. -/
theorem statusOf_eq_degraded_iff
    : statusOf loops = .degraded ↔ ∃ loop ∈ loops, loop.phase = .ended := by
  simp [statusOf]

/-- One loop more degrades if it has ended, and is not noticed otherwise. -/
theorem statusOf_cons (loop : Loop) (loops : List Loop)
    : statusOf (loop :: loops) = if loop.phase = .ended then .degraded else statusOf loops := by
  by_cases ended : loop.phase = .ended <;> simp [statusOf, ended]

/-- A loop that was at work decides the status when it ends, and leaves it alone otherwise. -/
theorem statusOf_set {place : Nat} {loop : Loop} (known : loops[place]? = some loop)
    (working : loop.phase ≠ .ended) (after : Loop)
    : statusOf (loops.set place after)
      = if after.phase = .ended then .degraded else statusOf loops := by
  induction loops generalizing place with
  | nil => cases known
  | cons head rest ih =>
      cases place with
      | zero =>
          obtain rfl : head = loop := by simpa using known
          simp [statusOf_cons, working]
      | succ place =>
          rw [List.set_cons_succ, statusOf_cons, statusOf_cons, ih (by simpa using known)]
          by_cases ended : after.phase = .ended <;> simp [ended]

/-- Without loops, being stopped is all that consistency asks. -/
theorem Consistent.of_none (none : s.loops = none) (stopped : s.status = .stopped)
    : s.Consistent := by
  constructor <;> simp [none, stopped]

/-- With loops, consistency asks for their own status and a connected producer. -/
theorem Consistent.of_held (held : s.loops = some loops) (status : s.status = statusOf loops)
    (connected : s.outlet.producer.connected)
    : s.Consistent where
  stopped_iff := by simp [held, status, statusOf_ne_stopped]
  degraded_iff := by simp [held, status, statusOf_eq_degraded_iff]
  connected _ := connected

/-- The status of loops is the one that a consistent scheduler has. -/
theorem Consistent.status_eq (h : s.Consistent) (held : s.loops = some loops)
    : s.status = statusOf loops := by
  have started : s.status ≠ .stopped := by simp [h.stopped_iff, held]
  have degraded : s.status = .degraded ↔ statusOf loops = .degraded := by
    simp [h.degraded_iff, held, statusOf_eq_degraded_iff]
  cases given : s.status with
  | stopped => exact absurd given started
  | degraded => exact (degraded.mp given).symm
  | running =>
      cases expected : statusOf loops with
      | stopped => exact absurd expected (statusOf_ne_stopped loops)
      | running => rfl
      | degraded => exact absurd (given.symm.trans (degraded.mpr expected)) nofun

/-- A start that succeeds leaves the scheduler consistent, as it connects first and then holds
both loops. -/
theorem Consistent.start {next : Scheduler} {b after : State}
    (started : s.start b turn = .ok (next, after))
    : next.Consistent := by
  unfold Scheduler.start at started
  split at started
  · cases started
  · split at started
    · cases started
    · split at started
      · cases started
      · rename_i outlet b connected
        cases started
        exact .of_held rfl rfl (Outlet.connected_of_connect connected).1

/-- A scheduler whose loops were dismissed and have gone is consistent, also when its outlet could
not be closed. -/
theorem Consistent.stop (s : Scheduler) : s.dismiss.2.finishStop.2.Consistent :=
  .of_none rfl rfl

/-- A loop that has ended stays among the loops, since it takes no further turn. -/
theorem mem_advanceLoops_of_ended {loop : Loop} (member : loop ∈ loops)
    (ended : loop.phase = .ended) (site : Site)
    : loop ∈ (advanceLoops settings turn now wall loops site).1 := by
  induction loops generalizing site with
  | nil => cases member
  | cons head rest ih =>
      rcases List.mem_cons.mp member with rfl | later
      · simp [advanceLoops, advanceLoop_of_ended, ended]
      · exact List.mem_cons_of_mem _ (ih later _)

/-- The status after the turns is degraded if a loop has ended by then, and as before otherwise. -/
theorem statusOf_advanceLoops (site : Site)
    : statusOf (advanceLoops settings turn now wall loops site).1
      = if (advanceLoops settings turn now wall loops site).1.any (·.phase = .ended) then .degraded
        else statusOf loops := by
  unfold statusOf
  split
  · rfl
  · rename_i none
    refine (if_neg ?_).symm
    simp only [List.any_eq_true, decide_eq_true_eq, not_exists, not_and] at none ⊢
    exact fun loop member ended => none loop (mem_advanceLoops_of_ended member ended site) ended

/-- Cycles keep a scheduler consistent: a loop that gives up leaves it degraded from then on. -/
theorem Consistent.advance (h : s.Consistent) (storage : Storage) (b : State)
    : (s.advance turn now wall storage b).1.Consistent := by
  unfold Scheduler.advance
  cases held : s.loops with
  | none => exact h
  | some loops =>
      have alike := alike_advanceLoops s.settings turn now wall loops ⟨storage, s.outlet, b⟩
      refine .of_held rfl ?_ ?_
      · rw [statusOf_advanceLoops, ← h.status_eq held]
      · exact alike.producer ▸ h.connected (by simp [held])

end Scheduler

end Dispatch

end Almanac
