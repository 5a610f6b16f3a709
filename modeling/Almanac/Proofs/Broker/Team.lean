import Almanac.Broker.Basic
import Almanac.Broker.Pool
import Mathlib.Data.List.Perm.Basic

/-! Workers at one stream of deliveries, step by step and in any order.
A worker looks whether to stop, waits for its turn at the stream, looks again and takes what the
stream gives; then it leaves the stream and handles what it took. Others act between any two of its
steps, and the request to stop may come at any time.
-/

namespace Almanac.Broker

-------------------------------------------------------------------------------
-- Workers and their steps
-------------------------------------------------------------------------------

namespace Team

/-- What a stream gives: a delivery, a failure, or its end. -/
abbrev Answer := Option (Except QueueError Delivery)

/-- The deliveries among what a stream gives. -/
def deliveries (answers : List Answer) : List Delivery :=
  answers.filterMap fun
    | some (.ok d) => some d
    | _ => none

/-- How far a worker is. -/
inductive Stage where
  /-- It has nothing in hand and looks next whether to stop. -/
  | free
  /-- It asks for its turn at the stream. -/
  | asking
  /-- It is at the stream, where no other can be, and looks again whether to stop. -/
  | arrived
  /-- It asks the stream for the next delivery. -/
  | polling
  /-- It has left the stream with a delivery. -/
  | carrying (d : Delivery)
  | handling (d : Delivery)
  /-- It has left the stream with a failure, which it notes next. -/
  | failing (cause : QueueError)
  /-- It has noted the failure and tells the others next. -/
  | noted
  | gone
  deriving DecidableEq

namespace Stage

/-- The stage of a worker with what the stream gave it. -/
def found : Answer → Stage
  | some (.ok d) => .carrying d
  | some (.error cause) => .failing cause
  | none => .failing .streamClosed

def atStream : Stage → Bool
  | .arrived | .polling => true
  | _ => false

/-- Whether a worker has nothing in hand and has not found the stream failed. -/
def isIdle : Stage → Bool
  | .free | .asking | .arrived | .polling => true
  | _ => false

/-- The delivery that was taken and not passed to the handler yet. -/
def carried? : Stage → Option Delivery
  | .carrying d => some d
  | _ => none

/-- The delivery that the handler runs on. -/
def handled? : Stage → Option Delivery
  | .handling d => some d
  | _ => none

end Stage

/-- What happens to a team. Workers are named by place. -/
inductive Act where
  /-- The team is asked to stop. -/
  | cancel
  /-- A worker takes its next step. -/
  | go (worker : Nat)
  /-- A worker that has to wait gives up its attempt; when it is called, it looks anew. -/
  | wait (worker : Nat)
  /-- All workers have gone, and the work is concluded. -/
  | conclude

end Team

/-- Workers at a stream: what it is going to give and whether it has ended, whether the team was
asked to stop, whether a worker told the others to stop, how the stream failed first, and what the
work came to. `taken` is what the stream gave so far and `passed` are the deliveries that handlers
were started on. -/
structure Team where
  workers : List Team.Stage
  answers : List Team.Answer
  ended : Bool := false
  cancelled : Bool := false
  halted : Bool := false
  failure : Option QueueError := none
  outcome : Option (Except QueueError Unit) := none
  taken : List Team.Answer := []
  passed : List Delivery := []

namespace Team

/-- A team of workers, of which there is at least one, before anything happens. -/
def start (workers : Nat) (answers : List Answer) : Team :=
  { workers := List.replicate (max 1 workers) .free, answers }

def put (t : Team) (worker : Nat) (s : Stage) : Team :=
  { t with workers := t.workers.set worker s }

/-- Whether workers that look are to stop. -/
def isStopping (t : Team) : Bool :=
  t.cancelled || t.halted

/-- Whether a worker is at the stream. -/
def isAttended (t : Team) : Bool :=
  t.workers.any Stage.atStream

/-- What the stream gives next, if it gives something. After its end it gives that end again. -/
def pull? (t : Team) : Option (Answer × Team) :=
  if t.ended then some (none, { t with taken := t.taken ++ [none] })
  else
    match t.answers with
    | [] => none
    | answer :: answers =>
        some (answer,
          { t with answers, ended := answer.isNone, taken := t.taken ++ [answer] })

/-- The next step of a worker from its stage. -/
def go (t : Team) (worker : Nat) : Stage → Team
  | .free => t.put worker (if t.isStopping then .gone else .asking)
  | .asking => if t.isAttended then t else t.put worker .arrived
  | .arrived => t.put worker (if t.isStopping then .gone else .polling)
  | .polling =>
      match t.pull? with
      | some (answer, t) => t.put worker (.found answer)
      | none => t
  | .carrying d => { t with passed := t.passed ++ [d] }.put worker (.handling d)
  | .handling _ => t.put worker .free
  | .failing cause => { t with failure := t.failure.or (some cause) }.put worker .noted
  | .noted => { t with halted := true }.put worker .gone
  | .gone => t

/-- A worker waits for its turn at the stream or for the stream. -/
def wait (t : Team) (worker : Nat) : Stage → Team
  | .asking => t.put worker .free
  | .polling => t.put worker .arrived
  | _ => t

/-- The team as a pool: its idle workers and what the others have in hand. -/
def pool (t : Team) : Pool Delivery :=
  { free := t.workers.countP Stage.isIdle
    reader := .nobody
    jobs := t.workers.filterMap Stage.handled?
    cancelled := t.cancelled
    failure := t.failure }

/-- Whether all workers have gone. -/
def isDeserted (t : Team) : Bool :=
  t.workers.all (· = .gone)

def step (t : Team) : Act → Team
  | .cancel => { t with cancelled := true }
  | .go worker => (t.workers[worker]?).elim t (t.go worker)
  | .wait worker => (t.workers[worker]?).elim t (t.wait worker)
  | .conclude =>
      if t.isDeserted && t.outcome.isNone then { t with outcome := some t.pool.result } else t

def run (t : Team) (acts : List Act) : Team :=
  acts.foldl step t

/-- The deliveries that workers took and did not pass to the handler yet. -/
def carried (t : Team) : List Delivery :=
  t.workers.filterMap Stage.carried?

-------------------------------------------------------------------------------
-- What holds at every time
-------------------------------------------------------------------------------

/-- Whether the stream has given a cause to stop: a failure, or its end. -/
def Gave (t : Team) (cause : QueueError) : Prop :=
  some (.error cause) ∈ t.taken ∨ (cause = .streamClosed ∧ none ∈ t.taken)

/-- What the stage of a worker tells of the team. -/
def Bears (t : Team) : Stage → Prop
  | .failing cause => t.Gave cause
  | .noted => t.failure.isSome
  | .gone => t.cancelled ∨ t.failure.isSome
  | _ => True

/-- Whether what was taken of the answers of a stream is the first of them, and the end again and
again once the stream has ended. -/
def Reads (t : Team) (answers : List Answer) : Prop :=
  ∃ given again, given ++ t.answers = answers ∧ t.taken = given ++ List.replicate again none
    ∧ (t.ended → none ∈ given) ∧ (t.ended = false → again = 0)

/-- What holds of a team of so many workers at a stream with some answers. -/
structure Orderly (t : Team) (size : Nat) (answers : List Answer) : Prop where
  size_eq : t.workers.length = size
  /-- At most one worker is at the stream. -/
  alone : t.workers.countP Stage.atStream ≤ 1
  reads : t.Reads answers
  /-- What was taken has been passed to the handler once, or is carried there. -/
  once : (t.passed ++ t.carried).Perm (deliveries t.taken)
  cause : ∀ cause, t.failure = some cause → t.Gave cause
  halted : t.halted → t.failure.isSome
  bears : ∀ s ∈ t.workers, t.Bears s

variable {t u : Team} {size worker : Nat} {answers : List Answer} {s s' : Stage}

/-- A team at its start has taken nothing, and all of its workers are free. -/
theorem Orderly.start (workers : Nat) (answers : List Answer)
    : (start workers answers).Orderly (max 1 workers) answers where
  size_eq := List.length_replicate
  alone := by simp [Team.start, List.countP_replicate, Stage.atStream]
  reads := ⟨[], 0, rfl, rfl, nofun, fun _ => rfl⟩
  once := by
    simp [Team.start, carried, deliveries, List.filterMap_replicate, Stage.carried?]
  cause _ none := by cases none
  halted := nofun
  bears s member := by
    rw [List.eq_of_mem_replicate member]
    trivial

/-- A worker set apart from the others, before and after its stage changes. -/
theorem exists_others (present : t.workers[worker]? = some s)
    : ∃ others, t.workers.Perm (s :: others)
        ∧ ∀ s', (t.workers.set worker s').Perm (s' :: others) := by
  obtain ⟨inside, rfl⟩ := List.getElem?_eq_some_iff.mp present
  exact ⟨_, (List.getElem_cons_eraseIdx_perm inside).symm, List.set_perm_cons_eraseIdx inside⟩

/-- Putting a worker into a stage changes a count by that worker alone. -/
theorem countP_put (present : t.workers[worker]? = some s) (is : Stage → Bool) (s' : Stage)
    : (t.put worker s').workers.countP is + (if is s then 1 else 0)
        = t.workers.countP is + if is s' then 1 else 0 := by
  obtain ⟨others, before, after⟩ := exists_others present
  simp only [put, before.countP_eq, (after s').countP_eq, List.countP_cons]
  omega

/-- What workers have in hand changes by what one of them lays down and takes up. -/
theorem filterMap_put (present : t.workers[worker]? = some s) (inHand : Stage → Option Delivery)
    (s' : Stage)
    : ((inHand s).toList ++ (t.put worker s').workers.filterMap inHand).Perm
        ((inHand s').toList ++ t.workers.filterMap inHand) := by
  obtain ⟨others, before, after⟩ := exists_others present
  have split (s : Stage) : (s :: others).filterMap inHand
      = (inHand s).toList ++ others.filterMap inHand := by
    cases has : inHand s <;> simp [has]
  have now := before.filterMap inHand
  have later := (after s').filterMap inHand
  rw [split] at now later
  refine ((later.append_left _).trans ?_).trans (now.symm.append_left _)
  rw [← List.append_assoc, ← List.append_assoc]
  exact List.perm_append_comm.append_right _

/-- What grows in the course of time. -/
structure Grows (t u : Team) : Prop where
  taken : t.taken ⊆ u.taken
  cancelled : t.cancelled → u.cancelled
  failure : t.failure.isSome → u.failure.isSome

theorem Grows.refl (t : Team) : t.Grows t :=
  ⟨List.Subset.refl _, id, id⟩

/-- A cause that was given stays given while a team grows. -/
theorem Gave.mono {cause : QueueError} (h : t.Gave cause) (grows : t.Grows u) : u.Gave cause :=
  h.imp (grows.taken ·) (And.imp_right (grows.taken ·))

/-- What a stage bears witness to still holds once the team has grown. -/
theorem Bears.mono (h : t.Bears s) (grows : t.Grows u) : u.Bears s := by
  cases s with
  | failing cause => exact Gave.mono h grows
  | noted => exact grows.failure h
  | gone => exact Or.imp grows.cancelled grows.failure h
  | _ => trivial

/-- A worker changes its stage while the team changes around it to `u`. -/
theorem Orderly.put (h : t.Orderly size answers) (present : t.workers[worker]? = some s)
    (same : u.workers = t.workers) (grows : t.Grows u)
    (place : s'.atStream → s.atStream ∨ ¬t.isAttended) (reads : u.Reads answers)
    (balance
      : (u.passed ++ s'.carried?.toList ++ deliveries t.taken).Perm
          (t.passed ++ s.carried?.toList ++ deliveries u.taken))
    (cause : ∀ cause, u.failure = some cause → u.Gave cause)
    (halted : u.halted → u.failure.isSome) (bears : u.Bears s')
    : (u.put worker s').Orderly size answers where
  size_eq := by rw [← h.size_eq, ← same]; exact List.length_set
  alone := by
    have alone := h.alone
    have count := countP_put (same.symm ▸ present) Stage.atStream s'
    rw [same] at count
    by_cases arrives : s'.atStream
    · rcases place arrives with there | unattended
      · simp only [there, arrives, if_true] at count
        omega
      · have nobody : t.workers.countP Stage.atStream = 0 := by
          simpa [isAttended, List.countP_eq_zero] using unattended
        simp only [arrives, if_true] at count
        omega
    · simp only [arrives, Bool.false_eq_true, if_false] at count
      omega
  reads := reads
  once := by
    apply List.perm_iff_count.mpr
    intro d
    have once := h.once.count_eq d
    have balance := balance.count_eq d
    have moved := (filterMap_put (same.symm ▸ present) Stage.carried? s').count_eq d
    rw [same] at moved
    simp only [List.count_append, carried, Team.put] at once balance moved ⊢
    omega
  cause := cause
  halted := halted
  bears other member := by
    change u.Bears other
    rcases List.mem_or_eq_of_mem_set member with earlier | rfl
    · exact (h.bears other (same ▸ earlier)).mono grows
    · exact bears

/-- What the stream gives is the next of its answers, or its end again. -/
theorem Reads.of_pull? {answer : Answer} (h : t.Reads answers) (given : t.pull? = some (answer, u))
    : u.Reads answers := by
  obtain ⟨first, again, whole, taken, stopped, fresh⟩ := h
  unfold pull? at given
  split at given
  · rename_i ended
    cases given
    refine ⟨first, again + 1, whole, ?_, fun _ => stopped ended, fun open_ => ?_⟩
    · rw [taken, List.append_assoc, List.replicate_succ']
    · simp [ended] at open_
  · rename_i notEnded
    obtain rfl : again = 0 := fresh (by simpa using notEnded)
    split at given
    · cases given
    · rename_i next rest left
      cases given
      refine ⟨first ++ [answer], 0, ?_, ?_, fun ended => ?_, fun _ => rfl⟩
      · rw [← whole, left, List.append_assoc]
        rfl
      · rw [taken]
        simp
      · simp only [Option.isNone_iff_eq_none] at ended
        simp [ended]

/-- A pull takes one answer of the stream and leaves the workers and their results. -/
theorem of_pull? {answer : Answer} (given : t.pull? = some (answer, u))
    : u.taken = t.taken ++ [answer] ∧ u.workers = t.workers ∧ u.passed = t.passed
      ∧ u.failure = t.failure ∧ u.cancelled = t.cancelled ∧ u.halted = t.halted := by
  unfold pull? at given
  split at given
  · cases given
    exact ⟨rfl, rfl, rfl, rfl, rfl, rfl⟩
  · split at given
    · cases given
    · cases given
      exact ⟨rfl, rfl, rfl, rfl, rfl, rfl⟩

/-- One answer more adds its delivery, if it has one. -/
theorem deliveries_concat (answers : List Answer) (answer : Answer)
    : deliveries (answers ++ [answer])
        = deliveries answers ++ (Stage.found answer).carried?.toList := by
  rw [deliveries, List.filterMap_append]
  rcases answer with _ | _ | d <;> rfl

/-- A worker changes its stage and nothing else changes. -/
theorem Orderly.put_same (h : t.Orderly size answers) (present : t.workers[worker]? = some s)
    (place : s'.atStream → s.atStream ∨ ¬t.isAttended)
    (emptyHanded : s.carried? = none) (still : s'.carried? = none) (bears : t.Bears s')
    : (t.put worker s').Orderly size answers :=
  h.put present rfl (.refl t) place h.reads (by rw [emptyHanded, still]) h.cause h.halted bears

/-- A stopping team can bear the going of a worker: it was cancelled or has failed. -/
theorem Orderly.bears_stopping (h : t.Orderly size answers) (stopping : t.isStopping)
    : t.Bears .gone := by
  rcases Bool.or_eq_true_iff.mp stopping with cancelled | halted
  · exact .inl cancelled
  · exact .inr (h.halted halted)

/-- A worker with what the stream gave it. -/
theorem Orderly.pull (h : t.Orderly size answers) {answer : Answer}
    (present : t.workers[worker]? = some .polling) (given : t.pull? = some (answer, u))
    : (u.put worker (.found answer)).Orderly size answers := by
  obtain ⟨taken, workers, passed, failure, cancelled, halted⟩ := of_pull? given
  have grows : t.Grows u :=
    ⟨by simp [taken], by simp [cancelled], by simp [failure]⟩
  refine h.put present workers grows (fun _ => .inl rfl) (h.reads.of_pull? given) ?_ ?_ ?_ ?_
  · rw [passed, taken, deliveries_concat]
    simp only [Stage.carried?, Option.toList_none, List.append_nil, List.append_assoc]
    exact List.perm_append_comm.append_left _
  · intro cause noted
    exact (h.cause cause (failure ▸ noted)).mono grows
  · intro told
    rw [failure]
    exact h.halted (halted ▸ told)
  · rcases answer with _ | cause | d
    · exact .inr ⟨rfl, by simp [taken]⟩
    · exact .inl (by simp [taken])
    · trivial

/-- A worker that looks goes on, or leaves if it is to stop. -/
theorem Orderly.look (h : t.Orderly size answers) (present : t.workers[worker]? = some s)
    (emptyHanded : s.carried? = none) (still : s'.carried? = none) (bears : t.Bears s')
    (place : s'.atStream → s.atStream ∨ ¬t.isAttended)
    : (t.put worker (if t.isStopping then .gone else s')).Orderly size answers := by
  by_cases stopping : t.isStopping
  · rw [if_pos stopping]
    exact h.put_same present nofun emptyHanded rfl (h.bears_stopping stopping)
  · rw [if_neg stopping]
    exact h.put_same present place emptyHanded still bears

/-- A worker notes a failure, unless one was noted before. -/
theorem Orderly.note (h : t.Orderly size answers) {cause : QueueError}
    (present : t.workers[worker]? = some (.failing cause))
    : ({ t with failure := t.failure.or (some cause) }.put worker .noted).Orderly size answers := by
  have gave : t.Gave cause := h.bears _ (List.mem_of_getElem? present)
  have noted : (t.failure.or (some cause)).isSome := by cases t.failure <;> simp
  refine h.put present rfl ⟨List.Subset.refl _, id, fun _ => noted⟩ nofun h.reads ?_ ?_
    (fun _ => noted) noted
  · simp [Stage.carried?]
  · intro other first
    cases before : t.failure with
    | none =>
        obtain rfl : cause = other := by simpa [before] using first
        exact gave
    | some earlier =>
        obtain rfl : earlier = other := by simpa [before] using first
        exact h.cause earlier before

/-- Every step of a worker keeps the team orderly, by cases on its stage. -/
theorem Orderly.go (h : t.Orderly size answers) (present : t.workers[worker]? = some s)
    : (t.go worker s).Orderly size answers := by
  cases s with
  | free => exact h.look present rfl rfl trivial nofun
  | asking =>
      simp only [Team.go]
      split
      · exact h
      · rename_i unattended
        exact h.put_same present (fun _ => .inr unattended) rfl rfl trivial
  | arrived => exact h.look present rfl rfl trivial fun _ => .inl rfl
  | polling =>
      simp only [Team.go]
      split
      · rename_i given
        exact h.pull present given
      · exact h
  | carrying d =>
      refine h.put present rfl ⟨List.Subset.refl _, id, id⟩ nofun h.reads ?_ h.cause h.halted
        trivial
      simp [Stage.carried?]
  | handling d => exact h.put_same present nofun rfl rfl trivial
  | failing cause => exact h.note present
  | noted =>
      have noted : t.failure.isSome := h.bears _ (List.mem_of_getElem? present)
      refine h.put present rfl ⟨List.Subset.refl _, id, id⟩ nofun h.reads ?_ h.cause
        (fun _ => noted) (.inr noted)
      simp [Stage.carried?]
  | gone => exact h

/-- Waiting only changes at which point a worker stands, and carries nothing. -/
theorem Orderly.wait (h : t.Orderly size answers) (present : t.workers[worker]? = some s)
    : (t.wait worker s).Orderly size answers := by
  cases s with
  | asking => exact h.put_same present nofun rfl rfl trivial
  | polling => exact h.put_same present (fun _ => .inl rfl) rfl rfl trivial
  | _ => exact h

/-- Every step of a team keeps it orderly; that of a worker is looked at stage by stage. -/
theorem Orderly.step (h : t.Orderly size answers) (act : Act)
    : (t.step act).Orderly size answers := by
  cases act with
  | cancel =>
      refine ⟨h.size_eq, h.alone, h.reads, h.once, h.cause, h.halted, fun s member => ?_⟩
      exact (h.bears s member).mono ⟨List.Subset.refl _, fun _ => rfl, id⟩
  | go worker =>
      cases present : t.workers[worker]? with
      | none => simpa [Team.step, present] using h
      | some s => simpa [Team.step, present] using h.go present
  | wait worker =>
      cases present : t.workers[worker]? with
      | none => simpa [Team.step, present] using h
      | some s => simpa [Team.step, present] using h.wait present
  | conclude =>
      simp only [Team.step]
      split
      · exact ⟨h.size_eq, h.alone, h.reads, h.once, h.cause, h.halted, h.bears⟩
      · exact h

/-- A team is orderly after any acts, by induction on them. -/
theorem Orderly.run (h : t.Orderly size answers) (acts : List Act)
    : (t.run acts).Orderly size answers := by
  induction acts generalizing t with
  | nil => exact h
  | cons act acts ih => exact ih (h.step act)

-------------------------------------------------------------------------------
-- What the work comes to
-------------------------------------------------------------------------------

/-- Whether the work is concluded now, with a result. -/
def Concludes (t : Team) (result : Except QueueError Unit) : Prop :=
  t.outcome = none ∧ (t.step .conclude).outcome = some result

/-- A team concludes with its own result, once all workers are gone and nothing was concluded
before. -/
theorem concludes_iff {result : Except QueueError Unit}
    : t.Concludes result ↔ t.outcome = none ∧ t.isDeserted ∧ t.pool.result = result := by
  unfold Concludes
  refine and_congr_right fun open_ => ?_
  by_cases deserted : t.isDeserted <;> simp [Team.step, deserted, open_]

/-- In a deserted team every worker is gone. -/
theorem eq_gone_of_isDeserted (deserted : t.isDeserted) : ∀ s ∈ t.workers, s = .gone := by
  simpa [isDeserted] using deserted

/-- Workers that have all gone were asked to stop, or one of them has found the stream failed. -/
theorem Orderly.bears_gone (h : t.Orderly size answers) (manned : 0 < size)
    (deserted : t.isDeserted)
    : t.Bears .gone := by
  have some : 0 < t.workers.length := h.size_eq ▸ manned
  have member := List.getElem_mem some
  exact eq_gone_of_isDeserted deserted _ member ▸ h.bears _ member

/-- How a team works off what a stream gives. -/
structure WorksOff (t : Team) (workers : Nat) (answers : List Answer) : Prop where
  /-- The stream is asked by one worker at a time. -/
  alone : t.workers.countP Stage.atStream ≤ 1
  /-- Answers are taken in the order of the stream, and its end again once it was taken. -/
  inOrder
    : ∃ given again, given ++ t.answers = answers
        ∧ t.taken = given ++ List.replicate again none ∧ (again ≠ 0 → none ∈ given)
  /-- Each delivery that was taken was passed to the handler once, or the worker that took it has
  not done so yet. -/
  once : (t.passed ++ t.carried).Perm (deliveries t.taken)
  /-- No more handlers run at once than there are to be workers, or one. -/
  running : t.pool.jobs.length ≤ max 1 workers
  /-- When the work is concluded, every delivery was handled and no handler runs. -/
  finished
    : ∀ result, t.Concludes result → t.pool.jobs = [] ∧ t.passed.Perm (deliveries t.taken)
  /-- It is concluded well only after a request to stop. -/
  asked : t.Concludes (.ok ()) → t.cancelled
  /-- A failure that it is concluded with was given by the stream. -/
  gave : ∀ cause, t.Concludes (.error cause) → t.Gave cause
  /-- An end of the stream that nobody had asked for by then is what it is concluded with, unless
  the stream also gave a failure. -/
  reported
    : ∀ result, t.Concludes result → none ∈ t.taken → (∀ cause, some (.error cause) ∉ t.taken) →
        t.cancelled = false → result = .error .streamClosed
  /-- A request to stop by then makes it concluded well, also when it comes after all workers have
  gone and the stream has ended, unless the stream gave a failure. -/
  excused
    : ∀ result, t.Concludes result → (∀ cause, some (.error cause) ∉ t.taken) → t.cancelled →
        result = .ok ()

/-- An orderly team works off its stream; each clause is read off the invariant at the end. -/
theorem Orderly.worksOff {workers : Nat} (h : t.Orderly (max 1 workers) answers)
    : t.WorksOff workers answers where
  alone := h.alone
  inOrder := by
    obtain ⟨given, again, whole, taken, ended, fresh⟩ := h.reads
    refine ⟨given, again, whole, taken, fun repeats => ?_⟩
    cases stopped : t.ended with
    | true => exact ended stopped
    | false => exact absurd (fresh stopped) repeats
  once := h.once
  running := Nat.le_trans (List.length_filterMap_le _ _) (Nat.le_of_eq h.size_eq)
  finished result concludes := by
    have deserted := eq_gone_of_isDeserted (concludes_iff.mp concludes).2.1
    have idle (inHand : Stage → Option Delivery) (none : inHand .gone = none)
        : t.workers.filterMap inHand = [] :=
      List.filterMap_eq_nil_iff.mpr fun s member => deserted s member ▸ none
    refine ⟨idle _ rfl, ?_⟩
    have once := h.once
    rwa [carried, idle _ rfl, List.append_nil] at once
  asked concludes := by
    obtain ⟨-, deserted, result⟩ := concludes_iff.mp concludes
    rcases h.bears_gone (by omega) deserted with cancelled | failed
    · exact cancelled
    · obtain ⟨cause, first⟩ := Option.isSome_iff_exists.mp failed
      by_contra never
      cases cause <;> simp [pool, Pool.result, first, never] at result
  gave cause concludes := by
    obtain ⟨-, -, result⟩ := concludes_iff.mp concludes
    apply h.cause
    cases first : t.failure with
    | none => simp [pool, Pool.result, first] at result
    | some other =>
        cases other with
        | streamClosed =>
            by_cases cancelled : t.cancelled <;> simp_all [pool, Pool.result]
        | _ => simpa [pool, Pool.result, first] using result
  reported result concludes ended clean never := by
    obtain ⟨-, deserted, rfl⟩ := concludes_iff.mp concludes
    rcases h.bears_gone (by omega) deserted with cancelled | failed
    · simp [never] at cancelled
    · obtain ⟨cause, first⟩ := Option.isSome_iff_exists.mp failed
      obtain rfl : cause = .streamClosed :=
        ((h.cause cause first).resolve_left (clean cause)).1
      simp [pool, Pool.result, first, never]
  excused result concludes clean cancelled := by
    obtain ⟨-, -, rfl⟩ := concludes_iff.mp concludes
    cases first : t.failure with
    | none => simp [pool, Pool.result, first]
    | some cause =>
        obtain rfl : cause = .streamClosed :=
          ((h.cause cause first).resolve_left (clean cause)).1
        simp [pool, Pool.result, first, cancelled]

/-- A team works off what its stream gives, in every interleaving of the steps of its workers. -/
theorem worksOff_run (workers : Nat) (answers : List Answer) (acts : List Act)
    : ((start workers answers).run acts).WorksOff workers answers :=
  ((Orderly.start workers answers).run acts).worksOff

/-- Whether a team says that its stream ended when, at some time after all workers had gone, nobody
had asked it to stop. -/
def ReportsEnd (workers : Nat) (answers : List Answer) (acts : List Act) : Prop :=
  ∀ earlier later result, acts = earlier ++ later →
    ((start workers answers).run earlier).isDeserted →
    none ∈ ((start workers answers).run earlier).taken →
    (∀ cause, some (.error cause) ∉ ((start workers answers).run earlier).taken) →
    ((start workers answers).run earlier).cancelled = false →
    ((start workers answers).run acts).outcome = some result →
    result = .error .streamClosed

/-- The only worker finds that the stream has ended, and leaves. -/
def desertion : List Act :=
  List.replicate 6 (.go 0)

/-- A request to stop that comes when all workers have gone, but before the work is concluded, hides
that the stream ended. -/
theorem not_reportsEnd_lateCancel : ¬ReportsEnd 1 [none] (desertion ++ [.cancel, .conclude]) := by
  intro reports
  have concluded := reports desertion [.cancel, .conclude] (.ok ()) rfl rfl
    (List.mem_singleton.mpr rfl) (fun _ => nofun) rfl rfl
  cases concluded

end Team

end Almanac.Broker
