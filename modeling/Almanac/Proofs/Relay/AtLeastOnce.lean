import Almanac.Proofs.Relay.Handling

/-! At-least-once delivery: a message leaves its queue only when its notification was relayed, when
it has none, or by a purge.
-/

namespace Almanac.Relay

open Time Broker

namespace Workplace

variable {w : Workplace} {name : String} {notes : List Note} {act : WorkAct}

/-- The ways in which an act takes a copy from its queue for good. -/
inductive Ends (w : Workplace) (name : String) (notes : List Note) (copy : Copy)
    : WorkAct → Prop where
  /-- Its notification was relayed while it was held under a tag, which is acknowledged now. -/
  | acknowledged {job : Job} {crew : Crew} {now : Turn} {p : Pending} {n : Notification}
    (hand : job ∈ w.jobs) (stage : job.stage = .relayed) (queue : job.delivery.queue = name)
    (held : (w.market.broker.queueOf name).pending? job.delivery.tag = some p)
    (same : p.copy = copy)
    (decoded : Notification.decode copy.body = .ok n)
    (relayed : RelayedAfter notes copy job.delivery.tag n)
    (unclosed
      : job.delivery.tag ∉ (notes.filterMap Note.happening?).filterMap Happening.closing?)
    : Ends w name notes copy (.work job crew now)
  /-- It has no notification. It was never acknowledged nor passed to a target, and is refused. -/
  | dropped {job : Job} {crew : Crew} {now : Turn} {p : Pending} {e : CodecError}
    (hand : job ∈ w.jobs) (stage : job.stage = .fresh) (queue : job.delivery.queue = name)
    (held : (w.market.broker.queueOf name).pending? job.delivery.tag = some p)
    (same : p.copy = copy)
    (garbled : Notification.decode copy.body = .error e)
    (unacknowledged : ∀ tag, .happened (.acknowledged copy tag) ∉ notes)
    (unpassed
      : ∀ d : Dealing, .dealt d ∈ notes → .happened (.delivered copy d.tag) ∉ notes)
    : Ends w name notes copy (.work job crew now)
  /-- It is ready, and the queue is purged. -/
  | purged {place : Nat} {c : Consumer} (client : w.market.consumers[place]? = some c)
    (connected : c.session.isSome) (queue : name = c.settings.queue)
    (ready : copy ∈ (w.market.broker.queueOf name).ready.map Message.copy)
    : Ends w name notes copy (.client (.purge place))

/-- The copy that is pending under a tag is the one that was delivered under it. -/
theorem Sound.copy_eq (h : w.Sound name notes) {copy : Copy} {tag : Nat} {p : Pending}
    (delivered : .happened (.delivered copy tag) ∈ notes)
    (held : (w.market.broker.queueOf name).pending? tag = some p)
    : p.copy = copy := by
  have tagged : p.tag = tag := by simpa using List.find?_some held
  have again := h.accounted.delivered p (List.mem_of_find?_eq_some held)
  exact h.accounted.delivered_unique (tagged ▸ again)
    (List.mem_filterMap.mpr ⟨_, delivered, rfl⟩)

theorem Sound.not_has_of_exit (h : w.Sound name notes) {copy : Copy}
    (gone : copy ∈ (notes.filterMap Note.happening?).filterMap Happening.exit?)
    : ¬(w.market.broker.queueOf name).Has copy := fun here =>
  (h.accounted.has_iff (h.accounted.arrival_of_has here)).mp here gone

theorem Sound.unacknowledged (h : w.Sound name notes) {copy : Copy}
    (here : (w.market.broker.queueOf name).Has copy) (tag : Nat)
    : .happened (.acknowledged copy tag) ∉ notes := by
  intro acknowledged
  refine h.not_has_of_exit (List.mem_filterMap.mpr ⟨.acknowledged copy tag, ?_, rfl⟩) here
  exact List.mem_filterMap.mpr ⟨_, acknowledged, rfl⟩

/-- The copy under a job's tag that a handler acknowledges was relayed while it was held. -/
theorem Sound.ends_relayed (h : w.Sound name notes) {job : Job} {crew : Crew} {now : Turn}
    {p : Pending} (hand : job ∈ w.jobs) (stage : job.stage = .relayed)
    (queue : job.delivery.queue = name)
    (held : (w.market.broker.queueOf name).pending? job.delivery.tag = some p)
    : w.Ends name notes p.copy (.work job crew now) := by
  obtain ⟨n, number, decoded, relayed⟩ := (h.fits job hand queue).relayed stage
  have copy : p.copy = ⟨number, job.delivery.body⟩ := by
    obtain ⟨before, later, eq, -⟩ := relayed
    exact h.copy_eq (eq ▸ by simp) held
  have unclosed := (h.accounted.mem_tags_iff.mp (by
    rw [← not_not (a := _ ∈ _), ← Queue.pending?_eq_none_iff, held]
    exact Option.some_ne_none p)).2
  exact .acknowledged hand stage queue held rfl (copy ▸ decoded) (copy ▸ relayed) unclosed

/-- The copy under a job's tag that a handler drops has no notification. -/
theorem Sound.ends_garbled (h : w.Sound name notes) {job : Job} {crew : Crew} {now : Turn}
    {p : Pending} {e : CodecError} (hand : job ∈ w.jobs) (stage : job.stage = .fresh)
    (queue : job.delivery.queue = name)
    (held : (w.market.broker.queueOf name).pending? job.delivery.tag = some p)
    (garbled : Notification.decode job.delivery.body = .error e)
    : w.Ends name notes p.copy (.work job crew now) := by
  obtain ⟨number, delivered⟩ := (h.fits job hand queue).taken
  have copy : p.copy = ⟨number, job.delivery.body⟩ := h.copy_eq delivered held
  have here : (w.market.broker.queueOf name).Has p.copy :=
    .inr (List.mem_map_of_mem (List.mem_of_find?_eq_some held))
  have empty : Notification.decode p.copy.body = .error e := by rw [copy, garbled]
  refine .dropped hand stage queue held rfl empty (h.unacknowledged here) ?_
  intro d dealt delivered
  obtain ⟨other, passed, decoded⟩ := h.passed d dealt
  have same := h.accounted.delivered_unique (List.mem_filterMap.mpr ⟨_, delivered, rfl⟩)
    (List.mem_filterMap.mpr ⟨_, passed, rfl⟩)
  rw [← same, empty] at decoded
  cases decoded

/-- A copy that a job's step makes go is one that it may make go, by cases on the stage. -/
theorem Sound.ends_of_work (h : w.Sound name notes) {copy : Copy} {job : Job} {crew : Crew}
    {now : Turn} (hand : job ∈ w.jobs)
    (gone
      : copy ∈ ((w.market.broker.queueOf name).log
          (crew.moves w.market.broker job name)).filterMap Happening.exit?)
    : w.Ends name notes copy (.work job crew now) := by
  cases stage : job.stage with
  | fresh =>
      cases decoded : Notification.decode job.delivery.body with
      | error e =>
          by_cases queue : name = job.delivery.queue
          · obtain ⟨p, held, rfl⟩ :
                ∃ p, (w.market.broker.queueOf name).pending? job.delivery.tag = some p
                  ∧ p.copy = copy := by
              simpa [Crew.moves, stage, decoded, ← queue, Queue.exits] using gone
            exact h.ends_garbled hand stage queue.symm held decoded
          · simp [Crew.moves, stage, decoded, queue] at gone
      | ok n =>
          rw [Queue.exits_of_pushes fun _ member => Target.push_of_moves (n := n)
            (by simpa [Crew.moves, stage, decoded] using member)] at gone
          cases gone
  | relaying n => simp [Crew.moves, stage] at gone
  | relayed =>
      by_cases queue : name = job.delivery.queue
      · obtain ⟨p, held, rfl⟩ :
            ∃ p, (w.market.broker.queueOf name).pending? job.delivery.tag = some p
              ∧ p.copy = copy := by
          simpa [Crew.moves, stage, ← queue, Queue.exits] using gone
        exact h.ends_relayed hand stage queue.symm held
      · simp [Crew.moves, stage, queue] at gone
  | pausing =>
      by_cases queue : name = job.delivery.queue <;>
        simp [Crew.moves, stage, queue, Queue.exits] at gone

/-- A copy that an act makes go is one that it may make go. -/
theorem Sound.ends_of_exit (h : w.Sound name notes) {copy : Copy}
    (gone
      : copy ∈ ((w.market.broker.queueOf name).log (w.moves name act)).filterMap Happening.exit?)
    : w.Ends name notes copy act := by
  cases act with
  | client act =>
      have removes := (w.market.exit_iff_removes name copy (.client act)).mp gone
      cases removes with
      | purged client connected queue ready => exact .purged client connected queue ready
  | take place session turn =>
      cases (w.market.exit_iff_removes name copy (.receive place session)).mp gone
  | work job crew now =>
      by_cases hand : job ∈ w.jobs
      · exact h.ends_of_work hand (by simpa [moves, hand] using gone)
      · simp [moves, hand] at gone
  | balk job now => simp [moves] at gone
  | abandon job => simp [moves] at gone

/-- What makes a copy go found it on its queue, in one of the ways in which copies go. By induction
on the acts. -/
theorem Sound.exists_ends (h : w.Sound name notes) (acts : List WorkAct) {copy : Copy}
    (gone
      : copy ∈ ((w.history name acts).filterMap Note.happening?).filterMap Happening.exit?)
    : ∃ earlier act later, acts = earlier ++ act :: later
        ∧ ((w.run earlier).market.broker.queueOf name).Has copy
        ∧ (w.run earlier).Ends name (notes ++ w.history name earlier) copy act := by
  induction acts generalizing w notes with
  | nil => cases gone
  | cons act acts ih =>
      rw [history, List.filterMap_append, List.filterMap_append, List.mem_append,
        happenings_notes] at gone
      rcases gone with now | later
      · have ends := h.ends_of_exit now
        refine ⟨[], act, acts, rfl, ?_, by simpa [history, Workplace.run] using ends⟩
        cases ends with
        | acknowledged _ _ _ held same =>
            exact .inr (List.mem_map.mpr ⟨_, List.mem_of_find?_eq_some held, same⟩)
        | dropped _ _ _ held same =>
            exact .inr (List.mem_map.mpr ⟨_, List.mem_of_find?_eq_some held, same⟩)
        | purged _ _ _ ready => exact .inl ready
      · obtain ⟨earlier, last, rest, eq, here, ends⟩ := ih (h.step act) later
        exact ⟨act :: earlier, last, rest, by rw [eq, List.cons_append], here,
          by simpa [history, Workplace.run] using ends⟩

/-- What happened at a queue in the course of acts. -/
def log (w : Workplace) (name : String) (acts : List WorkAct) : List Happening :=
  (w.history name acts).filterMap Note.happening?

/-- At-least-once delivery from a queue, after acts of clients and handlers. -/
structure AtLeastOnce (name : String) (acts : List WorkAct) : Prop where
  /-- As many copies came as were pushed, and they are told apart by their numbers. -/
  numbered
    : ((log {} name acts).filterMap Happening.arrival?).map Copy.number
      = List.range' 1 ((run {} acts).market.broker.queueOf name).published
  /-- Each copy that came is in one place, and there once: ready, pending or gone. -/
  onePlace
    : ∀ copy ∈ (log {} name acts).filterMap Happening.arrival?,
        (((run {} acts).market.broker.queueOf name).ready.map Message.copy).count copy
          + (((run {} acts).market.broker.queueOf name).pending.map Pending.copy).count copy
          + ((log {} name acts).filterMap Happening.exit?).count copy = 1
  /-- A copy that is gone stays away, whatever is done. -/
  forGood
    : ∀ copy ∈ (log {} name acts).filterMap Happening.exit?, ∀ more,
        ¬((run {} (acts ++ more)).market.broker.queueOf name).Has copy
  /-- A copy that is gone went at one of the acts, from the queue, and in one of three ways. -/
  ended
    : ∀ copy ∈ (log {} name acts).filterMap Happening.exit?,
        ∃ earlier act later, acts = earlier ++ act :: later
          ∧ ((run {} earlier).market.broker.queueOf name).Has copy
          ∧ (run {} earlier).Ends name (history {} name earlier) copy act
  /-- A delivery whose notification was refused by the target is never acknowledged. -/
  spared
    : ∀ tag n, .dealt ⟨tag, n, .refused⟩ ∈ history {} name acts →
        ∀ copy, .happened (.acknowledged copy tag) ∉ history {} name acts

/-- Whatever clients and handlers do, in any order, messages are delivered at least once. -/
theorem at_least_once (name : String) (acts : List WorkAct) : AtLeastOnce name acts := by
  have sound (acts : List WorkAct) : (run {} acts).Sound name (history {} name acts) :=
    (Sound.start name).run acts
  refine ⟨(sound acts).accounted.numbered, fun _ => (sound acts).accounted.count_places, ?_, ?_,
    (sound acts).spared⟩
  · intro copy gone more
    apply (sound (acts ++ more)).not_has_of_exit
    rw [history_append, List.filterMap_append, List.filterMap_append]
    exact List.mem_append_left _ gone
  · exact fun copy => (Sound.start name).exists_ends acts

end Workplace

end Almanac.Relay
