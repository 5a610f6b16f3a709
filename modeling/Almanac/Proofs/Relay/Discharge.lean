import Almanac.Proofs.Relay.Manning

/-! A sender's run, as it goes from turn to turn, takes the steps of a duty.
What it does at one turn, a duty can do in some steps between which nobody acts. So what holds of
every duty holds of every such run, whatever others do between its turns.
-/

namespace Almanac.Relay

open Time Broker

namespace Duty

variable {d : Duty} {c : Crew}

-------------------------------------------------------------------------------
-- The end of a run
-------------------------------------------------------------------------------

/-- The consumer and the target are closed one after the other. -/
theorem Kept.run_closing (kept : d.Kept) {outcome : Except SenderError Unit}
    (stage : d.stage = .closing outcome) {consumer : Consumer}
    (known : d.consumer? = some consumer) (target : Target)
    : (d.run [.close, .handBack, .part]).stage = .over outcome
        ∧ (d.run [.close, .handBack, .part]).broker = (consumer.close d.broker).2
        ∧ (d.run [.close, .handBack, .part]).consumer? = some (consumer.close d.broker).1
        ∧ (d.run [.close, .handBack, .part]).line = d.line.close
        ∧ d.UsesAll [.close, .handBack, .part] target
            (if d.line = .opened then target.close.2 else target) := by
  have order := stage ▸ kept.order
  cases order with | @closing session _ found unhandled well =>
  obtain rfl := Option.some.inj (found.symm.trans known)
  have inside := (List.getElem?_eq_some_iff.mp known).1
  have first : d.step .close = d.close outcome := by simp [Duty.step, stage]
  have ended : d.run [.close, .handBack, .part]
      = ((d.close outcome).handBack outcome).part outcome := by
    change ((d.step .close).step .handBack).step .part = _
    rw [first]
    rfl
  have market : (((d.close outcome).handBack outcome).part outcome).workplace.market
      = { d.workplace.market with
          broker := ((d.client (some session)).close d.broker).2
          consumers :=
            d.workplace.market.consumers.set d.place
              ((d.client (some session)).close d.broker).1 } := by
    refine Eq.trans ?_ (d.workplace.market.serve_leave_handBack d.place _ found rfl)
    change ((d.close outcome).doing _).workplace.market = _
    rw [workplace_doing]
    change ((d.doing _).workplace.step _).market = _
    rw [workplace_doing]
    rfl
  have uses : ((d.close outcome).handBack outcome).Uses .part target
      (if d.line = .opened then target.close.2 else target) := rfl
  rw [ended]
  refine ⟨rfl, ?_, ?_, rfl, target, rfl, target, rfl, _, ?_, rfl⟩
  · rw [broker, market]
  · rw [consumer?, market]
    change (d.workplace.market.consumers.set d.place _)[d.place]? = _
    simp [inside]
  · rw [first]
    exact uses

/-- Free workers that are to stop leave one after the other. -/
theorem run_leave (stopping : d.isStopping) {session free : Nat}
    (stage : d.stage = .working session free none)
    : d.run (List.replicate free (.crew .leave)) = d.enter (.working session 0 none) := by
  induction free generalizing d with
  | zero => rw [← stage]; rfl
  | succ free ih =>
      have left : d.step (.crew .leave) = d.enter (.working session free none) := by
        simp [step, stage, labour, stopping]
      have still : (d.enter (.working session free none)).isStopping := stopping
      rw [List.replicate_succ]
      change (d.step (.crew .leave)).run _ = _
      rw [left, ih still rfl]
      rfl

/-- Once all workers have left, the consumer is to be closed. -/
theorem step_conclude {session : Nat} {failure : Option QueueError} (idle : d.jobs = [])
    : (d.enter (.working session 0 failure)).step (.crew .conclude)
      = d.enter (.closing (d.result failure)) := by
  have idle : (d.enter (.working session 0 failure)).jobs = [] := idle
  change (d.enter (.working session 0 failure)).labour session 0 failure .conclude = _
  simp only [labour, idle, and_self, if_true]
  rfl

/-- A run whose workers are done comes to its end as the sender's does. -/
theorem Mans.disband (h : d.Mans c []) (kept : d.Kept) (done : c.pool.isDone) (sender : Sender)
    : ∃ acts, d.UsesAll acts c.target c.target.close.2
        ∧ (d.run acts).stage = .over (sender.disband c d.broker).1
        ∧ (d.run acts).broker = (sender.disband c d.broker).2.2
        ∧ (d.run acts).consumer? = some (sender.disband c d.broker).2.1.consumer := by
  obtain ⟨stops, finished⟩ := Bool.and_eq_true_iff.mp done
  have stopping : d.isStopping := h.stopping (by simpa [Pool.isStopping, h.sound] using stops)
  have idle : d.jobs = [] := by
    have jobs := h.jobs
    rw [List.nil_append, List.isEmpty_iff.mp finished] at jobs
    exact List.map_eq_nil_iff.mp jobs.eq_nil
  have left : d.run (List.replicate c.pool.free (.crew .leave) ++ [.crew .conclude])
      = d.enter (.closing (.ok ())) := by
    rw [run_append, run_leave stopping h.stage]
    exact step_conclude idle
  have result : c.pool.result.mapError SenderError.queue = .ok () := by
    rw [c.pool.result_of_failure_eq_none h.sound]
    rfl
  have opened : d.line = .opened := by
    have order := h.stage ▸ kept.order
    cases order with | working _ _ line _ => exact line
  have later := kept.run (List.replicate c.pool.free (.crew .leave) ++ [.crew .conclude])
  have leaves : d.UsesAll (List.replicate c.pool.free (.crew .leave) ++ [.crew .conclude])
      c.target c.target :=
    usesAll_of_sparesTarget (by simp [Act.sparesTarget]) _
  rw [left] at later
  obtain ⟨ended, broker, consumer, -, closes⟩ := later.run_closing rfl (h.known kept).1 c.target
  have line : (d.enter (.closing (.ok ()))).line = .opened := opened
  rw [line, if_pos rfl, ← left] at closes
  refine ⟨List.replicate c.pool.free (.crew .leave) ++ [.crew .conclude]
    ++ [.close, .handBack, .part], leaves.append closes, ?_⟩
  rw [run_append, left, Sender.disband, result]
  exact ⟨ended, broker, consumer⟩

-------------------------------------------------------------------------------
-- The beginning of a run
-------------------------------------------------------------------------------

/-- Whether a sender is the one of a duty by now, with a consumer, and was asked to stop only if the
duty was. -/
structure Employs (d : Duty) (sender : Sender) (consumer : Consumer) (stopped : Bool) : Prop where
  settings : sender.settings = d.sender.settings
  consumer : sender.consumer = consumer
  shut : sender.shutDown → d.sender.shutDown
  asked : stopped → d.request ≠ .unmade ∨ d.sender.shutDown

/-- Whether others at the workplace can leave a broker so, while a run does nothing. -/
def Awaits (d : Duty) (b : Broker.State) : Prop :=
  ∃ acts since, acts.all Act.sparesTarget ∧ d.run acts = { d with since }
    ∧ (d.run acts).broker = b ∧ (d.run acts).consumer? = d.consumer?

/-- Somebody else can declare a channel. -/
theorem awaits_declare {settings : Broker.Settings} {b : Broker.State}
    (declared : d.broker.declare settings = .ok b)
    : d.Awaits b := by
  let add : WorkAct := .client (.addProducer settings)
  let connects : WorkAct := .client (.connectProducer d.workplace.market.producers.length)
  have declared : d.workplace.market.broker.declare settings = .ok b := declared
  have first : d.step (.other add) = d.doing add := by
    simp [step, add, Workplace.allowsOther]
  have second : (d.doing add).step (.other connects) = (d.doing add).doing connects := by
    simp [step, connects, Workplace.allowsOther]
  have ran : d.run [.other add, .other connects] = (d.doing add).doing connects := by
    change (d.step (.other add)).step (.other connects) = _
    rw [first, second]
  have market : ((d.doing add).doing connects).workplace.market
      = { d.workplace.market with
          broker := b
          producers := d.workplace.market.producers ++ [{ settings, connected := true }] } := by
    rw [workplace_doing, workplace_doing]
    simp [add, connects, Workplace.step, Market.serve, Market.asProducer, Producer.connect,
      declared, Except.map, Market.orSame]
  refine ⟨[.other add, .other connects], _, rfl, ran, ?_, ?_⟩
  · rw [ran, broker, market]
  · rw [ran, consumer?, market]
    rfl

/-- What a target does to connect, others can do. -/
theorem awaits_reach {target next : Target} {b : Broker.State}
    (reached : target.connect d.broker = .ok (next, b))
    : d.Awaits b := by
  have nothing (same : d.broker = b) : d.Awaits b := ⟨[], d.since, rfl, rfl, same, rfl⟩
  cases target with
  | log written =>
      cases reached
      exact nothing rfl
  | rehearsed r =>
      simp only [Target.connect] at reached
      split at reached
      · cases reached
      · cases reached
        exact nothing rfl
  | forward outlet =>
      cases connected : outlet.producer.connected with
      | true =>
          simp only [Target.connect, Outlet.connect, Producer.connect, connected, if_true,
            Except.map, Except.ok.injEq, Prod.mk.injEq] at reached
          exact nothing reached.2
      | false =>
          cases declared : d.broker.declare outlet.producer.settings with
          | error e =>
              simp [Target.connect, Outlet.connect, Producer.connect, connected, declared,
                Except.map] at reached
          | ok middle =>
              simp only [Target.connect, Outlet.connect, Producer.connect, connected,
                Bool.false_eq_true, if_false, declared, Except.map, Except.ok.injEq,
                Prod.mk.injEq] at reached
              exact awaits_declare (reached.2 ▸ declared)

/-- A run that connects its consumer has the broker that the consumer leaves. -/
theorem step_connect (stage : d.stage = .begun) (known : d.consumer? = some d.sender.consumer)
    {next : Consumer} {b : Broker.State}
    (connected : d.sender.consumer.connect d.broker = .ok (next, b))
    : d.step .connect = (d.doing (.client (.connectConsumer d.place))).enter .connected
      ∧ (d.step .connect).broker = b ∧ (d.step .connect).consumer? = some next := by
  have served := Market.serve_connectConsumer known connected
  have inside := (List.getElem?_eq_some_iff.mp known).1
  have stepped : d.step .connect
      = (d.doing (.client (.connectConsumer d.place))).enter .connected := by
    simp [step, stage, connect, connected]
  rw [stepped]
  refine ⟨rfl, ?_, ?_⟩
  · exact (d.broker_doing _).trans (by simp [Workplace.step, served])
  · exact (d.consumer?_doing _).trans (by simp [Workplace.step, served, inside])

theorem step_reach (stage : d.stage = .connected) {session : Nat}
    (known : d.consumer? = some (d.client (some session)))
    : d.step (.reach (.ok ()))
      = { d.enter (.working session (max 1 d.sender.settings.workers.toNat) none) with
          line := .opened } := by
  simp only [step, stage, reach, known, Option.bind_some]
  rfl

/-- The workers of a sender that has connected are at the stream of its session. -/
theorem Kept.mans_reach (kept : d.Kept) (stage : d.stage = .connected) {session : Nat}
    (known : d.consumer? = some (d.client (some session))) {sender : Sender} {stopped : Bool}
    (employs : d.Employs sender (d.client (some session)) stopped) (now : Turn)
    : (d.step (.reach (.ok ()))).Mans (sender.crew now) [] := by
  have order := stage ▸ kept.order
  cases order with | connected _ stream unhandled line =>
  have same : (sender.crew now).session = session := by
    simp [Sender.crew, employs.consumer, client]
  have free : (sender.crew now).pool.free = max 1 sender.settings.workers.toNat := by
    unfold Sender.crew
    cases sender.shutDown <;> rfl
  have jobs : (sender.crew now).pool.jobs = [] := by
    unfold Sender.crew
    cases sender.shutDown <;> rfl
  rw [step_reach stage known]
  refine ⟨?_, ?_, ?_, ?_, ?_, ?_⟩
  · rw [same, free, employs.settings]
    rfl
  · rw [same]
    exact employs.consumer
  · rw [jobs]
    change (d.jobs.map Job.task).Perm _
    rw [unhandled]
    exact .refl _
  · intro cancelled
    refine isStopping_iff.mpr (.inl (employs.shut ?_))
    by_contra going
    simp [Sender.crew, going, Pool.ofWorkers] at cancelled
  · unfold Sender.crew
    cases sender.shutDown <;> rfl
  · have somebody : 0 < max 1 sender.settings.workers.toNat :=
      Nat.lt_of_lt_of_le Nat.one_pos (Nat.le_max_left ..)
    unfold Sender.crew
    cases sender.shutDown
    · exact fun _ => ⟨somebody, rfl⟩
    · exact fun attended => absurd rfl attended

end Duty

namespace Shift

variable {d : Duty} {shift : Shift}

-------------------------------------------------------------------------------
-- Runs of senders
-------------------------------------------------------------------------------

/-- A run's target as it is now. -/
def target : Shift → Target
  | .arriving sender _ _ | .over sender _ => sender.target
  | .working _ crew _ _ => crew.target

/-- Whether a sender's run is where a duty is. -/
inductive Shows (d : Duty) : Shift → Prop where
  | arriving {sender : Sender} {turn : Turn} {stopped : Bool} (stage : d.stage = .begun)
    (employs : d.Employs sender d.sender.consumer stopped)
    : Shows d (.arriving sender turn stopped)
  | working {sender : Sender} {crew : Crew} {request leave : Option Turn} (mans : d.Mans crew [])
    (asked : request.isSome → d.request ≠ .unmade) (done : leave.isSome → crew.pool.isDone)
    : Shows d (.working sender crew request leave)
  | ended {sender : Sender} {outcome : Except SenderError Unit} (stage : d.stage = .over outcome)
    (consumer : d.consumer? = some sender.consumer)
    (target : d.line = .closed → ∃ target : Target, sender.target = target.close.2)
    : Shows d (.over sender outcome)
  | refused {sender : Sender} {cause : QueueError} (stage : d.stage = .refused cause)
    (consumer : d.consumer? = some sender.consumer)
    : Shows d (.over sender (.error (.queue cause)))

/-- Whether a duty can take steps to where a run and a broker are, and treat a target as the run
did. -/
def ComesFrom (after : Shift × Broker.State) (d : Duty) (target : Target) : Prop :=
  ∃ acts, d.UsesAll acts target after.1.target ∧ after.1.Shows (d.run acts)
    ∧ (d.run acts).broker = after.2

theorem Shows.comesFrom (shows : shift.Shows d) : ComesFrom (shift, d.broker) d shift.target :=
  ⟨[], rfl, shows, rfl⟩

theorem ComesFrom.after {after : Shift × Broker.State} {acts : List Duty.Act}
    {target next : Target} (uses : d.UsesAll acts target next)
    (h : ComesFrom after (d.run acts) next)
    : ComesFrom after d target := by
  obtain ⟨more, later, shows, left⟩ := h
  exact ⟨acts ++ more, uses.append later, by rwa [Duty.run_append], by rwa [Duty.run_append]⟩

theorem comesFrom_step {after : Shift × Broker.State} {target : Target} (act : Duty.Act)
    (uses : d.Uses act target after.1.target) (shows : after.1.Shows (d.step act))
    (left : (d.step act).broker = after.2)
    : ComesFrom after d target :=
  ⟨[act], ⟨_, uses, rfl⟩, shows, left⟩

theorem shows_goOn {sender : Sender} {crew : Crew} {request leave : Option Turn}
    (mans : d.Mans crew []) (asked : request.isSome → d.request ≠ .unmade)
    (done : leave.isSome → crew.pool.isDone) (now : Turn)
    : (goOn sender crew request leave now).Shows d := by
  refine .working mans asked fun leaving => ?_
  by_cases isDone : crew.pool.isDone
  · exact isDone
  · exact done (by simpa [isDone] using leaving)

section Connected

variable {sender : Sender} {session : Nat} {stopped : Bool}

/-- A run whose target cannot be connected closes its consumer. -/
theorem comesFrom_apart (kept : d.Kept) (stage : d.stage = .connected) (line : d.line = .unopened)
    (known : d.consumer? = some sender.consumer) {cause : RelayError}
    (refused : sender.target.connect d.broker = .error cause)
    : ComesFrom
        (.over { sender with consumer := (sender.consumer.close d.broker).1 }
            (.error (.relay cause)),
          (sender.consumer.close d.broker).2) d sender.target := by
  have reached : d.step (.reach (.error cause)) = d.enter (.closing (.error (.relay cause))) := by
    simp [Duty.step, stage, Duty.reach]
  have uses : d.Uses (.reach (.error cause)) sender.target sender.target := by
    simpa [Duty.Uses, stage] using refused
  have closing := kept.step (.reach (.error cause))
  rw [reached] at closing
  obtain ⟨ended, left, consumer, closed, closes⟩ := closing.run_closing rfl known sender.target
  have unopened : (d.enter (.closing (.error (.relay cause)))).line = .unopened := line
  rw [unopened] at closed closes
  rw [← reached] at ended left consumer closed closes
  refine ⟨[.reach (.error cause), .close, .handBack, .part], ⟨_, uses, closes⟩, ?_, ?_⟩
  · refine .ended ended (consumer.trans (by rw [reached]; rfl)) fun isClosed => ?_
    cases closed.symm.trans isClosed
  · refine left.trans ?_
    rw [reached]
    rfl

/-- A run whose target is connected has workers at the stream, which may be told to stop at once. -/
theorem comesFrom_reached (kept : d.Kept) (stage : d.stage = .connected)
    (known : d.consumer? = some (d.client (some session)))
    (employs : d.Employs sender (d.client (some session)) stopped) {target : Target}
    (connects : ∃ b after, target.connect b = .ok (sender.target, after)) (now : Turn)
    : ComesFrom
        (goOn sender (if stopped then (sender.crew now).stop now else sender.crew now) none none
            now,
          d.broker) d target := by
  have mans := kept.mans_reach stage known employs now
  have reached := Duty.step_reach stage known
  have uses : d.Uses (.reach (.ok ())) target sender.target := by
    simpa [Duty.Uses, stage] using connects
  have left : (d.step (.reach (.ok ()))).broker = d.broker := by
    rw [reached]
    rfl
  cases stopped with
  | false =>
      exact comesFrom_step _ uses (shows_goOn mans (by simp) (by simp) now) left
  | true =>
      have asked : (d.step (.reach (.ok ()))).request ≠ .unmade
          ∨ (d.step (.reach (.ok ()))).sender.shutDown := by
        rw [reached]
        exact employs.asked rfl
      obtain ⟨mans, stopping, same⟩ := mans.hear asked
      refine ⟨[.reach (.ok ()), .crew .hear], ⟨_, uses, _, rfl, rfl⟩, ?_, same.trans left⟩
      exact shows_goOn (mans.stop stopping now) (by simp) (by simp) now

/-- A run whose consumer is connected goes on as its target lets it. -/
theorem comesFrom_connected (kept : d.Kept) (stage : d.stage = .connected)
    (line : d.line = .unopened) (known : d.consumer? = some (d.client (some session)))
    (employs : d.Employs sender (d.client (some session)) stopped) (now : Turn)
    : ComesFrom
        (match sender.target.connect d.broker with
        | .ok (target, b) =>
            let sender := { sender with target }
            (goOn sender (if stopped then (sender.crew now).stop now else sender.crew now) none
              none now, b)
        | .error cause =>
            (.over { sender with consumer := (sender.consumer.close d.broker).1 }
                (.error (.relay cause)),
              (sender.consumer.close d.broker).2)) d sender.target := by
  cases reached : sender.target.connect d.broker with
  | error cause => exact comesFrom_apart kept stage line (employs.consumer ▸ known) reached
  | ok result =>
      obtain ⟨target, b⟩ := result
      obtain ⟨acts, since, spares, ran, rfl, still⟩ := Duty.awaits_reach reached
      have kept := kept.run acts
      refine .after (Duty.usesAll_of_sparesTarget spares _) ?_
      rw [ran] at kept still ⊢
      have employs : Duty.Employs { d with since } { sender with target } _ stopped :=
        ⟨employs.settings, employs.consumer, employs.shut, employs.asked⟩
      exact comesFrom_reached kept stage (still.trans known) employs ⟨_, _, reached⟩ now

end Connected

/-- A run that begins connects as the duty does. -/
theorem comesFrom_begin (kept : d.Kept) {sender : Sender} {turn : Turn} {stopped : Bool}
    (shows : (Shift.arriving sender turn stopped).Shows d) (now : Turn)
    : ComesFrom (begin sender stopped d.broker now) d sender.target := by
  cases shows with | arriving stage employs =>
  have order := stage ▸ kept.order
  cases order with | begun known unhandled line =>
  cases connected : d.sender.consumer.connect d.broker with
  | error cause =>
      have began : begin sender stopped d.broker now
          = (.over sender (.error (.queue cause)), d.broker) := by
        simp [begin, Sender.connect, employs.consumer, connected]
      have stepped : d.step .connect = d.enter (.refused cause) := by
        simp [Duty.step, stage, Duty.connect, connected]
      rw [began]
      refine comesFrom_step .connect rfl ?_ ?_ <;> rw [stepped]
      · exact .refused rfl (employs.consumer ▸ known)
      · rfl
  | ok result =>
      obtain ⟨next, b⟩ := result
      obtain ⟨stepped, left, found⟩ := Duty.step_connect stage known connected
      obtain ⟨session, rfl⟩ := Consumer.of_connect connected
      have kept := kept.step .connect
      rw [stepped] at left found kept
      subst left
      let joined : Sender := { sender with consumer := d.client (some session) }
      have employed
          : ((d.doing (.client (.connectConsumer d.place))).enter .connected).Employs joined
              (d.client (some session)) stopped :=
        ⟨employs.settings, rfl, employs.shut, employs.asked⟩
      have goesOn := comesFrom_connected kept rfl line found employed now
      have uses : d.UsesAll [.connect] sender.target sender.target := ⟨_, rfl, rfl⟩
      refine .after uses ?_
      change ComesFrom _ (d.step .connect) _
      rw [stepped]
      convert goesOn using 1
      simp only [begin, Sender.connect, employs.consumer, connected]
      cases sender.target.connect _ <;> rfl

-------------------------------------------------------------------------------
-- Turns of a run
-------------------------------------------------------------------------------

/-- What happens to a run: its turn comes, it is told of a message, or it is asked to stop. -/
inductive Deed where
  | advance (turn now : Turn)
  | alert (now : Turn)
  | stop (ending : Ending) (now : Turn)

/-- A run and the broker after a deed. -/
def after (shift : Shift) (b : Broker.State) : Deed → Shift × Broker.State
  | .advance turn now => shift.advance b turn now
  | .alert now => (shift.alert b now, b)
  | .stop ending now => (shift.stop ending now, b)

/-- A run goes on at a turn, by cases on how far it is and what the turn is for. -/
theorem comesFrom_advance (kept : d.Kept) (shows : shift.Shows d) (turn now : Turn)
    : ComesFrom (shift.advance d.broker turn now) d shift.target := by
  cases shows with
  | @arriving sender due stopped stage employs =>
      have shows : (Shift.arriving sender due stopped).Shows d := .arriving stage employs
      simp only [Shift.advance]
      split
      · exact comesFrom_begin kept shows now
      · exact shows.comesFrom
  | @working sender crew request leave mans asked done =>
      simp only [Shift.advance]
      split
      · rename_i called
        have isDone := done (by simp [called])
        obtain ⟨acts, uses, ended, left, consumer⟩ := mans.disband kept isDone sender
        exact ⟨acts, uses, .ended ended consumer fun _ => ⟨crew.target, rfl⟩, left⟩
      · split
        · rename_i called
          obtain ⟨mans, stopping, same⟩ := mans.hear (.inl (asked (by simp [called])))
          have mans := mans.stop stopping now
          refine comesFrom_step (.crew .hear) rfl ?_ same
          exact shows_goOn mans (by simp) (crew.isDone_stop now ∘ done) now
        · have isDone : leave.isSome → (crew.advance d.broker turn now).1.pool.isDone := by
            intro leaving
            rw [crew.advance_of_isDone mans.manned (done leaving)]
            exact done leaving
          obtain ⟨acts, uses, mans, left⟩ := mans.advance kept turn now
          refine ⟨acts, uses, ?_, left⟩
          exact shows_goOn mans (fun called => Duty.request_run (asked called) acts) isDone now
  | ended stage consumer target => exact (Shows.ended stage consumer target).comesFrom
  | refused stage consumer => exact (Shows.refused stage consumer).comesFrom

/-- A worker that waits may be called, which changes nothing of the duty. -/
theorem comesFrom_alert (shows : shift.Shows d) (now : Turn)
    : ComesFrom (shift.alert d.broker now, d.broker) d shift.target := by
  cases shows with
  | arriving stage employs => exact (Shows.arriving stage employs).comesFrom
  | @working sender crew request leave mans asked done =>
      refine ⟨[], crew.target_alert d.broker now, .working (mans.alert now) asked ?_, rfl⟩
      exact fun leaving => (crew.isDone_alert d.broker now).trans (done leaving)
  | ended stage consumer target => exact (Shows.ended stage consumer target).comesFrom
  | refused stage consumer => exact (Shows.refused stage consumer).comesFrom

/-- A run is asked to stop as the duty is, by cases on how far it is. -/
theorem comesFrom_stop (shows : shift.Shows d) (ending : Ending) (now : Turn)
    : ComesFrom (shift.stop ending now, d.broker) d shift.target := by
  have same := d.broker_stop ending
  cases shows with
  | arriving stage employs =>
      have stays := (d.stage_stop ending).trans stage
      have asks : (d.step (.stop ending)).request ≠ .unmade
          ∨ (d.step (.stop ending)).sender.shutDown := by
        cases ending with
        | request => exact .inl d.request.make_ne_unmade
        | shutdown => exact .inr d.shutDown_stop
      refine comesFrom_step (.stop ending) rfl (.arriving stays ⟨?_, ?_, ?_, fun _ => asks⟩) same
      · cases ending <;> exact employs.settings
      · exact employs.consumer.trans (d.spares_stop ending).consumer.symm
      · cases ending with
        | request => exact employs.shut
        | shutdown => exact fun _ => d.shutDown_stop
  | @working sender crew request leave mans asked done =>
      have mans := mans.spared (d.stage_stop ending) (d.spares_stop ending)
      cases ending with
      | request =>
          have asked : (d.step (.stop .request)).request ≠ .unmade := d.request.make_ne_unmade
          exact comesFrom_step (.stop .request) rfl (.working mans (fun _ => asked) done) same
      | shutdown =>
          have mans := mans.stop (Duty.isStopping_iff.mpr (.inl d.shutDown_stop)) now
          refine comesFrom_step (.stop .shutdown) rfl ?_ same
          exact shows_goOn mans (by simp) (crew.isDone_stop now ∘ done) now
  | ended stage consumer target => exact (Shows.ended stage consumer target).comesFrom
  | refused stage consumer => exact (Shows.refused stage consumer).comesFrom

theorem comesFrom_after (kept : d.Kept) (shows : shift.Shows d) (deed : Deed)
    : ComesFrom (shift.after d.broker deed) d shift.target := by
  cases deed with
  | advance turn now => exact comesFrom_advance kept shows turn now
  | alert now => exact comesFrom_alert shows now
  | stop ending now => exact comesFrom_stop shows ending now

/-- A run is where the duty is after others have acted. -/
theorem shows_other (shows : shift.Shows d) (act : WorkAct)
    : shift.Shows (d.step (.other act)) := by
  by_cases allowed : d.workplace.allowsOther d.place d.queue act
  · have acted : d.step (.other act) = d.doing act := by simp [Duty.step, allowed]
    have spares := Duty.spares_doing (Workplace.spares_of_allowsOther allowed)
    rw [acted]
    cases shows with
    | arriving stage employs =>
        exact .arriving stage ⟨employs.settings, employs.consumer, employs.shut, employs.asked⟩
    | working mans asked done => exact .working (mans.spared rfl spares) asked done
    | ended stage consumer target => exact .ended stage (spares.known consumer) target
    | refused stage consumer => exact .refused stage (spares.known consumer)
  · have same : d.step (.other act) = d := by simp [Duty.step, allowed]
    rwa [same]

-------------------------------------------------------------------------------
-- Nothing in flight
-------------------------------------------------------------------------------

/-- Whether a run has left nothing in flight if it is over and its consumer had connected. -/
inductive LeavesNothing (d : Duty) : Shift → Prop where
  | going {shift : Shift} (going : ¬shift.isOver) : LeavesNothing d shift
  | refused {sender : Sender} {cause : QueueError} (stage : d.stage = .refused cause)
    : LeavesNothing d (.over sender (.error (.queue cause)))
  | ended {sender : Sender} {outcome : Except SenderError Unit}
    (nothing : d.LeavesNothing outcome) (consumer : d.consumer? = some sender.consumer)
    (target : d.line = .closed → ∃ target : Target, sender.target = target.close.2)
    : LeavesNothing d (.over sender outcome)

theorem Shows.leavesNothing (shows : shift.Shows d) (kept : d.Kept) : shift.LeavesNothing d := by
  cases shows with
  | arriving | working => exact .going nofun
  | ended stage consumer target => exact .ended (kept.leavesNothing stage) consumer target
  | refused stage => exact .refused stage

/-- Whether a run leaves nothing in flight while deeds are done to it and others act around it. Each
deed is matched by steps of a duty, which leave the run, its target and the broker as it does. -/
def GoesAs (shift : Shift) (d : Duty) : List (Deed ⊕ WorkAct) → Prop
  | [] => shift.Shows d ∧ shift.LeavesNothing d
  | .inl deed :: rest =>
      let (next, b) := shift.after d.broker deed
      ∃ acts, d.UsesAll acts shift.target next.target ∧ (d.run acts).broker = b
        ∧ next.Shows (d.run acts) ∧ next.GoesAs (d.run acts) rest
  | .inr act :: rest => shift.GoesAs (d.step (.other act)) rest

/-- A run that is where a duty is goes on as it does, by induction on what happens. -/
theorem Shows.goesAs (shows : shift.Shows d) (kept : d.Kept) (events : List (Deed ⊕ WorkAct))
    : shift.GoesAs d events := by
  induction events generalizing d shift with
  | nil => exact ⟨shows, shows.leavesNothing kept⟩
  | cons event rest ih =>
      cases event with
      | inl deed =>
          obtain ⟨acts, uses, later, left⟩ := comesFrom_after kept shows deed
          exact ⟨acts, uses, left, later, ih later (kept.run acts)⟩
      | inr act => exact ih (shows_other shows act) (kept.step (.other act))

/-- However its run goes, and whatever others do meanwhile, a sender leaves nothing in flight. The
run's consumer is there before, used by nobody, and nobody handles deliveries of its queue. -/
theorem leaves_nothing_in_flight {sender : Sender} {place : Nat} {before : List WorkAct}
    (known : (Workplace.run {} before).market.consumers[place]? = some sender.consumer)
    (unhandled : (Workplace.run {} before).jobsAt sender.consumer.settings.queue = [])
    : (∀ acts outcome, ((Duty.start sender place before).run acts).stage = .over outcome →
          ((Duty.start sender place before).run acts).LeavesNothing outcome)
        ∧ ∀ turn events,
          (arriving sender turn false).GoesAs (.start sender place before) events := by
  have kept := Duty.Kept.start known unhandled
  refine ⟨fun acts outcome ended => (kept.run acts).leavesNothing ended, fun turn events => ?_⟩
  have shows : (arriving sender turn false).Shows (.start sender place before) :=
    .arriving rfl ⟨rfl, rfl, id, nofun⟩
  exact shows.goesAs kept events

/-- A worker takes a message without a notification, others publish, and the run is asked to
stop. -/
theorem nothing_in_flight_of_garbled :
    let sender : Sender :=
      { settings := {}, consumer := { settings := {}, number := 1 }, target := .log [] }
    let before : List WorkAct :=
      [.client (.addConsumer {}), .client (.addProducer {}), .client (.connectProducer 0),
        .client (.publish 0 [0])]
    let job : Job := ⟨⟨"notifications", 1, false, [0]⟩, .fresh, ⟨0, 0⟩⟩
    let crew := { sender with consumer := { sender.consumer with session := some 1 } }.crew ⟨0, 0⟩
    let d := (Duty.start sender 0 before).run
      [.connect, .reach (.ok ()), .crew .poll, .crew (.take ⟨0, 0⟩),
        .crew (.work job crew ⟨0, 1⟩), .other (.client (.publish 0 [1])), .stop .request,
        .crew .hear, .crew .leave, .crew .conclude, .close, .handBack, .part]
    d.stage = .over (.ok ()) ∧ d.LeavesNothing (.ok ())
      ∧ (arriving sender ⟨0, 0⟩ false).GoesAs (.start sender 0 before)
          [.inl (.advance ⟨0, 0⟩ ⟨0, 1⟩), .inr (.client (.publish 0 [1])),
            .inl (.stop .request ⟨0, 2⟩), .inl (.advance ⟨0, 2⟩ ⟨0, 3⟩)] := by
  intro sender before job crew d
  have ended : d.stage = .over (.ok ()) := by decide +kernel
  have known : (Workplace.run {} before).market.consumers[0]? = some sender.consumer := rfl
  obtain ⟨leaves, goes⟩ := leaves_nothing_in_flight known rfl
  exact ⟨ended, leaves _ _ ended, goes _ _⟩

end Shift

end Almanac.Relay
