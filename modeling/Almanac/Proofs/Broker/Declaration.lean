import Almanac.Proofs.Broker.Turn

/-! Declarations as they go on, one step after the other.
A declaration changes a broker on its way, and a refusal takes back nothing of what was done before
it. All that can be refused is looked at before anything is changed, though, so that a declaration
takes effect as a whole or not at all.
-/

namespace Almanac.Broker

-------------------------------------------------------------------------------
-- Steps
-------------------------------------------------------------------------------

/-- A step at a site: how it ends, and what it leaves there. -/
abbrev Step (Site : Type) :=
  Site → Except QueueError Unit × Site

namespace Step

variable {Site Client : Type}

/-- Steps one after the other, up to the first that is refused. What was done by then stays. -/
def runAll : List (Step Site) → Site → Except QueueError Unit × Site
  | [], site => (.ok (), site)
  | step :: steps, site =>
      match step site with
      | (.ok _, after) => runAll steps after
      | (.error e, after) => (.error e, after)

/-- What an operation leaves that takes effect as a whole or not at all. -/
def allOrNothing (site : Site) : Except QueueError Site → Except QueueError Unit × Site
  | .ok after => (.ok (), after)
  | .error e => (.error e, site)

/-- Steps come to what an operation comes to at once, and leave the site as it was when they are
refused. -/
structure Whole (steps : List (Step Site)) (site : Site) (outcome : Except QueueError Site)
    : Prop where
  done : ∀ after, runAll steps site = (.ok (), after) ↔ outcome = .ok after
  refused : ∀ e after, runAll steps site = (.error e, after) ↔ outcome = .error e ∧ after = site

theorem whole_of_eq {steps : List (Step Site)} {site : Site} {outcome : Except QueueError Site}
    (same : runAll steps site = allOrNothing site outcome)
    : Whole steps site outcome := by
  constructor <;> intros <;> rw [same] <;> cases outcome <;> simp [allOrNothing, eq_comm]

/-- A step of a client that concerns the broker alone. -/
def atBroker (step : Step State) : Step (Client × State) :=
  fun (client, b) => ((step b).1, client, (step b).2)

/-- Steps in a row are run one part after the other, and not at all past a refusal. -/
theorem runAll_append (steps more : List (Step Site)) (site : Site)
    : runAll (steps ++ more) site
      = match runAll steps site with
        | (.ok _, after) => runAll more after
        | (.error e, after) => (.error e, after) := by
  induction steps generalizing site with
  | nil => rfl
  | cons step steps ih =>
      simp only [List.cons_append, runAll]
      rcases step site with ⟨_ | _, after⟩
      · rfl
      · exact ih after

theorem runAll_atBroker (steps : List (Step State)) (client : Client) (b : State)
    : runAll (steps.map atBroker) (client, b)
      = ((runAll steps b).1, client, (runAll steps b).2) := by
  induction steps generalizing b with
  | nil => rfl
  | cons step steps ih =>
      simp only [List.map_cons, runAll, atBroker]
      rcases step b with ⟨_ | _, after⟩
      · rfl
      · exact ih after

end Step

-------------------------------------------------------------------------------
-- The steps of a declaration
-------------------------------------------------------------------------------

namespace State

variable {b after : State} {s : Settings} {e : QueueError}

def checkNames (s : Settings) : Step State :=
  fun b => (s.validate, b)

/-- Unless there is an exchange of the channel's name, one without bindings is opened. -/
def openExchange (s : Settings) : Step State :=
  fun b =>
    match b.exchange? s.exchange with
    | some _ => (.ok (), b)
    | none => (.ok (), { b with exchanges := b.exchanges ++ [⟨s.exchange, s.kind, []⟩] })

def checkKind (s : Settings) : Step State :=
  fun b =>
    match b.exchange? s.exchange with
    | some x =>
        if x.kind = s.kind then (.ok (), b)
        else (.error (.channel s!"exchange '{s.exchange}' already declared as {x.kind.name}"), b)
    | none => (.ok (), b)

def addBinding (s : Settings) : Step State :=
  fun b =>
    (.ok (),
      { b with
        exchanges := b.exchanges.map fun y =>
          if y.name = s.exchange then bind y ⟨s.key, s.queue⟩ else y })

def openQueue (s : Settings) : Step State :=
  fun b => (.ok (), b.declareQueue s.queue)

/-- A declaration checks the names of its channel, opens the exchange and checks its kind, and then
adds the binding and the queue. -/
def declaration (s : Settings) : List (Step State) :=
  [checkNames s, openExchange s, checkKind s, addBinding s, openQueue s]

theorem map_bind_of_fresh (fresh : b.exchange? s.exchange = none) (binding : Binding)
    : (b.exchanges.map fun y => if y.name = s.exchange then bind y binding else y)
      = b.exchanges := by
  have others : ∀ y ∈ b.exchanges, y.name ≠ s.exchange := by
    simpa [exchange?] using fresh
  refine (List.map_congr_left fun y member => ?_).trans (List.map_id _)
  rw [if_neg (others y member), id]

/-- The check of the kind is the only step that is refused when others have changed something, and
it holds of an exchange that was just opened. So nothing is ever changed before a refusal. -/
theorem runAll_declaration (b : State) (s : Settings)
    : Step.runAll (declaration s) b = Step.allOrNothing b (b.declare s) := by
  cases valid : s.validate with
  | error e =>
      simp [declaration, Step.runAll, checkNames, valid, declare, Bind.bind, Except.bind,
        Step.allOrNothing]
  | ok _ =>
      cases found : b.exchange? s.exchange with
      | none =>
          have opened
              : exchange? { b with exchanges := b.exchanges ++ [⟨s.exchange, s.kind, []⟩] }
                  s.exchange
                = some ⟨s.exchange, s.kind, []⟩ := by
            rw [exchange?] at found ⊢
            simp [found]
          have bound : bind ⟨s.exchange, s.kind, []⟩ ⟨s.key, s.queue⟩
              = ⟨s.exchange, s.kind, [⟨s.key, s.queue⟩]⟩ := rfl
          have others := map_bind_of_fresh found ⟨s.key, s.queue⟩
          simp [declaration, Step.runAll, checkNames, valid, openExchange, found, checkKind,
            opened, addBinding, bound, others, openQueue, declare, declareExchange, Bind.bind,
            Except.bind, Step.allOrNothing]
      | some x =>
          by_cases same : x.kind = s.kind <;>
            simp [declaration, Step.runAll, checkNames, valid, openExchange, found, checkKind,
              same, addBinding, openQueue, declare, declareExchange, Bind.bind, Except.bind,
              Step.allOrNothing]

-------------------------------------------------------------------------------
-- Refusals
-------------------------------------------------------------------------------

/-- Why a broker refuses to declare a channel. -/
inductive Refuses (b : State) (s : Settings) : QueueError → Prop where
  | noExchangeName (empty : s.exchange = "")
    : Refuses b s (.invalidConfig "exchange name must not be empty")
  | noQueueName (named : s.exchange ≠ "") (empty : s.queue = "")
    : Refuses b s (.invalidConfig "queue name must not be empty")
  /-- There is an exchange of the name, but of another kind. -/
  | otherKind {x : Exchange} (named : s.exchange ≠ "") (queueNamed : s.queue ≠ "")
    (known : b.exchange? s.exchange = some x) (differs : x.kind ≠ s.kind)
    : Refuses b s (.channel s!"exchange '{s.exchange}' already declared as {x.kind.name}")

theorem validate_eq_ok_iff : s.validate = .ok () ↔ s.exchange ≠ "" ∧ s.queue ≠ "" := by
  by_cases unnamed : s.exchange = "" <;> by_cases unqueued : s.queue = "" <;>
    simp [Settings.validate, unnamed, unqueued]

/-- A declaration is refused for exactly one of its reasons, in the order in which they are looked
for. -/
theorem declare_eq_error_iff : b.declare s = .error e ↔ b.Refuses s e := by
  constructor
  · intro refused
    by_cases named : s.exchange = ""
    · obtain rfl : QueueError.invalidConfig "exchange name must not be empty" = e := by
        simpa [declare, Settings.validate, named, Bind.bind, Except.bind] using refused
      exact .noExchangeName named
    by_cases queueNamed : s.queue = ""
    · obtain rfl : QueueError.invalidConfig "queue name must not be empty" = e := by
        simpa [declare, Settings.validate, named, queueNamed, Bind.bind, Except.bind]
          using refused
      exact .noQueueName named queueNamed
    have valid := validate_eq_ok_iff.mpr ⟨named, queueNamed⟩
    cases known : b.exchange? s.exchange with
    | none => simp [declare, valid, declareExchange, known, Bind.bind, Except.bind] at refused
    | some x =>
        by_cases differs : x.kind = s.kind
        · simp [declare, valid, declareExchange, known, differs, Bind.bind, Except.bind]
            at refused
        · obtain rfl : QueueError.channel
              s!"exchange '{s.exchange}' already declared as {x.kind.name}" = e := by
            simpa [declare, valid, declareExchange, known, differs, Bind.bind, Except.bind]
              using refused
          exact .otherKind named queueNamed known differs
  · intro refuses
    cases refuses with
    | noExchangeName empty => simp [declare, Settings.validate, empty, Bind.bind, Except.bind]
    | noQueueName named empty =>
        simp [declare, Settings.validate, named, empty, Bind.bind, Except.bind]
    | otherKind named queueNamed known differs =>
        have valid := validate_eq_ok_iff.mpr ⟨named, queueNamed⟩
        simp [declare, valid, declareExchange, known, differs, Bind.bind, Except.bind]

end State

-------------------------------------------------------------------------------
-- Clients that connect
-------------------------------------------------------------------------------

/-- A client that is connected has nothing to do. Another one declares its channel, and enters once
that is done. -/
def Step.connecting {Client : Type} (connected : Bool) (s : Settings)
    (enter : Client × State → Client × State) : List (Step (Client × State)) :=
  if connected then []
  else (State.declaration s).map atBroker ++ [fun site => (.ok (), enter site)]

theorem Step.runAll_connecting {Client : Type} (connected : Bool) (s : Settings)
    (enter : Client × State → Client × State) (client : Client) (b : State)
    : runAll (connecting connected s enter) (client, b)
      = allOrNothing (client, b)
          (if connected then .ok (client, b)
            else (b.declare s).map fun after => enter (client, after)) := by
  cases connected with
  | true => rfl
  | false =>
      simp only [connecting, Bool.false_eq_true, if_false]
      rw [runAll_append, runAll_atBroker, State.runAll_declaration]
      cases b.declare s <;> rfl

namespace Producer

variable {p : Producer} {b : State} {e : QueueError}

/-- A producer counts as connected once its channel is declared. -/
def connecting (p : Producer) : List (Step (Producer × State)) :=
  Step.connecting p.connected p.settings fun (p, b) => ({ p with connected := true }, b)

theorem runAll_connecting (p : Producer) (b : State)
    : Step.runAll p.connecting (p, b) = Step.allOrNothing (p, b) (p.connect b) :=
  Step.runAll_connecting _ _ _ p b

theorem connect_eq_error_iff
    : p.connect b = .error e ↔ p.connected = false ∧ b.Refuses p.settings e := by
  rw [← State.declare_eq_error_iff, connect]
  cases p.connected <;> cases b.declare p.settings <;> simp [Except.map]

end Producer

namespace Consumer

variable {c : Consumer} {b : State} {e : QueueError}

/-- A consumer opens its session once its channel is declared. -/
def connecting (c : Consumer) : List (Step (Consumer × State)) :=
  Step.connecting c.session.isSome c.settings fun (c, b) =>
    ({ c with session := some (b.sessions.length + 1) }, b.openSession c.settings.prefetch.toNat)

theorem runAll_connecting (c : Consumer) (b : State)
    : Step.runAll c.connecting (c, b) = Step.allOrNothing (c, b) (c.connect b) := by
  rw [connecting, Step.runAll_connecting, connect]
  cases c.session <;> rfl

theorem connect_eq_error_iff
    : c.connect b = .error e ↔ c.session = none ∧ b.Refuses c.settings e := by
  rw [← State.declare_eq_error_iff, connect]
  cases c.session <;> cases b.declare c.settings <;> simp [Except.map]

end Consumer

end Almanac.Broker
