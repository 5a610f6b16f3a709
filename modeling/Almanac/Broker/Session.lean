/-! Sessions of consumers.
A session bounds how many deliveries its consumer holds by slots. A slot is free, in the hands of a
poll that waits for a message, or taken up by a delivery until that is settled.
-/

namespace Almanac.Broker

/-- A session: its number, how many slots it has, how many of them are free, and how many polls are
waiting for a message. A session with no slots sets no bound. -/
structure Session where
  number : Nat
  slots : Nat
  free : Nat
  polls : Nat := 0
  deriving DecidableEq, Repr

namespace Session

/-- A new session with all its slots free. -/
def start (number slots : Nat) : Session :=
  { number, slots, free := slots }

/-- Whether the slots of a session set a bound. -/
def isBounded (s : Session) : Bool :=
  0 < s.slots

/-- A poll begins to wait for a message, when there is a slot for it. -/
def poll? (s : Session) : Option Session :=
  if !s.isBounded then some { s with polls := s.polls + 1 }
  else if 0 < s.free then some { s with free := s.free - 1, polls := s.polls + 1 }
  else none

def release (s : Session) : Session :=
  if s.isBounded then { s with free := s.free + 1 } else s

/-- A poll has its message, whose delivery keeps the slot. -/
def deliver (s : Session) : Session :=
  { s with polls := s.polls - 1 }

/-- A poll is given up, and its slot with it. -/
def giveUp (s : Session) : Session :=
  s.deliver.release

/-- A poll that is given up leaves the session as it was. -/
theorem giveUp_of_poll? {s after : Session} (h : s.poll? = some after)
    : after.giveUp = s := by
  by_cases bound : 0 < s.slots <;> simp only [poll?, isBounded, bound] at h
  · by_cases free : 0 < s.free <;> simp [free] at h
    subst h
    simp [giveUp, deliver, release, isBounded, bound, Nat.sub_add_cancel free]
  · simp at h
    subst h
    simp [giveUp, deliver, release, isBounded, bound]

end Session

end Almanac.Broker
