import Almanac.Broker.Queue
import Mathlib.Data.List.Nodup
import Mathlib.Data.List.Perm.Basic
import Mathlib.Data.List.Range

/-! The accounts of one queue: what happened to each copy pushed on it, under which tags.
A queue changes by moves, each of them atomic, and every move writes down what it did. The
accounts balance after any moves: each copy is in one place, and each tag is closed once.
-/

namespace Almanac.Broker

-------------------------------------------------------------------------------
-- Moves and what they do
-------------------------------------------------------------------------------

/-- A copy of a published message: what stays the same of it however often it is delivered. -/
structure Copy where
  number : Nat
  body : List UInt8
  deriving DecidableEq, Repr

/-- The copy that a message on a queue is. -/
def Message.copy (m : Message) : Copy :=
  ⟨m.number, m.body⟩

@[simp]
theorem Message.copy_again (m : Message) : m.again.copy = m.copy := rfl

def Pending.copy (p : Pending) : Copy :=
  p.message.copy

@[simp]
theorem Pending.copy_message (p : Pending) : p.message.copy = p.copy := rfl

/-- What happens to a copy on its queue. -/
inductive Happening where
  | enqueued (copy : Copy)
  | delivered (copy : Copy) (tag : Nat)
  | acknowledged (copy : Copy) (tag : Nat)
  /-- It was refused and not returned. -/
  | dropped (copy : Copy) (tag : Nat)
  | returned (copy : Copy) (tag : Nat)
  /-- It was removed while it was ready. -/
  | purged (copy : Copy)
  deriving DecidableEq, Repr

namespace Happening

/-- The copy that comes to the queue. -/
def arrival? : Happening → Option Copy
  | .enqueued copy => some copy
  | _ => none

/-- The copy that leaves the queue for good. -/
def exit? : Happening → Option Copy
  | .acknowledged copy _ | .dropped copy _ | .purged copy => some copy
  | _ => none

def opening? : Happening → Option Nat
  | .delivered _ tag => some tag
  | _ => none

def closing? : Happening → Option Nat
  | .acknowledged _ tag | .dropped _ tag | .returned _ tag => some tag
  | _ => none

end Happening

/-- What can be done to a queue at once. -/
inductive Move where
  | push (body : List UInt8)
  | take (consumer session : Nat)
  | acknowledge (tag : Nat)
  | refuse (tag : Nat) (requeue : Bool)
  | returnAll (consumer : Nat)
  | purge
  deriving DecidableEq, Repr

namespace Queue

/-- The queue after a settlement, which changes nothing when it fails. -/
def settled (q : Queue) (tag : Nat) (requeue : Bool) : Queue :=
  match q.settle tag requeue with
  | .ok (_, after) => after
  | .error _ => q

def after (q : Queue) : Move → Queue
  | .push body => q.push body
  | .take consumer session => ((q.take? consumer session).map Prod.snd).getD q
  | .acknowledge tag => q.settled tag false
  | .refuse tag requeue => q.settled tag requeue
  | .returnAll consumer => q.returnAll consumer
  | .purge => q.purge

/-- What a move does to the copies on a queue. -/
def happenings (q : Queue) : Move → List Happening
  | .push body => [.enqueued ⟨q.published + 1, body⟩]
  | .take _ _ => (q.ready.head?.map fun m => .delivered m.copy (q.lastTag + 1)).toList
  | .acknowledge tag => ((q.pending? tag).map fun p => .acknowledged p.copy tag).toList
  | .refuse tag true => ((q.pending? tag).map fun p => .returned p.copy tag).toList
  | .refuse tag false => ((q.pending? tag).map fun p => .dropped p.copy tag).toList
  | .returnAll consumer => (q.heldBy consumer).map fun p => .returned p.copy p.tag
  | .purge => q.ready.map fun m => .purged m.copy

/-- The copies that a move makes go. -/
def exits (q : Queue) : Move → List Copy
  | .acknowledge tag | .refuse tag false => ((q.pending? tag).map Pending.copy).toList
  | .purge => q.ready.map Message.copy
  | .push _ | .take _ _ | .refuse _ true | .returnAll _ => []

/-- The copies that a move makes go are those that it writes down as gone. -/
@[simp]
theorem exits_eq (q : Queue) (move : Move)
    : (q.happenings move).filterMap Happening.exit? = q.exits move := by
  cases move with
  | push body => rfl
  | take consumer session => cases first : q.ready.head? <;> simp [happenings, exits, first,
      Happening.exit?]
  | acknowledge tag => cases found : q.pending? tag <;> simp [happenings, exits, found,
      Happening.exit?]
  | refuse tag requeue =>
      cases requeue <;> cases found : q.pending? tag <;> simp [happenings, exits, found,
        Happening.exit?]
  | returnAll consumer => simp [happenings, exits, Happening.exit?, Function.comp_def]
  | purge => simp [happenings, exits, Happening.exit?, Function.comp_def]

def afterAll (q : Queue) (moves : List Move) : Queue :=
  moves.foldl after q

/-- What moves do to the copies on a queue, one after the other. -/
def log (q : Queue) : List Move → List Happening
  | [] => []
  | move :: moves => q.happenings move ++ (q.after move).log moves

@[simp]
theorem afterAll_nil (q : Queue) : q.afterAll [] = q := rfl

@[simp]
theorem afterAll_singleton (q : Queue) (move : Move) : q.afterAll [move] = q.after move := rfl

@[simp]
theorem log_nil (q : Queue) : q.log [] = [] := rfl

@[simp]
theorem log_singleton (q : Queue) (move : Move) : q.log [move] = q.happenings move :=
  List.append_nil _

/-- What leaves through a move that may not be made leaves only if it is. -/
theorem mem_exits_ite {q : Queue} {move : Move} {copy : Copy} {p : Prop} [Decidable p]
    : copy ∈ (q.log (if p then [move] else [])).filterMap Happening.exit?
      ↔ p ∧ copy ∈ q.exits move := by
  by_cases made : p <;> simp [made, exits_eq]

/-- Everything logged comes of one of the moves, made on some queue; by induction on the moves. -/
theorem exists_of_mem_log {q : Queue} {moves : List Move} {happening : Happening}
    (logged : happening ∈ q.log moves)
    : ∃ move ∈ moves, ∃ before : Queue, happening ∈ before.happenings move := by
  induction moves generalizing q with
  | nil => cases logged
  | cons move moves ih =>
      rcases List.mem_append.mp logged with now | later
      · exact ⟨move, List.mem_cons_self, q, now⟩
      · obtain ⟨other, member, before, done⟩ := ih later
        exact ⟨other, List.mem_cons_of_mem _ member, before, done⟩

/-- An acknowledgement in the log stems from a move that acknowledges its tag. -/
theorem acknowledge_of_mem_log {q : Queue} {moves : List Move} {copy : Copy} {tag : Nat}
    (logged : .acknowledged copy tag ∈ q.log moves)
    : .acknowledge tag ∈ moves := by
  obtain ⟨move, member, before, done⟩ := exists_of_mem_log logged
  cases move with
  | acknowledge other =>
      obtain ⟨p, -, eq⟩ : ∃ p, before.pending? other = some p ∧ p.copy = copy ∧ other = tag := by
        simpa [happenings] using done
      exact eq.2 ▸ member
  | refuse other requeue => cases requeue <;> simp [happenings] at done
  | _ => simp [happenings] at done

/-- Nothing leaves a queue that is only pushed onto. -/
theorem exits_of_pushes {q : Queue} {moves : List Move}
    (pushes : ∀ move ∈ moves, ∃ body, move = .push body)
    : (q.log moves).filterMap Happening.exit? = [] := by
  apply List.filterMap_eq_nil_iff.mpr
  intro happening logged
  obtain ⟨move, member, before, done⟩ := exists_of_mem_log logged
  obtain ⟨body, rfl⟩ := pushes move member
  rw [List.mem_singleton.mp done]
  rfl

-------------------------------------------------------------------------------
-- Balanced accounts
-------------------------------------------------------------------------------

/-- The accounts of a queue balance with what was written down. Copies are numbered as they come,
and each of them is ready, pending or gone, as often as it came. Tags are handed out in increasing
order, and each of them is pending or closed, as often as it was handed out. -/
structure Accounted (q : Queue) (log : List Happening) : Prop where
  numbered : (log.filterMap Happening.arrival?).map Copy.number = List.range' 1 q.published
  conserved
    : (q.ready.map Message.copy ++ q.pending.map Pending.copy
        ++ log.filterMap Happening.exit?).Perm (log.filterMap Happening.arrival?)
  increasing : log.filterMap Happening.opening? = List.range' 1 q.lastTag
  closedOnce
    : (q.pending.map Pending.tag ++ log.filterMap Happening.closing?).Perm
        (log.filterMap Happening.opening?)
  delivered : ∀ p ∈ q.pending, .delivered p.copy p.tag ∈ log

variable {q : Queue} {log : List Happening}

/-- The empty queue accounts for the empty log. -/
theorem Accounted.start : Accounted {} [] := by
  constructor <;> simp

/-- No two pending deliveries share a tag, since tags are handed out once. -/
theorem Accounted.nodup_tags (h : q.Accounted log) : (q.pending.map Pending.tag).Nodup := by
  have issued : (log.filterMap Happening.opening?).Nodup := h.increasing ▸ List.nodup_range'
  exact (List.nodup_append.mp (h.closedOnce.nodup_iff.mpr issued)).1

/-- The pending tags are those that were handed out and not closed. -/
theorem Accounted.mem_tags_iff (h : q.Accounted log) {tag : Nat}
    : tag ∈ q.pending.map Pending.tag
      ↔ tag ∈ log.filterMap Happening.opening? ∧ tag ∉ log.filterMap Happening.closing? := by
  have issued : (log.filterMap Happening.opening?).Nodup := h.increasing ▸ List.nodup_range'
  have once := List.nodup_iff_count_le_one.mp issued tag
  have balance := List.perm_iff_count.mp h.closedOnce tag
  simp only [List.count_append] at balance
  rw [← List.count_pos_iff, ← List.count_pos_iff, ← List.count_eq_zero]
  omega

/-- No tag beyond the last one was issued, since the tags of the log are a range up to it. -/
theorem Accounted.le_of_opening (h : q.Accounted log) {tag : Nat}
    (issued : tag ∈ log.filterMap Happening.opening?)
    : tag ≤ q.lastTag := by
  rw [h.increasing, List.mem_range'_1] at issued
  omega

/-- What was closed had been opened. -/
theorem Accounted.opening_of_closing (h : q.Accounted log) {tag : Nat}
    (closed : tag ∈ log.filterMap Happening.closing?)
    : tag ∈ log.filterMap Happening.opening? :=
  h.closedOnce.subset (List.mem_append_right _ closed)

/-- A tag is handed out for one copy, since it is handed out once. -/
theorem Accounted.delivered_unique (h : q.Accounted log) {copy other : Copy} {tag : Nat}
    (delivered : .delivered copy tag ∈ log) (again : .delivered other tag ∈ log)
    : copy = other := by
  have issued : (log.filterMap Happening.opening?).Nodup := h.increasing ▸ List.nodup_range'
  have same : log.Pairwise fun a b =>
      a.opening? = some tag → b.opening? = some tag → a = b := by
    refine (List.pairwise_filterMap.mp issued).imp fun apart opens reopens => ?_
    exact absurd rfl (apart tag opens tag reopens)
  have : Std.Symm fun a b : Happening =>
      a.opening? = some tag → b.opening? = some tag → a = b :=
    ⟨fun _ _ same reopens opens => (same opens reopens).symm⟩
  cases same.forall_of_forall (fun _ _ _ _ => rfl) delivered again rfl rfl
  rfl

/-- A tag is not found exactly if no entry carries it. -/
theorem pending?_eq_none_iff {tag : Nat}
    : q.pending? tag = none ↔ tag ∉ q.pending.map Pending.tag := by
  simp [pending?]

/-- A delivery found by its tag is the only one of that tag.
Witness: tags are distinct, so the filter removes this delivery alone. -/
theorem Accounted.perm_remove (h : q.Accounted log) {tag : Nat} {p : Pending}
    (found : q.pending? tag = some p)
    : q.pending.Perm (p :: (q.remove tag).pending) := by
  have distinct := h.nodup_tags
  simp only [pending?, remove] at found ⊢
  generalize q.pending = pending at found distinct
  induction pending with
  | nil => simp at found
  | cons head rest ih =>
      obtain ⟨fresh, distinct⟩ := List.nodup_cons.mp distinct
      by_cases same : head.tag = tag
      · have eq : head = p := by simpa [same] using found
        subst eq
        have others : rest.filter (fun other => decide (other.tag ≠ tag)) = rest := by
          apply List.filter_eq_self.mpr
          intro other member
          have differs : other.tag ≠ tag := by
            intro clash
            exact fresh (same ▸ clash ▸ List.mem_map_of_mem member)
          simpa using differs
        simp only [same, ne_eq, not_true_eq_false, decide_false, List.filter_cons_of_neg,
          Bool.false_eq_true, not_false_eq_true, others]
        exact .refl _
      · have found : rest.find? (fun other => decide (other.tag = tag)) = some p := by
          simpa [same] using found
        have rest := ih found distinct
        simp only [same, ne_eq, not_false_eq_true, decide_true, List.filter_cons_of_pos]
        exact (rest.cons head).trans (.swap p head _)

@[simp]
theorem ready_remove (q : Queue) (tag : Nat) : (q.remove tag).ready = q.ready := rfl

@[simp]
theorem published_remove (q : Queue) (tag : Nat) : (q.remove tag).published = q.published := rfl

@[simp]
theorem lastTag_remove (q : Queue) (tag : Nat) : (q.remove tag).lastTag = q.lastTag := rfl

@[simp]
theorem pending_putBack (q : Queue) (messages : List Message)
    : (q.putBack messages).pending = q.pending := rfl

@[simp]
theorem published_putBack (q : Queue) (messages : List Message)
    : (q.putBack messages).published = q.published := rfl

@[simp]
theorem lastTag_putBack (q : Queue) (messages : List Message)
    : (q.putBack messages).lastTag = q.lastTag := rfl

/-- Settling a tag that is not pending changes nothing. -/
theorem settled_of_pending?_eq_none {tag : Nat} (requeue : Bool) (absent : q.pending? tag = none)
    : q.settled tag requeue = q := by
  simp [settled, settle, absent]

/-- Settling a pending delivery removes it and, when asked to, returns its message. -/
theorem settled_of_pending? {tag : Nat} {p : Pending} (requeue : Bool)
    (found : q.pending? tag = some p)
    : q.settled tag requeue
      = if requeue then (q.remove tag).putBack [p.message] else q.remove tag := by
  simp [settled, settle, found]

-------------------------------------------------------------------------------
-- Every move keeps the accounts balanced
-------------------------------------------------------------------------------

/-- A pushed copy is ready under the next number. -/
theorem Accounted.push (h : q.Accounted log) (body : List UInt8)
    : (q.push body).Accounted (log ++ [.enqueued ⟨q.published + 1, body⟩]) where
  numbered := by
    simp [Queue.push, Happening.arrival?, h.numbered, List.range'_concat,
      Nat.add_comm]
  conserved := by
    apply List.perm_iff_count.mpr
    intro copy
    have before := List.perm_iff_count.mp h.conserved copy
    simp only [List.count_append] at before
    simp only [Queue.push, Message.copy, Happening.arrival?, Happening.exit?, List.map_append,
      List.map_cons, List.map_nil, List.filterMap_append, List.filterMap_cons,
      List.filterMap_nil, List.count_append, List.append_nil]
    omega
  increasing := by
    simpa [Queue.push, Happening.opening?, List.filterMap_cons] using h.increasing
  closedOnce := by
    simpa [Queue.push, Happening.opening?, Happening.closing?, List.filterMap_cons]
      using h.closedOnce
  delivered := fun p member => List.mem_append_left _ (h.delivered p member)

/-- The first ready copy becomes pending under the next tag. -/
theorem Accounted.take (h : q.Accounted log) {m : Message} {ready : List Message}
    (first : q.ready = m :: ready) (consumer session : Nat)
    : Accounted
        { q with
          ready
          pending := q.pending ++ [⟨q.lastTag + 1, m, consumer, session⟩]
          lastTag := q.lastTag + 1 }
        (log ++ [.delivered m.copy (q.lastTag + 1)]) where
  numbered := by
    simpa [Happening.arrival?, List.filterMap_cons] using h.numbered
  conserved := by
    apply List.perm_iff_count.mpr
    intro copy
    have before := List.perm_iff_count.mp h.conserved copy
    simp only [first, List.map_cons, List.count_append, List.count_cons] at before
    simp only [Pending.copy, Happening.arrival?, Happening.exit?, List.map_append,
      List.map_cons, List.map_nil, List.filterMap_append, List.filterMap_cons,
      List.filterMap_nil, List.count_append, List.append_nil, List.count_cons, List.count_nil]
    omega
  increasing := by
    simp [Happening.opening?, h.increasing, List.range'_concat,
      Nat.add_comm]
  closedOnce := by
    apply List.perm_iff_count.mpr
    intro tag
    have before := List.perm_iff_count.mp h.closedOnce tag
    simp only [List.count_append] at before
    simp only [Happening.opening?, Happening.closing?, List.map_append, List.map_cons,
      List.map_nil, List.filterMap_append, List.filterMap_cons, List.filterMap_nil,
      List.count_append, List.append_nil]
    omega
  delivered := by
    intro p member
    rcases List.mem_append.mp member with earlier | new
    · exact List.mem_append_left _ (h.delivered p earlier)
    · rw [List.mem_singleton.mp new]
      exact List.mem_append_right _ (List.mem_singleton.mpr rfl)

/-- A tag that is settled is closed once and for all. -/
theorem Accounted.closedOnce_remove (h : q.Accounted log) {tag : Nat} {p : Pending}
    (found : q.pending? tag = some p) {happening : Happening}
    (opening : happening.opening? = none) (closing : happening.closing? = some tag)
    : (((q.remove tag).pending.map Pending.tag)
        ++ (log ++ [happening]).filterMap Happening.closing?).Perm
          ((log ++ [happening]).filterMap Happening.opening?) := by
  have tagged : p.tag = tag := by simpa using List.find?_some found
  apply List.perm_iff_count.mpr
  intro other
  have before := List.perm_iff_count.mp h.closedOnce other
  have split := ((h.perm_remove found).map Pending.tag).count_eq other
  simp only [List.count_append, List.map_cons, List.count_cons, tagged] at before split
  simp only [closing, opening, List.filterMap_append, List.filterMap_cons, List.filterMap_nil,
    List.count_append, List.append_nil, List.count_cons, List.count_nil]
  omega

/-- A settled delivery closes its tag, and its copy is gone or ready again. `happening` is any of
the three ways to settle, as long as it says what became of the copy. -/
theorem Accounted.settled (h : q.Accounted log) {tag : Nat} {p : Pending}
    (found : q.pending? tag = some p) (requeue : Bool) {happening : Happening}
    (arrival : happening.arrival? = none) (opening : happening.opening? = none)
    (closing : happening.closing? = some tag)
    (exit : happening.exit? = if requeue then none else some p.copy)
    : (q.settled tag requeue).Accounted (log ++ [happening]) := by
  have others := h.perm_remove found
  have closes := h.closedOnce_remove found opening closing
  have kept : ∀ other ∈ (q.remove tag).pending,
      .delivered other.copy other.tag ∈ log ++ [happening] := fun other member =>
    List.mem_append_left _ (h.delivered other (List.mem_of_mem_filter member))
  -- The delivery leaves the middle of what is pending while the log grows at its end, so copies
  -- are counted.
  have split (copy : Copy) := (others.map Pending.copy).count_eq copy
  have balance (copy : Copy) := List.perm_iff_count.mp h.conserved copy
  simp only [List.count_append, List.map_cons, List.count_cons] at balance split
  rw [settled_of_pending? requeue found]
  cases requeue with
  | false =>
      refine ⟨?_, List.perm_iff_count.mpr fun copy => ?_, ?_, closes, kept⟩
      · simpa [arrival, List.filterMap_cons] using h.numbered
      · have balance := balance copy
        have split := split copy
        simp only [Bool.false_eq_true, if_false, ready_remove, exit, arrival,
          List.filterMap_append, List.filterMap_cons, List.filterMap_nil, List.count_append,
          List.append_nil, List.count_cons, List.count_nil]
        omega
      · simpa [opening, List.filterMap_cons] using h.increasing
  | true =>
      refine ⟨?_, List.perm_iff_count.mpr fun copy => ?_, ?_, closes, kept⟩
      · simpa [arrival, List.filterMap_cons] using h.numbered
      · have balance := balance copy
        have split := split copy
        simp only [if_true, putBack, ready_remove, exit, arrival, Message.copy_again,
          Pending.copy_message, List.filterMap_append, List.filterMap_cons, List.filterMap_nil,
          List.count_append, List.append_nil, List.map_append, List.map_cons, List.map_nil,
          List.count_cons, List.count_nil]
        omega
      · simpa [opening, List.filterMap_cons] using h.increasing

/-- What a consumer holds and what the others hold is all that is pending. -/
theorem perm_heldBy (q : Queue) (consumer : Nat)
    : q.pending.Perm (q.heldBy consumer ++ (q.returnAll consumer).pending) := by
  have split :=
    List.filter_append_perm (fun p : Pending => decide (p.consumer = consumer)) q.pending
  simpa [heldBy, returnAll, putBack] using split.symm

/-- All that a consumer holds is ready again, and its tags are closed. -/
theorem Accounted.returnAll (h : q.Accounted log) (consumer : Nat)
    : (q.returnAll consumer).Accounted
        (log ++ (q.heldBy consumer).map fun p => .returned p.copy p.tag) := by
  have split := q.perm_heldBy consumer
  have ready : (q.returnAll consumer).ready.map Message.copy
      = (q.heldBy consumer).map Pending.copy ++ q.ready.map Message.copy := by
    simp [Queue.returnAll, putBack, Function.comp_def]
  refine ⟨?_, List.perm_iff_count.mpr fun copy => ?_, ?_,
    List.perm_iff_count.mpr fun tag => ?_, ?_⟩
  · simpa [Queue.returnAll, Happening.arrival?, Function.comp_def] using h.numbered
  · have balance := List.perm_iff_count.mp h.conserved copy
    have split := (split.map Pending.copy).count_eq copy
    simp only [List.map_append, List.count_append] at balance split
    simp only [ready, List.filterMap_append, List.filterMap_map, Function.comp_def,
      Happening.arrival?, Happening.exit?, List.filterMap_none, List.append_nil,
      List.count_append]
    omega
  · simpa [Queue.returnAll, Happening.opening?, Function.comp_def] using h.increasing
  · have balance := List.perm_iff_count.mp h.closedOnce tag
    have split := (split.map Pending.tag).count_eq tag
    simp only [List.map_append, List.count_append] at balance split
    simp only [List.filterMap_append, List.filterMap_map, Function.comp_def,
      Happening.opening?, Happening.closing?, List.filterMap_none, List.append_nil,
      List.filterMap_eq_map', List.count_append]
    omega
  · intro p member
    have earlier : p ∈ q.pending := split.mem_iff.mpr (List.mem_append_right _ member)
    exact List.mem_append_left _ (h.delivered p earlier)

/-- A purge accounts for all that was ready as purged; what is pending stays. -/
theorem Accounted.purge (h : q.Accounted log)
    : q.purge.Accounted (log ++ q.ready.map fun m => .purged m.copy) := by
  refine ⟨?_, List.perm_iff_count.mpr fun copy => ?_, ?_, ?_, ?_⟩
  · simpa [Queue.purge, Happening.arrival?, Function.comp_def] using h.numbered
  · have balance := List.perm_iff_count.mp h.conserved copy
    simp only [List.count_append] at balance
    simp only [Queue.purge, List.map_nil, List.nil_append, List.filterMap_append,
      List.filterMap_map, Function.comp_def, Happening.arrival?, Happening.exit?,
      List.filterMap_none, List.append_nil, List.filterMap_eq_map', List.count_append]
    omega
  · simpa [Queue.purge, Happening.opening?, Function.comp_def] using h.increasing
  · simpa [Queue.purge, Happening.opening?, Happening.closing?, Function.comp_def]
      using h.closedOnce
  · exact fun p member => List.mem_append_left _ (h.delivered p member)

/-- One move keeps a queue accounted for, with what it makes happen added to the log; one case per
move. -/
theorem Accounted.after (h : q.Accounted log) (move : Move)
    : (q.after move).Accounted (log ++ q.happenings move) := by
  cases move with
  | push body => exact h.push body
  | take consumer session =>
      cases first : q.ready with
      | nil => simpa [Queue.after, happenings, take?, first] using h
      | cons m ready =>
          simpa [Queue.after, happenings, take?, first] using h.take first consumer session
  | acknowledge tag =>
      cases found : q.pending? tag with
      | none =>
          simpa [Queue.after, happenings, found, settled_of_pending?_eq_none false found] using h
      | some p =>
          simpa [Queue.after, happenings, found] using h.settled found false rfl rfl rfl rfl
  | refuse tag requeue =>
      cases found : q.pending? tag with
      | none =>
          cases requeue <;>
            simpa [Queue.after, happenings, found, settled_of_pending?_eq_none _ found] using h
      | some p =>
          cases requeue with
          | false =>
              simpa [Queue.after, happenings, found] using h.settled found false rfl rfl rfl rfl
          | true =>
              simpa [Queue.after, happenings, found] using h.settled found true rfl rfl rfl rfl
  | returnAll consumer => exact h.returnAll consumer
  | purge => exact h.purge

/-- Accounts that balance before moves balance after them, by induction on the moves. -/
theorem Accounted.afterAll (h : q.Accounted log) (moves : List Move)
    : (q.afterAll moves).Accounted (log ++ q.log moves) := by
  induction moves generalizing q log with
  | nil => simpa [Queue.afterAll, Queue.log] using h
  | cons move moves ih => simpa [Queue.afterAll, Queue.log] using ih (h.after move)

-------------------------------------------------------------------------------
-- What balanced accounts say of one copy
-------------------------------------------------------------------------------

/-- A copy is on a queue while it is ready or pending there. -/
def Has (q : Queue) (copy : Copy) : Prop :=
  copy ∈ q.ready.map Message.copy ∨ copy ∈ q.pending.map Pending.copy

/-- No copy comes twice, since copies are numbered as they come. -/
theorem Accounted.nodup_arrivals (h : q.Accounted log)
    : (log.filterMap Happening.arrival?).Nodup :=
  List.Nodup.of_map Copy.number (h.numbered ▸ List.nodup_range')

/-- Each copy that came is in one place, once. -/
theorem Accounted.count_places (h : q.Accounted log) {copy : Copy}
    (arrived : copy ∈ log.filterMap Happening.arrival?)
    : (q.ready.map Message.copy).count copy + (q.pending.map Pending.copy).count copy
        + (log.filterMap Happening.exit?).count copy = 1 := by
  have once := h.nodup_arrivals.count (a := copy)
  have balance := List.perm_iff_count.mp h.conserved copy
  simp only [arrived, if_true] at once
  simp only [List.count_append] at balance
  omega

/-- Whatever a queue holds has arrived there. -/
theorem Accounted.arrival_of_has (h : q.Accounted log) {copy : Copy} (here : q.Has copy)
    : copy ∈ log.filterMap Happening.arrival? :=
  h.conserved.subset (List.mem_append_left _ (List.mem_append.mpr here))

/-- A copy that came is on its queue as long as nothing made it go. -/
theorem Accounted.has_iff (h : q.Accounted log) {copy : Copy}
    (arrived : copy ∈ log.filterMap Happening.arrival?)
    : q.Has copy ↔ copy ∉ log.filterMap Happening.exit? := by
  have places := h.count_places arrived
  rw [Has, ← List.count_pos_iff, ← List.count_pos_iff, ← List.count_eq_zero]
  omega

/-- A copy on the queue leaves it by moves just when one of them makes it go. -/
theorem Accounted.leaves_iff (h : q.Accounted log) (moves : List Move) {copy : Copy}
    (here : q.Has copy)
    : ¬(q.afterAll moves).Has copy ↔ copy ∈ (q.log moves).filterMap Happening.exit? := by
  have arrived := h.arrival_of_has here
  have stayed := (h.has_iff arrived).mp here
  have known : copy ∈ (log ++ q.log moves).filterMap Happening.arrival? := by
    rw [List.filterMap_append]
    exact List.mem_append_left _ arrived
  have later := (h.afterAll moves).has_iff known
  rw [later, not_not, List.filterMap_append, List.mem_append]
  exact or_iff_right stayed

end Queue

end Almanac.Broker
