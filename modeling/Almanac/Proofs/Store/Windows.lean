import Almanac.Proofs.Period
import Almanac.Proofs.Query.Sorting
import Almanac.Proofs.Store.Desk
import Almanac.Proofs.Store.Reachable

/-! Lists of windows that follow each other.
A list is what remains of the sorted events of a store, so lists that are joined can be compared
place by place. Joined lists have what the list of the whole span has, but for events that start in
a leap second which is passed over.
-/

namespace Almanac

open Time Query Store

-------------------------------------------------------------------------------
-- The order of lists
-------------------------------------------------------------------------------

/-- The order in which events are listed: by start, then by end, then by identifier. -/
def Event.Earlier (a b : Event) : Prop :=
  a.start < b.start
    ∨ a.start = b.start ∧ (a.finish < b.finish ∨ a.finish = b.finish ∧ a.id < b.id)

theorem Event.Earlier.start_le {a b : Event} (h : a.Earlier b) : a.start ≤ b.start := by
  rcases h with before | ⟨same, -⟩
  · exact before.le
  · exact same.le

namespace Store.Table

variable {t : Table} {e : Event}

/-- The events of a table in the order of lists. -/
def agenda (t : Table) : List Event :=
  sortBy Desk.byStart t.events

theorem mem_agenda_iff : e ∈ t.agenda ↔ e ∈ t.events :=
  (sortBy_perm _ _).mem_iff

theorem rank_byStart (a b : Event)
    : rank Desk.byStart a b
        = (compare a.start b.start).then
            ((compare a.finish b.finish).then (compare a.id b.id)) := by
  have keys : compareBy Desk.byStart a b
      = (compare a.start b.start).then ((compare a.finish b.finish).then .eq) := rfl
  rw [rank_eq, keys, Ordering.then_eq, Ordering.then_assoc]

theorem Stored.ordered_agenda (h : t.Stored) : t.agenda.Pairwise Event.Earlier := by
  have distinct : t.agenda.Pairwise fun a b => a.id ≠ b.id := by
    refine ((sortBy_perm _ _).pairwise_iff fun apart => apart.symm).mpr ?_
    exact h.kept.ordered.imp ne_of_lt
  refine ((pairwise_sortBy Desk.byStart h.kept.ordered).and distinct).imp ?_
  rintro a b ⟨upward, apart⟩
  have strict : rank Desk.byStart a b = .lt := by
    cases order : rank Desk.byStart a b with
    | lt => rfl
    | gt => exact absurd order upward
    | eq =>
        rw [rank_eq, Ordering.then_eq_eq, compare_eq_iff_eq] at order
        exact absurd order.2 apart
  simpa only [Event.Earlier, rank_byStart, Ordering.then_eq_lt, compare_lt_iff_lt,
    compare_eq_iff_eq] using strict

theorem Stored.isWhole_start (h : t.Stored) (present : e ∈ t.agenda) : e.start.IsWhole := by
  have found := h.kept.find?_eq_some_iff.mpr ⟨mem_agenda_iff.mp present, rfl⟩
  exact Instant.isWhole_of_truncate_eq (congrArg Event.start (h.storable found).normal)

end Store.Table

-------------------------------------------------------------------------------
-- Lists that are joined
-------------------------------------------------------------------------------

/-- What is picked out of a list by two conditions is joined in the order of the list, when one
condition is met before the other. -/
theorem filter_append_filter {α : Type} {before : α → α → Prop} {l : List α}
    (ordered : l.Pairwise before) {first second either : α → Bool}
    (apart : ∀ a, first a → ¬second a)
    (inOrder : ∀ a b, before a b → second a → ¬first b)
    (splits : ∀ a ∈ l, (either a ↔ first a ∨ second a))
    : l.filter first ++ l.filter second = l.filter either := by
  induction l with
  | nil => rfl
  | cons a l ih =>
      obtain ⟨head, ordered⟩ := List.pairwise_cons.mp ordered
      obtain ⟨here, splits⟩ := List.forall_mem_cons.mp splits
      have rest := ih ordered splits
      by_cases isFirst : first a
      · have kept : either a := here.mpr (.inl isFirst)
        rw [List.filter_cons_of_pos isFirst, List.filter_cons_of_neg (apart a isFirst),
          List.filter_cons_of_pos kept, List.cons_append, rest]
      · by_cases isSecond : second a
        · have kept : either a := here.mpr (.inr isSecond)
          have none : l.filter first = [] :=
            List.filter_eq_nil_iff.mpr fun b member => inOrder a b (head b member) isSecond
          rw [none, List.nil_append] at rest
          rw [List.filter_cons_of_neg isFirst, List.filter_cons_of_pos isSecond,
            List.filter_cons_of_pos kept, none, List.nil_append, rest]
        · have dropped : ¬either a := fun kept => (here.mp kept).elim isFirst isSecond
          rw [List.filter_cons_of_neg isFirst, List.filter_cons_of_neg isSecond,
            List.filter_cons_of_neg dropped, rest]

namespace Desk

variable {d : Desk} {owner : Uuid} {p : Period} {start w n : Instant} {rest : List Instant}
  {e : Event}

/-- Whether an event starts in a leap second that one of some windows passes over. -/
def missed (rest : List Instant) (e : Event) : Bool :=
  rest.any (·.passesOver e.start)

theorem inWindow_iff {first last : Instant}
    : inWindow owner first last e
      ↔ e.owner = owner ∧ first.truncate ≤ e.start ∧ e.start ≤ last.truncate := by
  simp [inWindow, and_assoc]

theorem missed_iff : missed rest e ↔ ∃ n ∈ rest, n.passesOver e.start := by
  simp [missed]

/-- The events of windows that follow each other, joined, are those of the span that they cover but
for those missed; by induction on the windows, with the first set apart. -/
theorem flatMap_agenda {t : Table} (stored : t.Stored) (follow : p.Successive (w :: rest))
    : (w :: rest).flatMap (fun n => t.agenda.filter (inWindow owner n (p.lastOf n)))
        = t.agenda.filter fun e =>
            inWindow owner w (p.lastOfAll w rest) e && !missed rest e := by
  induction rest generalizing w with
  | nil => simp [Period.lastOfAll, missed]
  | cons n rest ih =>
      obtain ⟨next, later⟩ := List.isChain_cons_cons.mp follow
      have border := Period.truncate_lastOf_lt next
      rw [List.flatMap_cons, ih later]
      refine filter_append_filter stored.ordered_agenda ?_ ?_ ?_
      · intro e first second
        simp only [Bool.and_eq_true, inWindow_iff] at first second
        exact absurd (second.1.2.1.trans first.2.2) (not_le_of_gt border)
      · intro a b earlier second first
        simp only [Bool.and_eq_true, inWindow_iff] at first second
        have upTo := (second.1.2.1.trans earlier.start_le).trans first.2.2
        exact absurd upTo (not_le_of_gt border)
      · intro e member
        have split := follow.split (stored.isWhole_start member)
        simp only [Bool.and_eq_true, Bool.not_eq_true', Bool.eq_false_iff, inWindow_iff, ne_eq,
          missed_iff, not_exists, not_and] at split ⊢
        constructor
        · rintro ⟨⟨mine, inside⟩, kept⟩
          rcases split.mp ⟨inside.1, inside.2, kept⟩ with first | ⟨begun, upTo, kept⟩
          · exact .inl ⟨mine, first⟩
          · exact .inr ⟨⟨mine, begun, upTo⟩, kept⟩
        · rintro (⟨mine, first⟩ | ⟨⟨mine, begun, upTo⟩, kept⟩)
          · obtain ⟨begun, upTo, kept⟩ := split.mpr (.inl first)
            exact ⟨⟨mine, begun, upTo⟩, kept⟩
          · obtain ⟨begun, upTo, kept⟩ := split.mpr (.inr ⟨begun, upTo, kept⟩)
            exact ⟨⟨mine, begun, upTo⟩, kept⟩

-------------------------------------------------------------------------------
-- What lists of windows give
-------------------------------------------------------------------------------

theorem perform?_listBetween_agenda (ordered : d.table.events.Pairwise fun a b => a.id < b.id)
    (owner : Uuid) (first last : Instant)
    : d.perform? (Ownership.listBetween owner first last)
        = some (.ok (d.table.agenda.filter (inWindow owner first last)), d) := by
  rw [perform?_listBetween, sortBy_filter byStart ordered]
  rfl

/-- The lists of windows and the list of the span that they cover, as an owner is given them. -/
structure Listed (d : Desk) (owner : Uuid) (p : Period) (start : Instant) (rest : List Instant)
    (lists : Instant → List Event) (whole : List Event) : Prop where
  each
    : ∀ w ∈ start :: rest,
        d.perform? (Ownership.listFor owner w p) = some (.ok (lists w), d)
  span
    : d.perform? (Ownership.listBetween owner start (p.lastOfAll start rest))
        = some (.ok whole, d)
  /-- The span has the events of the owner that start in it, and no others. -/
  mem_iff
    : ∀ e, e ∈ whole
        ↔ e ∈ d.table.events ∧ e.owner = owner ∧ start.truncate ≤ e.start
          ∧ e.start ≤ (p.lastOfAll start rest).truncate
  /-- They come by start, then by end, then by identifier, so none comes twice. -/
  ordered : whole.Pairwise Event.Earlier

/-- Whether the lists of windows, joined, are the list of the span that they cover. -/
def Tiles (d : Desk) (owner : Uuid) (p : Period) (start : Instant) (rest : List Instant) : Prop :=
  ∃ lists whole, d.Listed owner p start rest lists whole ∧ (start :: rest).flatMap lists = whole

theorem listed_agenda (stored : d.table.Stored) (owner : Uuid) (p : Period) (start : Instant)
    (rest : List Instant)
    : d.Listed owner p start rest
        (fun w => d.table.agenda.filter (inWindow owner w (p.lastOf w)))
        (d.table.agenda.filter (inWindow owner start (p.lastOfAll start rest))) where
  each w _ := perform?_listBetween_agenda stored.kept.ordered owner w (p.lastOf w)
  span := perform?_listBetween_agenda stored.kept.ordered owner start _
  mem_iff e := by rw [List.mem_filter, Table.mem_agenda_iff, inWindow_iff]
  ordered := stored.ordered_agenda.filter _

/-- There is one list for each window and one for the span. -/
theorem Listed.flatMap_eq {lists lists' : Instant → List Event} {whole whole' : List Event}
    (h : d.Listed owner p start rest lists whole) (h' : d.Listed owner p start rest lists' whole')
    : (start :: rest).flatMap lists = (start :: rest).flatMap lists' ∧ whole = whole' := by
  constructor
  · refine List.flatMap_congr fun w member => ?_
    simpa using (h.each w member).symm.trans (h'.each w member)
  · simpa using h.span.symm.trans h'.span

theorem joined_agenda (stored : d.table.Stored) (owner : Uuid)
    (follow : p.Successive (start :: rest))
    : (start :: rest).flatMap (fun w => d.table.agenda.filter (inWindow owner w (p.lastOf w)))
        = (d.table.agenda.filter (inWindow owner start (p.lastOfAll start rest))).filter
            fun e => !missed rest e := by
  rw [flatMap_agenda stored follow, List.filter_filter]
  exact List.filter_congr fun e _ => Bool.and_comm _ _

/-- Windows that tile miss none of the owner's events. -/
theorem Tiles.not_missed (h : d.Tiles owner p start rest) (stored : d.table.Stored)
    (follow : p.Successive (start :: rest)) (present : e ∈ d.table.events)
    (mine : e.owner = owner)
    : ¬missed rest e := by
  intro isMissed
  obtain ⟨lists, whole, listed, joined⟩ := h
  obtain ⟨flat, rfl⟩ := listed.flatMap_eq (listed_agenda stored owner p start rest)
  rw [flat, joined_agenda stored owner follow] at joined
  obtain ⟨n, member, passes⟩ := missed_iff.mp isMissed
  obtain ⟨begun, upTo⟩ := follow.covers_of_passesOver member passes
  have inSpan := (listed.mem_iff e).mpr ⟨present, mine, begun, upTo⟩
  rw [← joined] at inSpan
  simp [isMissed] at inSpan

/-- The lists of successive windows, joined, leave out what starts in a leap second that is passed
over, and no more. They are the list of their span exactly when the owner has no such event. -/
theorem tiles_iff (reachable : d.table.Reachable) (owner : Uuid)
    (follow : p.Successive (start :: rest))
    : (∃ lists whole, d.Listed owner p start rest lists whole
          ∧ (start :: rest).flatMap lists = whole.filter fun e => !missed rest e)
        ∧ (d.Tiles owner p start rest
            ↔ ∀ e ∈ d.table.events, e.owner = owner → ¬missed rest e) := by
  have stored := reachable.stored
  have listed := listed_agenda stored owner p start rest
  have joined := joined_agenda stored owner follow
  refine ⟨⟨_, _, listed, joined⟩, ?_⟩
  constructor
  · intro tiles e present mine
    exact tiles.not_missed stored follow present mine
  · intro none
    refine ⟨_, _, listed, joined.trans (List.filter_eq_self.mpr fun e member => ?_)⟩
    obtain ⟨present, mine, -⟩ := (listed.mem_iff e).mp member
    simpa using none e present mine

/-- The first instant of 2017, which a leap second precedes. -/
def newYear : Instant :=
  .ofParts 1483228800 0 (by omega)

/-- The start of the day before. -/
def newYearsEve : Instant :=
  .ofParts 1483142400 0 (by omega)

/-- Half of the leap second at the end of 2016. -/
def leapSecond : Instant :=
  .ofParts 1483228799 1500000000 (by omega)

/-- A store with an event at an instant. -/
def meetingAt (moment : Instant) : Table :=
  Table.empty.after
    [(⟨1⟩, .add { Bureau.meeting with owner := ⟨1⟩, start := moment, finish := moment })]

theorem successive_newYear : Period.day.Successive [newYearsEve, newYear] :=
  .cons_cons (by decide) (.singleton _)

theorem tiles_iff_midnight
    : (meetingAt newYear).Reachable ∧ Period.day.Successive [newYearsEve, newYear]
      ∧ (Tiles ⟨meetingAt newYear, []⟩ ⟨1⟩ .day newYearsEve [newYear]
        ↔ ∀ e ∈ (meetingAt newYear).events, e.owner = ⟨1⟩ → ¬missed [newYear] e) := by
  have reachable : (meetingAt newYear).Reachable := ⟨_, rfl⟩
  exact ⟨reachable, successive_newYear,
    (tiles_iff (d := ⟨meetingAt newYear, []⟩) reachable ⟨1⟩ successive_newYear).2⟩

/-- The day that ends in a leap second does not list what starts in it, and neither does the next
day. -/
theorem not_tiles_leapSecond
    : (meetingAt leapSecond).Reachable ∧ Period.day.Successive [newYearsEve, newYear]
      ∧ ¬Tiles ⟨meetingAt leapSecond, []⟩ ⟨1⟩ .day newYearsEve [newYear] := by
  have reachable : (meetingAt leapSecond).Reachable := ⟨_, rfl⟩
  refine ⟨reachable, successive_newYear, fun tiles => ?_⟩
  have present : { Bureau.meeting with
      id := ⟨1⟩, owner := ⟨1⟩, start := leapSecond, finish := leapSecond }
      ∈ (meetingAt leapSecond).events := by decide
  exact tiles.not_missed reachable.stored successive_newYear present rfl (by decide)

end Desk

end Almanac
