import Almanac.Dispatch.Scheduler
import Almanac.Proofs.Store.Bureau
import Almanac.Proofs.Store.Deletion
import Almanac.Proofs.Time.Nanoseconds

/-! Sweeps, which remove what ended too long ago.
The cutoff of a sweep lies as far back as events are kept, on the timeline of the present. Cutoffs
follow the present as long as its nanoseconds do, which go back only where a leap second ends.
-/

namespace Almanac.Dispatch

open Time Query Store

variable {s : Settings} {now later c c' : Instant}

-------------------------------------------------------------------------------
-- Cutoffs
-------------------------------------------------------------------------------

/-- Whether an instant lies as long before the present as events are kept. -/
structure Settings.IsCutoff (s : Settings) (now c : Instant) : Prop where
  counts : now.Counts c
  back : now.count c = now.toNanos - s.retention.nanos

namespace Settings

theorem span?_eq_some_iff {d : Delay} {span : Span}
    : d.span? = some span ↔ span.nanos = d.nanos := by
  have bounds := span.bounded
  simp only [Delay.span?, Span.ofNanos?]
  split
  · rw [Option.some_inj]
    exact ⟨fun same => same ▸ rfl, fun same => Span.nanos_injective same.symm⟩
  · simp only [reduceCtorEq, false_iff]
    omega

/-- The cutoff of a sweep lies back by the retention, if any instant does. A retention that is too
long for a span is longer than all instants together. -/
theorem cutoff?_eq_some_iff : s.cutoff? now = some c ↔ s.IsCutoff now c := by
  simp only [cutoff?, Option.bind_eq_some_iff, span?_eq_some_iff, Instant.sub?,
    Instant.shift?_eq_some_iff]
  constructor
  · rintro ⟨span, same, counts, sum⟩
    exact ⟨counts, by omega⟩
  · rintro ⟨counts, back⟩
    have least := now.le_count c
    have most := now.count_lt now
    rw [now.count_self] at most
    exact ⟨⟨s.retention.nanos, by omega⟩, rfl, counts, back⟩

/-- No cutoff is computed exactly if no instant is one. -/
theorem cutoff?_eq_none_iff : s.cutoff? now = none ↔ ∀ c, ¬s.IsCutoff now c := by
  simp only [Option.eq_none_iff_forall_ne_some, ne_eq, cutoff?_eq_some_iff]

/-- Going back, a leap second counts only inside it, so the nanoseconds are those of a plain
count. -/
theorem IsCutoff.toNanos_eq (h : s.IsCutoff now c)
    : c.second ≤ now.second ∧ c.toNanos = now.toNanos - s.retention.nanos := by
  obtain ⟨counts, back⟩ := h
  have range := now.nano_range
  have range' := c.nano_range
  simp only [Instant.Counts, Instant.IsLeap] at counts
  simp only [Instant.count, Instant.plainCount, Instant.toNanos] at back ⊢
  split at back <;> omega

/-- A later present has a later cutoff, unless its nanoseconds went back on leaving a leap
second. -/
theorem IsCutoff.mono (h : s.IsCutoff now c) (h' : s.IsCutoff later c') (le : now ≤ later)
    (nanos : now.toNanos ≤ later.toNanos)
    : c ≤ c' := by
  have range := c.nano_range
  have range' := c'.nano_range
  obtain ⟨before, sum⟩ := h.toNanos_eq
  obtain ⟨before', sum'⟩ := h'.toNanos_eq
  -- Nanoseconds could mislead about a cutoff in a leap second alone, and that has the second of the
  -- present, which the other one does not pass.
  have counts' := h'.counts
  simp only [Instant.Counts, Instant.IsLeap] at counts'
  rw [Instant.le_iff] at le ⊢
  simp only [Instant.toNanos] at sum sum' nanos
  omega

/-- If there is a cutoff now, there is one later on, as only one before the earliest instant is out of
range. -/
theorem IsCutoff.exists_later (h : s.IsCutoff now c) (nanos : now.toNanos ≤ later.toNanos)
    : ∃ c', s.IsCutoff later c' := by
  have least := now.le_count c
  have back := h.back
  obtain ⟨c', reached⟩ : ∃ c', later.shift? (-s.retention.nanos) = some c' :=
    Instant.exists_shift?_of_nonpos (by omega) (by omega)
  obtain ⟨counts, sum⟩ := Instant.of_shift? reached
  exact ⟨c', counts, sum⟩

end Settings

-------------------------------------------------------------------------------
-- Sweeps
-------------------------------------------------------------------------------

variable {site : Site} {t : Table}

/-- A site with a table as its storage, where no operation is set to fail. -/
def Site.holding (site : Site) (t : Table) : Site :=
  { site with storage := { site.storage with backend := .table t, outages := [] } }

/-- What a sweep alone comes to at a site with a table. -/
def Site.sweep (site : Site) (s : Settings) (now : Instant) (t : Table)
    : Except SchedulerError Nat × Site :=
  (site.holding t).run (purgeExpired s now)

/-- The table without what ended before the microsecond of an instant. -/
def keptFrom (c : Instant) (t : Table) : Table :=
  ⟨t.events.filter (c.truncate ≤ ·.finish)⟩

theorem holds_endedBefore (c : Instant) (e : Event)
    : (Condition.of .finish .lt (.one .instant c)).holds e = decide (e.finish < c.truncate) := by
  simp [Condition.of, Condition.holds, Operand.truncate, Field.value?, Operand.compare?,
    Kind.truncate, Kind.compare, Operator.accepts, Field.kind, compare_lt_iff_lt]

/-- A deletion draws no identifier, and changes the table of a site alone. -/
theorem Site.answer_deleteWhere (site : Site) (t : Table) (conditions : List Condition)
    : (site.holding t).answer (.store (.deleteWhere conditions))
      = ((Table.answer .nil (.deleteWhere conditions) t).1,
          site.holding (Table.answer .nil (.deleteWhere conditions) t).2) := rfl

/-- With a cutoff, a sweep counts and removes what finished before it and answers nothing else. -/
theorem sweep_of_isCutoff (site : Site) (t : Table) (cutoff : s.IsCutoff now c)
    : site.sweep s now t
      = (.ok (t.events.filter (·.finish < c.truncate)).length, site.holding (keptFrom c t)) := by
  have meets : holdsAll [.of .finish .lt (.one .instant c)]
      = fun e => decide (e.finish < c.truncate) := by
    funext e
    simp [holdsAll, holds_endedBefore]
  have others : (fun e : Event => !decide (e.finish < c.truncate))
      = fun e => decide (c.truncate ≤ e.finish) := by
    funext e
    rw [← decide_not, decide_eq_decide, not_lt]
  have answered := site.answer_deleteWhere t [.of .finish .lt (.one .instant c)]
  rw [Table.answer_deleteWhere_of_valid (List.cons_ne_nil _ _) rfl, meets] at answered
  simp [Site.sweep, Site.run, purgeExpired, Settings.cutoff?_eq_some_iff.mpr cutoff, Process.run,
    answered, others, keptFrom]

/-- Without a cutoff, a sweep refuses its settings and leaves the table. -/
theorem sweep_of_no_cutoff (site : Site) (t : Table) (none : ∀ c, ¬s.IsCutoff now c)
    : site.sweep s now t
      = (.error (.invalidConfig s!"expiration {s.retention} is out of range"), site.holding t) := by
  simp only [Site.sweep, Site.run, purgeExpired, Settings.cutoff?_eq_none_iff.mpr none, Process.run]

/-- Whatever a sweep comes to, what it leaves is a part of the table in its order. -/
theorem exists_left (site : Site) (s : Settings) (now : Instant) (t : Table)
    : ∃ left, (site.sweep s now t).2 = site.holding left ∧ left.events.Sublist t.events := by
  by_cases cut : ∃ c, s.IsCutoff now c
  · obtain ⟨c, cutoff⟩ := cut
    exact ⟨keptFrom c t, by rw [sweep_of_isCutoff site t cutoff], List.filter_sublist⟩
  · exact ⟨t, by rw [sweep_of_no_cutoff site t (not_exists.mp cut)], .refl _⟩

/-- A later cutoff leaves less. -/
theorem sublist_keptFrom (le : c ≤ c') (t : Table)
    : (keptFrom c' t).events.Sublist (keptFrom c t).events := by
  refine List.monotone_filter_right _ fun e kept => ?_
  rw [decide_eq_true_iff] at kept ⊢
  exact le_trans (Instant.truncate_mono le) kept

/-- What a sweep with a cutoff removes of a table, and what it leaves there. -/
structure Purges (site : Site) (s : Settings) (now : Instant) (t : Table) (c : Instant)
    (removed : Nat) (left : Table) : Prop where
  swept : site.sweep s now t = (.ok removed, site.holding left)
  counted : removed = (t.events.filter (·.finish < c.truncate)).length
  /-- The others stay as they are, in their order. -/
  left_events : left.events = t.events.filter (c.truncate ≤ ·.finish)
  /-- Nothing that ends at the cutoff or later is removed. -/
  spared : ∀ e ∈ t.events, c ≤ e.finish → e ∈ left.events
  /-- The same sweep finds nothing to do right after. -/
  again : site.sweep s now left = (.ok 0, site.holding left)

/-- What sweeps make of a table. -/
structure Retains (site : Site) (s : Settings) (now : Instant) (t : Table) : Prop where
  /-- A sweep is refused just when no instant lies that far back, and then nothing changes. -/
  refused
    : (∀ c, ¬s.IsCutoff now c)
      ↔ site.sweep s now t
          = (.error (.invalidConfig s!"expiration {s.retention} is out of range"), site.holding t)
  /-- Else what ended before the microsecond of its cutoff is counted and removed. -/
  purges : ∀ c, s.IsCutoff now c → ∃ removed left, Purges site s now t c removed left
  /-- A later sweep leaves nothing that an earlier one would not leave, unless the nanoseconds have
  gone back at the end of a leap second. -/
  mono
    : ∀ later, now ≤ later → (now.IsLeap → now.toNanos ≤ later.toNanos) →
        ∃ left left', (site.sweep s now t).2 = site.holding left
          ∧ (site.sweep s later t).2 = site.holding left' ∧ left'.events.Sublist left.events

/-- A sweep with a cutoff has all that a purge promises; a second one finds nothing, since what it
would remove is gone. -/
theorem purges_of_isCutoff (site : Site) (t : Table) (cutoff : s.IsCutoff now c)
    : Purges site s now t c (t.events.filter (·.finish < c.truncate)).length (keptFrom c t) where
  swept := sweep_of_isCutoff site t cutoff
  counted := rfl
  left_events := rfl
  spared e present late := by
    have cut : c.truncate ≤ e.finish := le_trans c.truncate_le late
    simpa [keptFrom, present] using cut
  again := by
    have nothing : (keptFrom c t).events.filter (·.finish < c.truncate) = [] := by
      simp [keptFrom]
    have same : keptFrom c (keptFrom c t) = keptFrom c t := by
      simp [keptFrom]
    rw [sweep_of_isCutoff site _ cutoff, nothing, same, List.length_nil]

/-- Sweeps remove what ended before their cutoffs, and nothing else. -/
theorem sweep_retains (site : Site) (s : Settings) (now : Instant) (t : Table)
    : Retains site s now t where
  refused := by
    refine ⟨sweep_of_no_cutoff site t, fun refused c cutoff => ?_⟩
    rw [sweep_of_isCutoff site t cutoff] at refused
    simp at refused
  purges c cutoff := ⟨_, _, purges_of_isCutoff site t cutoff⟩
  mono later le nanos := by
    have nanos : now.toNanos ≤ later.toNanos := by
      by_cases leap : now.IsLeap
      · exact nanos leap
      · exact Instant.toNanos_le_toNanos leap le
    by_cases cut : ∃ c, s.IsCutoff now c
    · obtain ⟨c, cutoff⟩ := cut
      obtain ⟨c', cutoff'⟩ := cutoff.exists_later nanos
      exact ⟨keptFrom c t, keptFrom c' t, by rw [sweep_of_isCutoff site t cutoff],
        by rw [sweep_of_isCutoff site t cutoff'], sublist_keptFrom (cutoff.mono cutoff' le nanos) t⟩
    · -- A sweep that is refused leaves everything, and no other leaves more.
      obtain ⟨left', swept, less⟩ := exists_left site s later t
      exact ⟨t, left', by rw [sweep_of_no_cutoff site t (not_exists.mp cut)], swept, less⟩

-------------------------------------------------------------------------------
-- Across a leap second
-------------------------------------------------------------------------------

/-- A site where nothing was published yet. -/
def office : Site :=
  { storage := {}, outlet := { producer := { settings := {} } }, broker := {} }

/-- The start of the last day of June 2015, which has a leap second at its end. -/
def startOfLongDay : Instant :=
  .ofParts 1435622400 0 (by omega)

/-- A table with a meeting that ends half a second after that. -/
def vigil : Table :=
  Table.empty.after
    [(⟨1⟩, .add
      { Bureau.meeting with
        start := startOfLongDay
        finish := { startOfLongDay with nano := 500000000, nano_range := by omega } })]

/-- In the first second of that day, when the meeting is over. -/
def afterVigil : Instant :=
  { startOfLongDay with nano := 900000000, nano_range := by omega }

/-- A day after, a sweep in the leap second removes the meeting, and one that comes later, with the
next second, does not. -/
theorem not_retained_after_leapSecond
    : vigil.Reachable ∧ Instant.lateInLeapSecond ≤ Instant.afterLeapSecond
      ∧ office.sweep { retention := .ofSeconds 86400 } Instant.lateInLeapSecond vigil
        = (.ok 1, office.holding .empty)
      ∧ office.sweep { retention := .ofSeconds 86400 } Instant.afterLeapSecond vigil
        = (.ok 0, office.holding vigil)
      ∧ ¬vigil.events ⊆ Table.empty.events := by
  refine ⟨⟨_, rfl⟩, by decide, ?_, ?_, by decide⟩
  · have cutoff := Settings.cutoff?_eq_some_iff.mp
      (show Settings.cutoff? { retention := .ofSeconds 86400 } .lateInLeapSecond
        = some afterVigil by decide)
    have removed : (vigil.events.filter (·.finish < afterVigil.truncate)).length = 1 := by
      decide +kernel
    have left : keptFrom afterVigil vigil = .empty := by decide +kernel
    rw [sweep_of_isCutoff office vigil cutoff, removed, left]
  · have cutoff := Settings.cutoff?_eq_some_iff.mp
      (show Settings.cutoff? { retention := .ofSeconds 86400 } .afterLeapSecond
        = some startOfLongDay by decide)
    have removed : (vigil.events.filter (·.finish < startOfLongDay.truncate)).length = 0 := by
      decide +kernel
    have left : keptFrom startOfLongDay vigil = vigil := by decide +kernel
    rw [sweep_of_isCutoff office vigil cutoff, removed, left]

end Almanac.Dispatch
