import Almanac.Proofs.Event.Saturation
import Almanac.Proofs.Query.Rounding
import Almanac.Proofs.Store.Reachable
import Almanac.Store.Parameter

/-! Leads that are compared as words of microseconds.
A word that stands for a span too long for it is the same for all such spans on its side. Tables
keep these spans apart, so a database takes for equal what a table does not.
-/

namespace Almanac

open Query Time Store

-------------------------------------------------------------------------------
-- Words and the spans that they stand for
-------------------------------------------------------------------------------

namespace Time.Span

variable {a b s : Span}

theorem fitsWord_iff {n : Int}
    : fitsWord n ↔ -9223372036854775808 ≤ n ∧ n ≤ 9223372036854775807 := by
  simp [fitsWord]

/-- A word is the count of microseconds, moved to the nearer end of what words hold. -/
theorem word_eq (s : Span)
    : s.word = max (-9223372036854775808) (min s.wholeMicros 9223372036854775807) := by
  have sign := s.nanos_bounds
  by_cases fits : fitsWord s.wholeMicros
  · have range := fitsWord_iff.mp fits
    simp only [word, micros?, fits, if_true, Option.getD_some]
    omega
  · have beyond := mt fitsWord_iff.mpr fits
    simp only [word, micros?, fits, Bool.false_eq_true, if_false, Option.getD_none]
    split <;> omega

/-- Two spans that lie at an end of what words hold, or past it, and at the same one. -/
def PastSameEnd (a b : Span) : Prop :=
  9223372036854775807 ≤ a.wholeMicros ∧ 9223372036854775807 ≤ b.wholeMicros
    ∨ a.wholeMicros ≤ -9223372036854775808 ∧ b.wholeMicros ≤ -9223372036854775808

instance (a b : Span) : Decidable (a.PastSameEnd b) :=
  inferInstanceAs (Decidable (_ ∨ _))

/-- A span that lies between these ends. -/
def BetweenEnds (s : Span) : Prop :=
  -9223372036854775808 < s.wholeMicros ∧ s.wholeMicros < 9223372036854775807

theorem BetweenEnds.not_pastSameEnd (between : a.BetweenEnds) (b : Span) : ¬a.PastSameEnd b := by
  simp only [BetweenEnds] at between
  simp only [PastSameEnd]
  omega

/-- The greatest span that words hold, the next one in microseconds, and both at the other end. -/
def greatest : Span :=
  ⟨9223372036854775807 * 1000, by omega⟩

def pastGreatest : Span :=
  ⟨9223372036854775808 * 1000, by omega⟩

def least : Span :=
  ⟨-9223372036854775808 * 1000, by omega⟩

def pastLeast : Span :=
  ⟨-9223372036854775809 * 1000, by omega⟩

/-- Past either end, there is more than one span. -/
theorem exists_pastSameEnd_ne (atEnd : ¬a.BetweenEnds)
    : ∃ b : Span, b.truncate = b ∧ a.PastSameEnd b ∧ a ≠ b := by
  simp only [BetweenEnds] at atEnd
  rcases (by omega : a.wholeMicros ≤ -9223372036854775808 ∨ 9223372036854775807 ≤ a.wholeMicros)
    with low | high
  · by_cases same : a = least
    · exact ⟨pastLeast, by decide, .inr ⟨low, by decide⟩, by rw [same]; decide⟩
    · exact ⟨least, by decide, .inr ⟨low, by decide⟩, same⟩
  · by_cases same : a = greatest
    · exact ⟨pastGreatest, by decide, .inl ⟨high, by decide⟩, by rw [same]; decide⟩
    · exact ⟨greatest, by decide, .inl ⟨high, by decide⟩, same⟩

/-- A span as stores keep it is in whole microseconds, or has more of them than a word holds. -/
theorem whole_or_long (cut : s.truncate = s)
    : s.nanos = s.wholeMicros * 1000
      ∨ s.wholeMicros < -9223372036854775808 ∨ 9223372036854775807 < s.wholeMicros := by
  by_cases fits : fitsWord s.wholeMicros
  · have whole := nanos_truncate fits
    rw [cut] at whole
    exact .inl whole
  · have beyond := mt fitsWord_iff.mpr fits
    omega

theorem word_lt_word_iff (cut : a.truncate = a) (cut' : b.truncate = b)
    : a.word < b.word ↔ a.nanos < b.nanos ∧ ¬a.PastSameEnd b := by
  have size := a.nanos_bounds
  have size' := b.nanos_bounds
  have whole := whole_or_long cut
  have whole' := whole_or_long cut'
  simp only [word_eq, PastSameEnd]
  omega

theorem PastSameEnd.symm (past : a.PastSameEnd b) : b.PastSameEnd a :=
  past.imp And.symm And.symm

theorem word_eq_word_iff (cut : a.truncate = a) (cut' : b.truncate = b)
    : a.word = b.word ↔ a = b ∨ a.PastSameEnd b := by
  constructor
  · intro same
    by_cases past : a.PastSameEnd b
    · exact .inr past
    · have past' : ¬b.PastSameEnd a := fun past' => past past'.symm
      have less := word_lt_word_iff cut cut'
      have greater := word_lt_word_iff cut' cut
      simp only [past, past', not_false_eq_true, and_true] at less greater
      exact .inl (nanos_injective (by omega))
  · rintro (rfl | past)
    · rfl
    · simp only [word_eq]
      rcases past with ⟨top, top'⟩ | ⟨bottom, bottom'⟩ <;> omega

/-- Words are in the order of the spans, but equal for all spans past one end. -/
theorem compare_word (cut : a.truncate = a) (cut' : b.truncate = b)
    : compare a.word b.word = if a.PastSameEnd b then .eq else compare a b := by
  have less := word_lt_word_iff cut cut'
  have greater := word_lt_word_iff cut' cut
  split
  · rename_i past
    exact Int.compare_eq_eq.mpr ((word_eq_word_iff cut cut').mpr (.inr past))
  · rename_i apart
    have apart' : ¬b.PastSameEnd a := fun past => apart past.symm
    show compare a.word b.word = compare a.nanos b.nanos
    cases order : compare a.nanos b.nanos with
    | lt => exact Int.compare_eq_lt.mpr (less.mpr ⟨Int.compare_eq_lt.mp order, apart⟩)
    | eq => rw [nanos_injective (Int.compare_eq_eq.mp order), Int.compare_eq_eq.mpr rfl]
    | gt => exact Int.compare_eq_gt.mpr (greater.mpr ⟨Int.compare_eq_gt.mp order, apart'⟩)

end Time.Span

-------------------------------------------------------------------------------
-- Conditions on leads
-------------------------------------------------------------------------------

/-- Whether an operator holds of a word and a set of words. -/
def Query.Operator.holdsAmong (operator : Operator) (word : Int) (words : List Int) : Bool :=
  match operator with
  | .isIn => decide (word ∈ words)
  | .notIn => decide (word ∉ words)
  | _ => false

/-- Whether a lead's word compares with a parameter as an operator says. Words compare only with
words. -/
def Store.Parameter.admits (lead : Int) (operator : Operator) : Parameter → Bool
  | .one .span word => operator.accepts (compare (α := Int) lead word)
  | .set .span words => operator.holdsAmong lead words
  | _ => false

namespace Event

variable {stored : Event} {operator : Operator} {d : Span} {ds : List Span}

/-- A condition on leads picks the row of an event from a database just when it picks the event from
a table. -/
def PickedAlike (stored : Event) (operator : Operator) (o : Operand) : Prop :=
  (Parameter.ofOperand (Condition.of .lead operator o).operand).admits (leadColumn stored) operator
    ↔ (Condition.of .lead operator o).matchesEvent stored = .ok true

theorem matchesEvent_one_iff (scalar : operator.takesSet = false)
    : (Condition.of .lead operator (.one .span d)).matchesEvent stored = .ok true
      ↔ operator.accepts (compare stored.lead d.truncate) := by
  have value : Field.lead.value? stored = some stored.lead := rfl
  exact (Condition.matchesEvent_eq_ok_true_iff value).trans (accepts_compare_iff scalar).symm

theorem admits_one
    : (Parameter.ofOperand (Condition.of .lead operator (.one .span d)).operand).admits
        (leadColumn stored) operator
      = operator.accepts (compare stored.lead.word d.truncate.word) := by
  show operator.accepts (compare stored.lead.word d.truncate.truncate.word) = _
  rw [Span.truncate_truncate]

theorem admits_set
    : (Parameter.ofOperand (Condition.of .lead operator (.set .span ds)).operand).admits
        (leadColumn stored) operator
      = operator.holdsAmong stored.lead.word (ds.map (·.truncate.word)) := by
  have cut : (ds.map Span.truncate).map (·.truncate.word) = ds.map (·.truncate.word) := by
    simp [Function.comp_def]
  rw [← cut]
  rfl

/-- With one span, words decide as spans do unless both spans are past the same end and the operator
tells their order from equality. -/
theorem pickedAlike_one_iff (cut : stored.lead.truncate = stored.lead)
    (scalar : operator.takesSet = false)
    : stored.PickedAlike operator (.one .span d)
      ↔ (stored.lead.PastSameEnd d.truncate →
          operator.accepts .eq = operator.accepts (compare stored.lead d.truncate)) := by
  rw [PickedAlike, matchesEvent_one_iff scalar, admits_one, ← Bool.eq_iff_iff,
    Span.compare_word cut d.truncate_truncate]
  split
  · rename_i past
    exact ⟨fun same _ => same, fun same => same past⟩
  · rename_i apart
    exact ⟨fun _ past => absurd past apart, fun _ => rfl⟩

/-- A lead's word is among those of a set just when the lead is, or is past the same end as one. -/
theorem word_mem_iff (cut : stored.lead.truncate = stored.lead)
    : stored.lead.word ∈ ds.map (·.truncate.word)
      ↔ stored.lead ∈ ds.map Span.truncate ∨ ∃ d ∈ ds, stored.lead.PastSameEnd d.truncate := by
  have each (d : Span) : d.truncate.word = stored.lead.word
      ↔ d.truncate = stored.lead ∨ stored.lead.PastSameEnd d.truncate := by
    rw [eq_comm, Span.word_eq_word_iff cut d.truncate_truncate, eq_comm (a := stored.lead)]
  simp only [List.mem_map, each, and_or_left, exists_or]

/-- With a set of spans, words decide as spans do unless the lead is no member but past the same end
as one. -/
theorem pickedAlike_set_iff (cut : stored.lead.truncate = stored.lead) (sets : operator.takesSet)
    : stored.PickedAlike operator (.set .span ds)
      ↔ stored.lead ∈ ds.map Span.truncate
        ∨ ∀ d ∈ ds, ¬stored.lead.PastSameEnd d.truncate := by
  have value : Field.lead.value? stored = some stored.lead := rfl
  have table : (Condition.of .lead operator (.set .span ds)).matchesEvent stored = .ok true
      ↔ Compares (k := .span) stored.lead operator (.set .span (ds.map Span.truncate)) :=
    Condition.matchesEvent_eq_ok_true_iff value
  have member : (stored.lead.word ∈ ds.map (·.truncate.word)
        ↔ stored.lead ∈ ds.map Span.truncate)
      ↔ stored.lead ∈ ds.map Span.truncate
        ∨ ∀ d ∈ ds, ¬stored.lead.PastSameEnd d.truncate := by
    rw [word_mem_iff cut, or_iff_left_iff_imp, imp_iff_or_not]
    simp only [not_exists, not_and]
  rw [← member, PickedAlike, admits_set]
  cases operator with
  | isIn => exact iff_congr decide_eq_true_iff (table.trans Compares.isIn_iff)
  | notIn =>
      exact (iff_congr decide_eq_true_iff (table.trans Compares.notIn_iff)).trans not_iff_not
  | eq | ne | lt | le | gt | ge => cases sets

/-- A lead past an end has the word of some other span. -/
theorem betweenEnds_of_pickedAlike (cut : stored.lead.truncate = stored.lead)
    (alike : ∀ d, stored.PickedAlike .eq (.one .span d))
    : stored.lead.BetweenEnds := by
  by_contra atEnd
  obtain ⟨d, cut', past, differs⟩ := Span.exists_pastSameEnd_ne atEnd
  have accepts := (pickedAlike_one_iff cut rfl).mp (alike d) (cut'.symm ▸ past)
  rw [cut'] at accepts
  have same := Int.compare_eq_eq.mp (of_decide_eq_true accepts.symm)
  exact differs (Span.nanos_injective same)

/-- An event that starts within some 28000 years of 1970 has no lead past an end. Its notification
would fall before the earliest instant or after the latest one. -/
theorem IsStorable.betweenEnds (h : stored.IsStorable)
    (near : stored.start.second.natAbs ≤ 880000000000)
    : stored.lead.BetweenEnds := by
  have moved := (count_notifyAt h.notifiable).2
  have first := stored.start.le_count stored.notifyAt
  have last := stored.start.count_lt stored.notifyAt
  have range := stored.start.nano_range
  have size := stored.lead.nanos_bounds
  simp only [notifyCount, Instant.toNanos] at moved
  simp only [Span.BetweenEnds]
  omega

/-- What a database and a table make of conditions on a stored event's lead. -/
structure TellsLead (stored : Event) : Prop where
  /-- With one span, they differ when both spans are past the same end and the operator tells their
  order from equality. -/
  one
    : ∀ operator d, operator.takesSet = false →
        (stored.PickedAlike operator (.one .span d)
          ↔ (stored.lead.PastSameEnd d.truncate →
              operator.accepts .eq = operator.accepts (compare stored.lead d.truncate)))
  /-- With a set, they differ when the lead is no member, but past the same end as one. -/
  set
    : ∀ operator ds, operator.takesSet →
        (stored.PickedAlike operator (.set .span ds)
          ↔ stored.lead ∈ ds.map Span.truncate
            ∨ ∀ d ∈ ds, ¬stored.lead.PastSameEnd d.truncate)
  /-- So they never differ just when the lead is past no end, -/
  always_iff
    : (∀ operator o, o.shape = ⟨.span, operator.takesSet⟩ → stored.PickedAlike operator o)
      ↔ stored.lead.BetweenEnds
  /-- as it is when the event starts within some 28000 years of 1970. -/
  near : stored.start.second.natAbs ≤ 880000000000 → stored.lead.BetweenEnds

/-- A database that keeps leads as words picks the same events as a table, except for leads past an
end of what words hold. -/
theorem tellsLead_of_prepare {e : Event} (prepared : prepare e = .ok stored)
    : stored.TellsLead := by
  have storable := isStorable_of_prepare prepared
  have cut : stored.lead.truncate = stored.lead := congrArg Event.lead storable.normal
  refine ⟨fun operator d => pickedAlike_one_iff cut, fun operator ds => pickedAlike_set_iff cut,
    ⟨fun alike => betweenEnds_of_pickedAlike cut fun d => alike .eq _ rfl, ?_⟩,
    storable.betweenEnds⟩
  intro between operator o shape
  have apart := between.not_pastSameEnd
  cases o with
  | one kind d =>
      obtain ⟨rfl, scalar⟩ := Shape.mk.inj shape
      exact (pickedAlike_one_iff cut scalar.symm).mpr fun past => absurd past (apart _)
  | set kind ds =>
      obtain ⟨rfl, sets⟩ := Shape.mk.inj shape
      exact (pickedAlike_set_iff cut sets.symm).mpr (.inr fun d _ => apart _)

/-- A meeting in 2025, a quarter of an hour ahead of which its notification goes out. -/
def meeting : Event :=
  { id := .nil
    owner := .nil
    title := "meeting"
    description := ""
    start := .ofParts 1740994200 0 (by omega)
    finish := .ofParts 1740997800 0 (by omega)
    lead := ⟨900000000000, by omega⟩
    notified := none }

/-- The same meeting on the last day that there is, with a lead of one microsecond more than a word
holds. -/
def lastMeeting : Event :=
  { meeting with
    start := .ofParts 8210266819200 0 (by omega)
    finish := .ofParts 8210266822800 0 (by omega)
    lead := .pastGreatest }

/-- Every condition on leads picks the one meeting alike. Neither the other's lead nor its word
comes before the greatest span that words hold. -/
theorem tellsLead_meeting
    : meeting.PickedAlike .notIn (.set .span [⟨900000000500, by omega⟩])
      ∧ lastMeeting.PickedAlike .lt (.one .span .greatest) := by
  have prepared : prepare meeting = .ok meeting := by decide +kernel
  have last : prepare lastMeeting = .ok lastMeeting := by decide +kernel
  have tells := tellsLead_of_prepare prepared
  have tellsLast := tellsLead_of_prepare last
  refine ⟨tells.always_iff.mpr (tells.near (by decide)) .notIn _ rfl, ?_⟩
  exact (tellsLast.one .lt _ rfl).mpr fun _ => by decide +kernel

/-- Stores accept the last meeting. Its word equals that of the greatest span that words hold, but a
table does not take the two for equal. -/
theorem not_pickedAlike_lastMeeting
    : prepare lastMeeting = .ok lastMeeting
      ∧ ¬lastMeeting.PickedAlike .eq (.one .span .greatest) := by
  refine ⟨by decide +kernel, fun alike => ?_⟩
  have picked := alike.mp (by decide +kernel)
  revert picked
  decide +kernel

end Event

end Almanac
