import Almanac.Proofs.Store.Usage

/-! The integrity of a store: what its uses leave alone.
A new event disturbs no record, an update one record and no owner, and a refusal nothing at all.
-/

namespace Almanac.Store

open Time Query

namespace Table

variable {t after : Table} {drawn : List Uuid} {id : Uuid} {e e' stored : Event}

-------------------------------------------------------------------------------
-- One use
-------------------------------------------------------------------------------

/-- An event that is filed takes the first unused identifier that was drawn. -/
theorem of_reply?_add (replied : t.reply? drawn (.add e) = some (.ok stored, after))
    : t.firstUnused? drawn = some stored.id ∧ stored = { e.normalize with id := stored.id }
      ∧ after = ⟨insertInto stored t.events⟩ := by
  cases prepared : prepare e with
  | error cause =>
      have refused : t.reply? drawn (.add e) = some (.error cause, t) := by
        simp [reply?, Call.files, prepared, Except.isOk, Except.toBool, answer_add_of_error]
      rw [refused] at replied
      cases replied
  | ok normal =>
      obtain rfl := of_prepare prepared
      have needed : (Call.add e).files := by
        simp [Call.files, prepared, Except.isOk, Except.toBool]
      rw [reply?, if_pos needed] at replied
      obtain ⟨fresh, first, eq⟩ := Option.map_eq_some_iff.mp replied
      rw [answer_add_of_ok prepared] at eq
      cases eq
      exact ⟨first, rfl, rfl⟩

/-- What is filed is found under an identifier that was not in use, and disturbs no record. -/
theorem Stored.filed (h : t.Stored) (replied : t.reply? drawn (.add e) = some (.ok stored, after))
    : t.find? stored.id = none
      ∧ ∀ id, after.find? id = if id = stored.id then some stored else t.find? id := by
  have next := h.reply? replied
  obtain ⟨first, -, rfl⟩ := of_reply?_add replied
  exact ⟨(of_firstUnused? first).2, h.kept.find?_insertInto next.kept⟩

/-- An update that succeeds rewrites the record with the event's identifier, except for its owner,
and disturbs no other. -/
theorem rewritten (replied : t.reply? drawn (.update e) = some (.ok (), after))
    : ∃ old, t.find? e.id = some old
        ∧ ∀ id, after.find? id
            = if id = e.id then some { e.normalize with owner := old.owner } else t.find? id := by
  have answered : Table.answer .nil (.update e) t = (.ok (), after) := by
    simpa [reply?, Call.files] using replied
  cases updated : t.update e with
  | error cause =>
      have refused : (Table.answer .nil (.update e) t).1 = .error cause := by
        simp only [Table.answer, changed, updated, Except.map]
        rfl
      rw [answered] at refused
      cases refused
  | ok table =>
      have same : (Table.answer .nil (.update e) t).2 = table := by
        simp only [Table.answer, changed, updated, Except.map]
      rw [answered] at same
      obtain rfl : after = table := same
      cases prepared : prepare e with
      | error cause => simp [Table.update, prepared, Except.bind] at updated
      | ok normal =>
          obtain rfl := of_prepare prepared
          cases found : t.find? e.normalize.id with
          | none => simp [Table.update, prepared, Except.bind, found] at updated
          | some old =>
              obtain rfl : t.replace { e.normalize with owner := old.owner } = after := by
                simpa [Table.update, prepared, Except.bind, found] using updated
              refine ⟨old, found, fun id => ?_⟩
              rw [find?_replace]
              by_cases here : id = e.id
              · subst here
                have present : t.find? e.id = some old := found
                simp [present, Event.normalize]
              · simp [here, Event.normalize]

/-- A use that leaves an identifier in use leaves its owner. -/
theorem Stored.owner_use (h : t.Stored) {act : Use} (before : t.find? id = some e)
    (later : (t.use act).find? id = some e')
    : e'.owner = e.owner := by
  have same : t.find? id = some e' → e'.owner = e.owner := by
    intro still
    rw [before] at still
    cases still
    rfl
  cases act with
  | clear => cases later
  | call drawn c =>
      cases replied : t.reply? drawn c with
      | none =>
          rw [Table.use, replied] at later
          exact same later
      | some result =>
          rw [use_call replied] at later
          rcases of_reply? replied with ⟨fresh, accepted, eq⟩ | ⟨-, unchanged⟩
          · rw [← congrArg Prod.snd eq] at later
            exact h.kept.owner_answer accepted before later
          · rw [unchanged] at later
            exact same later

-------------------------------------------------------------------------------
-- Whole runs
-------------------------------------------------------------------------------

/-- An identifier that stays in use keeps its owner, by induction on the uses. -/
theorem Stored.owner_through (h : t.Stored) (uses : List Use)
    (stays : ∀ part rest, uses = part ++ rest → (t.through part).contains id)
    (before : t.find? id = some e)
    : ∃ e', (t.through uses).find? id = some e' ∧ e'.owner = e.owner := by
  induction uses generalizing t e with
  | nil => exact ⟨e, before, rfl⟩
  | cons act uses ih =>
      obtain ⟨middle, next⟩ : ∃ middle, (t.use act).find? id = some middle := by
        have used := stays [act] uses rfl
        rw [contains_eq_isSome] at used
        exact Option.isSome_iff_exists.mp used
      have owner := h.owner_use before next
      obtain ⟨last, found, kept⟩ := ih (h.use act)
        (fun part rest split => stays (act :: part) rest (by rw [split]; rfl)) next
      exact ⟨last, found, kept.trans owner⟩

/-- What holds at a table to which uses have led from the empty one. -/
structure Sound (uses : List Use) (t : Table) : Prop where
  /-- Each record is filed under its own identifier and under no other. -/
  filed : ∀ id e, t.find? id = some e ↔ e ∈ t.events ∧ e.id = id
  /-- Records are in the order of their identifiers, each once. -/
  ordered : t.events.Pairwise fun a b => a.id < b.id
  /-- A new event takes the first identifier drawn that is not in use, and disturbs no record. -/
  added
    : ∀ drawn e (stored : Event) after, t.reply? drawn (.add e) = some (.ok stored, after) →
        t.firstUnused? drawn = some stored.id ∧ t.find? stored.id = none
        ∧ after.find? stored.id = some stored
        ∧ ∀ id, id ≠ stored.id → after.find? id = t.find? id
  /-- From when it is added until it is removed, an event keeps the owner that it came with. -/
  owned
    : ∀ earlier drawn e later (stored : Event) after,
        uses = earlier ++ .call drawn (.add e) :: later →
        (empty.through earlier).reply? drawn (.add e) = some (.ok stored, after) →
        (∀ part rest, later = part ++ rest →
          (empty.through (earlier ++ .call drawn (.add e) :: part)).contains stored.id) →
        ∃ e', t.find? stored.id = some e' ∧ e'.owner = e.owner
  /-- An update that succeeds concerns the record with the event's identifier, and no other. -/
  updated
    : ∀ drawn e after, t.reply? drawn (.update e) = some (.ok (), after) →
        (∃ old, t.find? e.id = some old
          ∧ after.find? e.id = some { e.normalize with owner := old.owner })
        ∧ ∀ id, id ≠ e.id → after.find? id = t.find? id
  /-- A refusal has a reason and changes nothing. -/
  refused
    : ∀ drawn c cause after, t.reply? drawn c = some (.error cause, after) →
        after = t ∧ t.Refusal c cause
  /-- Only an event to be filed waits for its answer, as long as what was drawn is in use. -/
  answered
    : ∀ drawn c, t.reply? drawn c = none ↔ c.files ∧ ∀ id ∈ drawn, t.contains id

theorem refused_of_reply? {c : Call} {cause : StoreError}
    (replied : t.reply? drawn c = some (.error cause, after))
    : after = t ∧ t.Refusal c cause := by
  unfold reply? at replied
  split at replied
  · obtain ⟨fresh, -, eq⟩ := Option.map_eq_some_iff.mp replied
    obtain ⟨same, why⟩ := answer_of_error (congrArg Prod.fst eq)
    exact ⟨(congrArg Prod.snd eq).symm.trans same, why⟩
  · have eq : Table.answer .nil c t = (.error cause, after) := Option.some.inj replied
    obtain ⟨same, why⟩ := answer_of_error (congrArg Prod.fst eq)
    exact ⟨(congrArg Prod.snd eq).symm.trans same, why⟩

/-- Stores are sound whatever is done there and whatever identifiers are drawn. -/
theorem sound_through (uses : List Use) : Sound uses (empty.through uses) := by
  have stored := Stored.empty.through uses
  constructor
  case filed => exact fun id e => stored.kept.find?_eq_some_iff
  case ordered => exact stored.kept.ordered
  case added =>
    intro drawn e new after replied
    obtain ⟨unused, found⟩ := stored.filed replied
    refine ⟨(of_reply?_add replied).1, unused, by rw [found, if_pos rfl], ?_⟩
    intro id other
    rw [found, if_neg other]
  case owned =>
    rintro earlier drawn e later new after rfl replied stays
    have before := Stored.empty.through earlier
    have next : (empty.through (earlier ++ [.call drawn (.add e)])) = after := by
      rw [through_concat, use_call replied]
    have split (part : List Use)
        : empty.through (earlier ++ .call drawn (.add e) :: part) = after.through part := by
      rw [List.append_cons, through_append, next]
    have present : after.find? new.id = some new := by
      rw [(before.filed replied).2, if_pos rfl]
    have owner : new.owner = e.owner := by rw [(of_reply?_add replied).2.1]; rfl
    rw [split, ← owner]
    exact (before.reply? replied).owner_through later
      (fun part rest parts => split part ▸ stays part rest parts) present
  case updated =>
    intro drawn e after replied
    obtain ⟨old, present, found⟩ := rewritten replied
    refine ⟨⟨old, present, by simp [found]⟩, ?_⟩
    intro id other
    rw [found, if_neg other]
  case refused => exact fun drawn c cause after => refused_of_reply?
  case answered => exact reply?_eq_none_iff _

end Table

end Almanac.Store
