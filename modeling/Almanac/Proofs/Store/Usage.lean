import Almanac.Proofs.Store.Reachable
import Almanac.Proofs.Store.Refusal

/-! Stores in use, with identifiers drawn from a generator.
A new event takes the first identifier drawn that is not in use, so a generator may repeat itself.
Records stay filed under their own identifiers and with their owners, and refusals change nothing.
-/

namespace Almanac.Store

open Time Query

-------------------------------------------------------------------------------
-- Uses of a store
-------------------------------------------------------------------------------

namespace Call

/-- Whether a call files a new event, which needs an identifier. -/
def files : Call → Bool
  | .add e => (prepare e).isOk
  | _ => false

end Call

/-- What is done at a store: a call, with the identifiers that are drawn in the meantime, or the
removal of every event. -/
inductive Use where
  | call (drawn : List Uuid) (c : Call)
  | clear

namespace Table

def firstUnused? (t : Table) (drawn : List Uuid) : Option Uuid :=
  drawn.find? (!t.contains ·)

/-- The answer to a call and the table after it. A call that files an event has no answer as long
as every identifier that was drawn is in use. -/
def reply? (t : Table) (drawn : List Uuid) (c : Call) : Option (c.Answer × Table) :=
  if c.files then (t.firstUnused? drawn).map fun fresh => Table.answer fresh c t
  else some (Table.answer .nil c t)

/-- The table after a use of it; a call without an answer changes nothing yet. -/
def use (t : Table) : Use → Table
  | .call drawn c => ((t.reply? drawn c).map Prod.snd).getD t
  | .clear => .empty

/-- The table after uses of it in turn. -/
def through (t : Table) (uses : List Use) : Table :=
  uses.foldl use t

variable {t after : Table} {drawn : List Uuid} {c : Call} {id fresh : Uuid} {e e' : Event}

/-- Uses in a row are made one part after the other. -/
theorem through_append (t : Table) (uses more : List Use)
    : t.through (uses ++ more) = (t.through uses).through more :=
  List.foldl_append

/-- The last use is made on what the others leave. -/
theorem through_concat (t : Table) (uses : List Use) (act : Use)
    : t.through (uses ++ [act]) = (t.through uses).use act :=
  through_append t uses [act]

/-- A call that is answered leaves the table of its answer. -/
theorem use_call {answer : c.Answer} (replied : t.reply? drawn c = some (answer, after))
    : t.use (.call drawn c) = after := by
  simp [use, replied]

/-- What is drawn for a new event is not in use. -/
theorem of_firstUnused? (first : t.firstUnused? drawn = some fresh)
    : fresh ∈ drawn ∧ t.find? fresh = none := by
  refine ⟨List.mem_of_find?_eq_some first, ?_⟩
  have unused : t.contains fresh = false := by simpa using List.find?_some first
  simpa [contains_eq_isSome] using unused

/-- A call that files an event has no answer just as long as what was drawn is in use. -/
theorem reply?_eq_none_iff (t : Table) (drawn : List Uuid) (c : Call)
    : t.reply? drawn c = none ↔ c.files ∧ ∀ id ∈ drawn, t.contains id := by
  by_cases needed : c.files <;> simp [reply?, needed, firstUnused?]

-------------------------------------------------------------------------------
-- Refusals
-------------------------------------------------------------------------------

/-- A refused change hands the table back as it was. -/
theorem changed_of_error {α : Type} {answer : Except StoreError (α × Table)} {cause : StoreError}
    (refused : (t.changed answer).1 = .error cause)
    : (t.changed answer).2 = t ∧ answer = .error cause := by
  obtain rfl := changed_eq_error_iff.mp refused
  exact ⟨rfl, rfl⟩

/-- Why a store refuses a call: the instant of the event's notification is out of range, no event
has the identifier, a bulk deletion has no condition, or a condition is malformed. -/
inductive Refusal (t : Table) : Call → StoreError → Prop where
  | outOfRange {c : Call} {e : Event} (given : c = .add e ∨ c = .update e)
    (unreachable : e.normalize.notifyAt? = none)
    : Refusal t c (.outOfRange e.normalize.lead e.normalize.start)
  | notFound {c : Call} {id : Uuid} (absent : t.find? id = none) : Refusal t c (.notFound id)
  | emptyFilter : Refusal t (.deleteWhere []) .emptyFilter
  | malformed {c : Call} {conditions : List Condition} {cause : QueryError}
    (found : validateAll conditions = .error cause)
    : Refusal t c (.query cause)

variable {cause : StoreError}

/-- A call that is refused for what it is given is refused at every table. -/
theorem Refusal.of_refused (refused : c.Refused cause) : t.Refusal c cause := by
  cases refused with
  | outOfRange given unreachable => exact .outOfRange given unreachable
  | emptyFilter => exact .emptyFilter
  | malformed given found => exact .malformed (validateAll_eq_error_iff.mpr ⟨_, found, rfl⟩)

/-- An event that cannot be prepared is refused at every table. -/
theorem refusal_of_prepare (given : c = .add e ∨ c = .update e) (refused : prepare e = .error cause)
    : t.Refusal c cause :=
  .of_refused ((Call.refused_iff_of_event given).mpr refused)

/-- An update is refused for its event or for an unknown identifier, in this order. -/
theorem refusal_of_update (refused : t.update e = .error cause) : t.Refusal (.update e) cause := by
  cases prepared : prepare e with
  | error other =>
      obtain rfl : other = cause := by simpa [Table.update, prepared, Except.bind] using refused
      exact refusal_of_prepare (.inr rfl) prepared
  | ok stored =>
      cases found : t.find? stored.id with
      | some old => simp [Table.update, prepared, Except.bind, found] at refused
      | none =>
          obtain rfl : .notFound stored.id = cause := by
            simpa [Table.update, prepared, Except.bind, found] using refused
          exact .notFound found

/-- A deletion is refused for an unknown identifier only. -/
theorem refusal_of_delete (refused : t.delete id = .error cause)
    : t.Refusal (.delete id) cause := by
  by_cases used : t.contains id
  · simp [Table.delete, used] at refused
  · obtain rfl : .notFound id = cause := by simpa [Table.delete, used] using refused
    exact .notFound (by simpa [contains_eq_isSome] using used)

/-- A lookup is refused for an unknown identifier only. -/
theorem refusal_of_get (refused : t.get id = .error cause) : t.Refusal (.get id) cause := by
  cases found : t.find? id with
  | some e => simp [Table.get, found] at refused
  | none =>
      obtain rfl : .notFound id = cause := by simpa [Table.get, found] using refused
      exact .notFound found

/-- A refusal has its reason and leaves the table as it is, by cases on the call. -/
theorem answer_of_error (refused : (Table.answer fresh c t).1 = .error cause)
    : (Table.answer fresh c t).2 = t ∧ t.Refusal c cause := by
  cases c with
  | add new =>
      obtain ⟨same, why⟩ := changed_of_error refused
      exact ⟨same, refusal_of_prepare (.inl rfl) (map_eq_error_iff.mp why)⟩
  | update new =>
      obtain ⟨same, why⟩ := changed_of_error refused
      exact ⟨same, refusal_of_update (map_eq_error_iff.mp why)⟩
  | delete target =>
      obtain ⟨same, why⟩ := changed_of_error refused
      exact ⟨same, refusal_of_delete (map_eq_error_iff.mp why)⟩
  | get target => exact ⟨rfl, refusal_of_get refused⟩
  | query conditions keys =>
      exact ⟨rfl, .of_refused (Call.refused_query_iff.mpr (query_eq_error_iff.mp refused))⟩
  | deleteWhere conditions =>
      obtain ⟨same, why⟩ := changed_of_error refused
      exact ⟨same, .of_refused (Call.refused_deleteWhere_iff.mpr (map_eq_error_iff.mp why))⟩
  | mark ids moment => cases refused
  | due now => cases refused

-------------------------------------------------------------------------------
-- Answers, and the tables that uses bring about
-------------------------------------------------------------------------------

/-- Adding an event that cannot be prepared answers with why and keeps the table. -/
theorem answer_add_of_error (prepared : prepare e = .error cause)
    : Table.answer fresh (.add e) t = (.error cause, t) := by
  simp only [Table.answer, changed, Table.add, prepared, Except.map]
  rfl

/-- Adding a prepared event stores it under the fresh identifier. -/
theorem answer_add_of_ok (prepared : prepare e = .ok e')
    : Table.answer fresh (.add e) t
      = (.ok { e' with id := fresh }, ⟨insertInto { e' with id := fresh } t.events⟩) := by
  simp only [Table.answer, changed, Table.add, prepared, Except.map]
  rfl

/-- Updating with an event that cannot be prepared answers with why and keeps the table. -/
theorem answer_update_of_error (prepared : prepare e = .error cause)
    : Table.answer fresh (.update e) t = (.error cause, t) := by
  simp only [Table.answer, changed, Table.update, prepared, Except.bind, Except.map]
  rfl

/-- Updating a known event replaces it by the prepared one under its old owner. -/
theorem answer_update_of_ok {stored old : Event} (prepared : prepare e = .ok stored)
    (found : t.find? stored.id = some old)
    : Table.answer fresh (.update e) t
      = (.ok (), t.replace { stored with owner := old.owner }) := by
  simp only [Table.answer, changed, Table.update, prepared, Except.bind, found, Except.map]
  rfl

/-- The first unused output is one that the table accepts, since it is unused. -/
theorem accepts_of_firstUnused? (first : t.firstUnused? drawn = some fresh)
    : t.accepts fresh c := by
  cases c with
  | add e => simpa [accepts, contains_eq_isSome] using (of_firstUnused? first).2
  | _ => rfl

/-- What a store answers is what its table answers with an identifier that it can accept, or a
refusal that leaves the table as it is. -/
theorem of_reply? {answer : c.Answer} (replied : t.reply? drawn c = some (answer, after))
    : (∃ fresh, t.accepts fresh c ∧ Table.answer fresh c t = (answer, after))
      ∨ (∃ cause, answer = .error cause) ∧ after = t := by
  unfold reply? at replied
  split at replied
  · obtain ⟨fresh, first, eq⟩ := Option.map_eq_some_iff.mp replied
    exact .inl ⟨fresh, accepts_of_firstUnused? first, eq⟩
  · rename_i plain
    have eq : Table.answer .nil c t = (answer, after) := Option.some.inj replied
    cases c with
    | add e =>
        cases prepared : prepare e with
        | ok stored => simp [Call.files, prepared, Except.isOk, Except.toBool] at plain
        | error cause =>
            rw [answer_add_of_error prepared] at eq
            cases eq
            exact .inr ⟨⟨cause, rfl⟩, rfl⟩
    | _ => exact .inl ⟨.nil, rfl, eq⟩

/-- A reply leaves a stored table stored: it is an answer with an accepted identifier, or nothing
happened. -/
theorem Stored.reply? {answer : c.Answer} (h : t.Stored)
    (replied : t.reply? drawn c = some (answer, after))
    : after.Stored := by
  rcases of_reply? replied with ⟨fresh, accepted, eq⟩ | ⟨-, rfl⟩
  · have next := h.answer accepted
    rwa [eq] at next
  · exact h

theorem Stored.empty : empty.Stored :=
  ⟨.empty, fun found => by cases found⟩

/-- One use leaves a stored table stored. -/
theorem Stored.use (h : t.Stored) (act : Use) : (t.use act).Stored := by
  cases act with
  | clear => exact .empty
  | call drawn c =>
      cases replied : t.reply? drawn c with
      | none => simpa [Table.use, replied] using h
      | some result =>
          rw [use_call replied]
          exact h.reply? replied

/-- Storable events are left by any uses, by induction on them. -/
theorem Stored.through (h : t.Stored) (uses : List Use) : (t.through uses).Stored := by
  induction uses generalizing t with
  | nil => exact h
  | cons act uses ih => exact ih (h.use act)

end Table

end Almanac.Store
