import Almanac.Proofs.Store.Narrowing
import Almanac.Proofs.Store.Usage

/-! Bulk deletions, and the queries with the same conditions.
A deletion keeps what does not meet its conditions, a query lists what does. So a deletion removes
what the query lists and nothing else, and is refused when the query is.
-/

namespace Almanac.Store.Table

open Query

variable {t : Table} {fresh : Uuid} {conditions : List Condition} {cause : StoreError}

-------------------------------------------------------------------------------
-- One deletion
-------------------------------------------------------------------------------

theorem checkFilter_eq (nonempty : conditions ≠ [])
    : checkFilter conditions = (validateAll conditions).mapError .query := by
  rw [checkFilter, List.isEmpty_eq_false_iff.mpr nonempty]
  rfl

/-- A deletion with conditions is refused for the reason that the query is. -/
theorem answer_deleteWhere_eq_error_iff (nonempty : conditions ≠ []) (keys : List SortKey)
    : (Table.answer fresh (.deleteWhere conditions) t).1 = .error cause
      ↔ t.query conditions keys = .error cause := by
  rw [query_eq_error_iff, ← checkFilter_eq nonempty]
  exact changed_eq_error_iff.trans map_eq_error_iff

/-- What meets valid conditions is removed and counted. -/
theorem answer_deleteWhere_of_valid (nonempty : conditions ≠ [])
    (valid : validateAll conditions = .ok ())
    : Table.answer fresh (.deleteWhere conditions) t
      = (.ok (t.events.filter (holdsAll conditions)).length,
          ⟨t.events.filter fun e => !holdsAll conditions e⟩) := by
  have counted : t.size - (t.events.filter fun e => !holdsAll conditions e).length
      = (t.events.filter (holdsAll conditions)).length := by
    have parts := List.length_eq_length_filter_add (l := t.events) (holdsAll conditions)
    rw [size]
    omega
  simp only [Table.answer, changed, deleteWhere, checkFilter_eq nonempty, valid, Except.mapError,
    Except.map, counted]
  rfl

-------------------------------------------------------------------------------
-- Deletions and queries
-------------------------------------------------------------------------------

/-- A table after a deletion: everything is there but what was listed before, and nothing that meets
the conditions is left to be listed or deleted. -/
structure Cleared (t : Table) (conditions : List Condition) (keys : List SortKey)
    (found : List Event) (after : Table) : Prop where
  removed : after.events = t.events.filter (· ∉ found)
  nothingListed : after.query conditions keys = .ok []
  nothingDeleted
    : ∀ fresh, Table.answer fresh (.deleteWhere conditions) after = (.ok (0 : Nat), after)

/-- How a deletion stands to the query with the same conditions. -/
structure DeletesListed (t : Table) (conditions : List Condition) (keys : List SortKey) : Prop where
  /-- The deletion is refused when the query is, for the same reason. -/
  refused
    : ∀ fresh cause, (Table.answer fresh (.deleteWhere conditions) t).1 = .error cause
        ↔ t.query conditions keys = .error cause
  /-- The reason is a condition, and nothing changes. -/
  unchanged
    : ∀ fresh cause, (Table.answer fresh (.deleteWhere conditions) t).1 = .error cause →
        (Table.answer fresh (.deleteWhere conditions) t).2 = t ∧ ∃ why, cause = .query why
  /-- Else what the query lists is counted and removed. -/
  deleted
    : ∀ found, t.query conditions keys = .ok found →
        ∃ after, Cleared t conditions keys found after
          ∧ ∀ fresh, Table.answer fresh (.deleteWhere conditions) t = (.ok found.length, after)

/-- The events that are kept meet the conditions no more. -/
theorem filter_holdsAll_kept (conditions : List Condition) (events : List Event)
    : (events.filter fun e => !holdsAll conditions e).filter (holdsAll conditions) = [] := by
  rw [List.filter_filter, List.filter_eq_nil_iff]
  simp

/-- What a deletion keeps is what the query does not list. -/
theorem cleared_of_valid (nonempty : conditions ≠ []) (valid : validateAll conditions = .ok ())
    (keys : List SortKey)
    : Cleared t conditions keys (sortBy keys (t.events.filter (holdsAll conditions)))
        ⟨t.events.filter fun e => !holdsAll conditions e⟩ where
  removed := by
    refine List.filter_congr fun e present => ?_
    have listed : e ∈ sortBy keys (t.events.filter (holdsAll conditions))
        ↔ holdsAll conditions e := by
      rw [(sortBy_perm _ _).mem_iff, List.mem_filter, and_iff_right present]
    rw [Bool.eq_iff_iff, decide_eq_true_iff, listed, Bool.not_eq_true, Bool.not_eq_true']
  nothingListed := by
    rw [query_of_valid valid, filter_holdsAll_kept, (sortBy_perm keys []).eq_nil]
  nothingDeleted fresh := by
    rw [answer_deleteWhere_of_valid nonempty valid, filter_holdsAll_kept, List.filter_filter]
    simp

theorem validateAll_of_query {keys : List SortKey} {found : List Event}
    (listed : t.query conditions keys = .ok found)
    : validateAll conditions = .ok () := by
  cases valid : validateAll conditions with
  | ok _ => rfl
  | error why =>
      have refused : t.query conditions keys = .error (.query why) :=
        query_eq_error_iff.mpr (mapError_eq_error_iff.mpr ⟨why, valid, rfl⟩)
      rw [refused] at listed
      cases listed

/-- Deletions remove what queries list, and need a condition. -/
theorem deletes_listed (t : Table) (conditions : List Condition) (keys : List SortKey)
    : (conditions ≠ [] → DeletesListed t conditions keys)
      ∧ ∀ fresh, Table.answer fresh (.deleteWhere []) t = (.error .emptyFilter, t) := by
  refine ⟨fun nonempty => ?_, fun _ => rfl⟩
  have alike (fresh : Uuid) (cause : StoreError)
      : (Table.answer fresh (.deleteWhere conditions) t).1 = .error cause
        ↔ t.query conditions keys = .error cause :=
    answer_deleteWhere_eq_error_iff nonempty keys
  constructor
  case refused => exact alike
  case unchanged =>
    intro fresh cause refused
    obtain ⟨why, -, rfl⟩ :=
      mapError_eq_error_iff.mp (query_eq_error_iff.mp ((alike fresh cause).mp refused))
    exact ⟨(changed_of_error refused).1, why, rfl⟩
  case deleted =>
    intro found listed
    have valid := validateAll_of_query listed
    rw [query_of_valid valid] at listed
    cases listed
    refine ⟨_, cleared_of_valid nonempty valid keys, fun fresh => ?_⟩
    rw [answer_deleteWhere_of_valid nonempty valid, (sortBy_perm _ _).length_eq]

/-- The operas of the season are removed, as they are listed. -/
theorem deletes_listed_operas
    : [Condition.of .title .eq (.one .text "opera")] ≠ []
      ∧ DeletesListed season [.of .title .eq (.one .text "opera")] [⟨.id, .descending⟩] :=
  ⟨List.cons_ne_nil _ _,
    (deletes_listed season [.of .title .eq (.one .text "opera")] [⟨.id, .descending⟩]).1
      (List.cons_ne_nil _ _)⟩

end Almanac.Store.Table
