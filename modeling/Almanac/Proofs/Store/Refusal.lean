import Almanac.Store.Storage

/-! What stores refuse before they look at events or ask a database.
A call is refused for what it is given, by a table and by a database beyond reach alike. Every other
call gets as far as the database and finds it out of reach.
-/

namespace Almanac

open Time Query Store

-------------------------------------------------------------------------------
-- Malformed conditions
-------------------------------------------------------------------------------

namespace Query

variable {conditions : List Condition} {cause : QueryError}

/-- The first of the conditions whose operand has another shape than its field and operator ask
for. -/
def FirstMalformed (conditions : List Condition) (first : Condition) : Prop :=
  ∃ before after, conditions = before ++ first :: after
    ∧ (∀ c ∈ before, c.operand.shape = c.expected) ∧ first.operand.shape ≠ first.expected

/-- Why a condition is refused. -/
def Condition.complaint (c : Condition) : QueryError :=
  .incomparable c.field c.operator c.operand.shape

/-- Among no conditions there is no malformed one. -/
theorem FirstMalformed.not_nil {first : Condition} : ¬FirstMalformed [] first := by
  rintro ⟨before, after, split, -⟩
  cases before <;> cases split

/-- A malformed condition in front is the first one. -/
theorem FirstMalformed.head {c : Condition} (malformed : c.operand.shape ≠ c.expected)
    : FirstMalformed (c :: conditions) c :=
  ⟨[], conditions, rfl, fun _ member => absurd member List.not_mem_nil, malformed⟩

/-- Among conditions of which the first is malformed, no other one is the first malformed one. -/
theorem FirstMalformed.eq_head {c first : Condition} (malformed : c.operand.shape ≠ c.expected)
    (found : FirstMalformed (c :: conditions) first)
    : first = c := by
  obtain ⟨before, after, split, formed, -⟩ := found
  cases before with
  | nil =>
      cases split
      rfl
  | cons head before =>
      cases split
      exact absurd (formed c List.mem_cons_self) malformed

/-- A well-formed condition in front does not change which one is the first malformed. -/
theorem firstMalformed_cons_iff {c first : Condition} (formed : c.operand.shape = c.expected)
    : FirstMalformed (c :: conditions) first ↔ FirstMalformed conditions first := by
  constructor
  · rintro ⟨before, after, split, others, malformed⟩
    cases before with
    | nil =>
        cases split
        exact absurd formed malformed
    | cons head before =>
        cases split
        exact ⟨before, after, rfl, fun d member => others d (List.mem_cons_of_mem _ member),
          malformed⟩
  · rintro ⟨before, after, rfl, others, malformed⟩
    exact ⟨c :: before, after, rfl, List.forall_mem_cons.mpr ⟨formed, others⟩, malformed⟩

/-- Conditions are refused for the first malformed one among them, by induction on them. -/
theorem validateAll_eq_error_iff
    : validateAll conditions = .error cause
      ↔ ∃ first, FirstMalformed conditions first ∧ first.complaint = cause := by
  induction conditions with
  | nil => simp [validateAll, FirstMalformed.not_nil]
  | cons c conditions ih =>
      by_cases formed : c.operand.shape = c.expected
      · simpa [validateAll, Condition.validate, formed, Except.bind, firstMalformed_cons_iff]
          using ih
      · have refused : validateAll (c :: conditions) = .error c.complaint := by
          simp [validateAll, Condition.validate, formed, Except.bind, Condition.complaint]
        rw [refused, Except.error.injEq]
        constructor
        · exact fun same => ⟨c, .head formed, same⟩
        · rintro ⟨first, found, same⟩
          rwa [found.eq_head formed] at same

end Query

-------------------------------------------------------------------------------
-- Refused calls
-------------------------------------------------------------------------------

/-- Whether an error is about what a call was given, whatever is stored. -/
def StoreError.IsRefusal : StoreError → Prop
  | .outOfRange _ _ | .emptyFilter | .query _ => True
  | .notFound _ | .timeout _ | .connection _ | .database _ | .invalidConfig _ => False

namespace Store

variable {c : Call} {cause : StoreError} {e : Event} {conditions : List Condition}

/-- Why a call is refused for what it is given: the instant of its event's notification is out of
range, its bulk deletion has no condition, or one of its conditions is malformed. -/
inductive Call.Refused : Call → StoreError → Prop where
  | outOfRange {c : Call} {e : Event} (given : c = .add e ∨ c = .update e)
    (unreachable : e.normalize.notifyAt? = none)
    : Refused c (.outOfRange e.normalize.lead e.normalize.start)
  | emptyFilter : Refused (.deleteWhere []) .emptyFilter
  | malformed {c : Call} {conditions : List Condition} {first : Condition}
    (given : (∃ keys, c = .query conditions keys) ∨ c = .deleteWhere conditions)
    (found : FirstMalformed conditions first)
    : Refused c (.query first.complaint)

/-- Preparing fails exactly where the normalised lead leads out of range. -/
theorem prepare_eq_error_iff
    : prepare e = .error cause
      ↔ e.normalize.notifyAt? = none
        ∧ .outOfRange e.normalize.lead e.normalize.start = cause := by
  cases reached : e.normalize.notifyAt? <;> simp [prepare, reached]

/-- A call with an event is refused just when the event cannot be prepared. -/
theorem Call.refused_iff_of_event (given : c = .add e ∨ c = .update e)
    : c.Refused cause ↔ prepare e = .error cause := by
  rw [prepare_eq_error_iff]
  constructor
  · intro refused
    cases refused with
    | outOfRange other unreachable =>
        obtain rfl : e = _ := by rcases given with rfl | rfl <;> simpa using other
        exact ⟨unreachable, rfl⟩
    | emptyFilter => simp at given
    | malformed other => rcases given with rfl | rfl <;> simp at other
  · rintro ⟨unreachable, rfl⟩
    exact .outOfRange given unreachable

/-- An error after a change of errors stems from one before. -/
theorem mapError_eq_error_iff {ε α : Type} {answer : Except ε α} {f : ε → StoreError}
    : answer.mapError f = .error cause ↔ ∃ why, answer = .error why ∧ f why = cause := by
  cases answer with
  | ok _ => exact ⟨nofun, fun ⟨_, same, _⟩ => nomatch same⟩
  | error why =>
      constructor
      · exact fun same => ⟨why, rfl, Except.error.inj same⟩
      · rintro ⟨_, ⟨⟩, rfl⟩
        rfl

/-- A query is refused for its first malformed condition, with the complaint of that one. -/
theorem mapError_validateAll_eq_error_iff
    : (validateAll conditions).mapError .query = .error cause
      ↔ ∃ first, FirstMalformed conditions first ∧ .query first.complaint = cause := by
  rw [mapError_eq_error_iff]
  constructor
  · rintro ⟨why, refused, rfl⟩
    obtain ⟨first, found, rfl⟩ := validateAll_eq_error_iff.mp refused
    exact ⟨first, found, rfl⟩
  · rintro ⟨first, found, rfl⟩
    exact ⟨_, validateAll_eq_error_iff.mpr ⟨first, found, rfl⟩, rfl⟩

/-- A query is refused just when one of its conditions is. -/
theorem Call.refused_query_iff {keys : List SortKey}
    : (Call.query conditions keys).Refused cause
      ↔ (validateAll conditions).mapError .query = .error cause := by
  rw [mapError_validateAll_eq_error_iff]
  constructor
  · intro refused
    cases refused with
    | outOfRange given => simp at given
    | malformed given found =>
        obtain rfl : conditions = _ := by simpa using given
        exact ⟨_, found, rfl⟩
  · rintro ⟨first, found, rfl⟩
    exact .malformed (.inl ⟨keys, rfl⟩) found

/-- A bulk deletion is refused just when its filter is. -/
theorem Call.refused_deleteWhere_iff
    : (Call.deleteWhere conditions).Refused cause
      ↔ Table.checkFilter conditions = .error cause := by
  constructor
  · intro refused
    cases refused with
    | outOfRange given => simp at given
    | emptyFilter => rfl
    | malformed given found =>
        obtain rfl : conditions = _ := by simpa using given
        have some : conditions ≠ [] := fun none => FirstMalformed.not_nil (none ▸ found)
        simpa [Table.checkFilter, some] using mapError_validateAll_eq_error_iff.mpr ⟨_, found, rfl⟩
  · intro refused
    cases conditions with
    | nil =>
        obtain rfl : .emptyFilter = cause := by simpa [Table.checkFilter] using refused
        exact .emptyFilter
    | cons head rest =>
        obtain ⟨first, found, rfl⟩ := mapError_validateAll_eq_error_iff.mp refused
        exact .malformed (.inr rfl) found

/-- A call that is given neither an event nor conditions is never refused. -/
theorem Call.not_refused
    (event : ∀ e, c ≠ .add e ∧ c ≠ .update e)
    (filter : ∀ conditions, c ≠ .deleteWhere conditions ∧ ∀ keys, c ≠ .query conditions keys)
    : ¬c.Refused cause := by
  intro refused
  cases refused with
  | outOfRange given => exact given.elim (event _).1 (event _).2
  | emptyFilter => exact (filter []).1 rfl
  | malformed given => exact given.elim (fun ⟨keys, eq⟩ => (filter _).2 keys eq) (filter _).1

-------------------------------------------------------------------------------
-- Tables and databases
-------------------------------------------------------------------------------

/-- A change of answers keeps the errors. -/
theorem map_eq_error_iff {α β : Type} {answer : Except StoreError α} {f : α → β}
    : answer.map f = .error cause ↔ answer = .error cause := by
  cases answer <;> simp [Except.map]

/-- A call is refused before the database is asked just for what it is given. -/
theorem Call.beforeDatabase_eq_error_iff (c : Call)
    : c.beforeDatabase = .error cause ↔ c.Refused cause := by
  cases c with
  | add e => rw [refused_iff_of_event (.inl rfl), beforeDatabase, map_eq_error_iff]
  | update e => rw [refused_iff_of_event (.inr rfl), beforeDatabase, map_eq_error_iff]
  | query conditions keys =>
      rw [refused_query_iff, beforeDatabase, map_eq_error_iff, Statement.ofQuery]
      cases validateAll conditions <;> simp [mapError_eq_error_iff]
  | deleteWhere conditions =>
      rw [refused_deleteWhere_iff, beforeDatabase, map_eq_error_iff, Statement.ofDeletion,
        Table.checkFilter]
      cases validateAll conditions <;> split <;> simp [mapError_eq_error_iff]
  | delete _ | get _ | mark _ _ | due _ =>
      exact iff_of_false (by simp [beforeDatabase]) (not_refused (by simp) (by simp))

/-- Only marking nothing is answered without asking the database. -/
theorem Call.eq_mark_of_beforeDatabase {result : c.Result}
    (done : c.beforeDatabase = .ok (some result))
    : ∃ moment, c = .mark [] moment := by
  cases c with
  | mark ids moment =>
      cases ids with
      | nil => exact ⟨moment, rfl⟩
      | cons id ids => simp [beforeDatabase] at done
  | add e => cases prepared : prepare e <;> simp [beforeDatabase, prepared, Except.map] at done
  | update e => cases prepared : prepare e <;> simp [beforeDatabase, prepared, Except.map] at done
  | query conditions keys =>
      cases built : Statement.ofQuery conditions keys <;>
        simp [beforeDatabase, built, Except.map] at done
  | deleteWhere conditions =>
      cases built : Statement.ofDeletion conditions <;>
        simp [beforeDatabase, built, Except.map] at done
  | delete _ | get _ | due _ => simp [beforeDatabase] at done

/-- A call that is not refused gets as far as the database, unless it has nothing to do. -/
theorem Call.beforeDatabase_of_not_refused (accepted : ∀ cause, ¬c.Refused cause)
    (busy : ∀ moment, c ≠ .mark [] moment)
    : c.beforeDatabase = .ok none := by
  cases outcome : c.beforeDatabase with
  | error cause => exact absurd (c.beforeDatabase_eq_error_iff.mp outcome) (accepted cause)
  | ok result =>
      cases result with
      | none => rfl
      | some result =>
          obtain ⟨moment, eq⟩ := eq_mark_of_beforeDatabase outcome
          exact absurd eq (busy moment)

namespace Table

variable {t : Table} {fresh : Uuid}

/-- Splitting the table off keeps the errors. -/
theorem changed_eq_error_iff {α : Type} {answer : Except StoreError (α × Table)}
    : (t.changed answer).1 = .error cause ↔ answer = .error cause := by
  cases answer <;> simp [changed]

/-- The one other error of a table is that no event has the identifier. -/
theorem update_eq_error_iff (refusal : cause.IsRefusal)
    : t.update e = .error cause ↔ prepare e = .error cause := by
  cases prepared : prepare e with
  | error why => simp [update, prepared, Except.bind]
  | ok stored =>
      cases found : t.find? stored.id with
      | some old => simp [update, prepared, Except.bind, found]
      | none =>
          simp only [update, prepared, Except.bind, found, Except.error.injEq, reduceCtorEq,
            iff_false]
          rintro rfl
          exact refusal

/-- A deletion fails for what is stored and not for what it is given. -/
theorem not_refusal_of_delete {id : Uuid} (refused : t.delete id = .error cause)
    : ¬cause.IsRefusal := by
  unfold delete at refused
  split at refused
  · cases refused
  · cases refused
    exact not_false

/-- A lookup fails for what is stored and not for what it is given. -/
theorem not_refusal_of_get {id : Uuid} (refused : t.get id = .error cause)
    : ¬cause.IsRefusal := by
  unfold get at refused
  split at refused
  · cases refused
  · cases refused
    exact not_false

/-- A query of a table is refused exactly as its conditions are. -/
theorem query_eq_error_iff {keys : List SortKey}
    : t.query conditions keys = .error cause
      ↔ (validateAll conditions).mapError .query = .error cause := by
  cases valid : validateAll conditions <;>
    simp [query, select, valid, Except.map, mapError_eq_error_iff]

/-- A table refuses a call just for what it is given, whatever is stored. -/
theorem answer_eq_error_iff (c : Call) (refusal : cause.IsRefusal)
    : (Table.answer fresh c t).1 = .error cause ↔ c.Refused cause := by
  cases c with
  | add e =>
      rw [Call.refused_iff_of_event (.inl rfl)]
      exact changed_eq_error_iff.trans map_eq_error_iff
  | update e =>
      rw [Call.refused_iff_of_event (.inr rfl), ← update_eq_error_iff refusal]
      exact changed_eq_error_iff.trans map_eq_error_iff
  | query conditions keys =>
      rw [Call.refused_query_iff]
      exact query_eq_error_iff
  | deleteWhere conditions =>
      rw [Call.refused_deleteWhere_iff]
      exact changed_eq_error_iff.trans map_eq_error_iff
  | delete id =>
      refine iff_of_false (fun refused => ?_) (Call.not_refused (by simp) (by simp))
      exact not_refusal_of_delete (map_eq_error_iff.mp (changed_eq_error_iff.mp refused)) refusal
  | get id =>
      exact iff_of_false (fun refused => not_refusal_of_get refused refusal)
        (Call.not_refused (by simp) (by simp))
  | mark _ _ | due _ => exact iff_of_false nofun (Call.not_refused (by simp) (by simp))

end Table

-------------------------------------------------------------------------------
-- Databases
-------------------------------------------------------------------------------

/-- An error of the client is never about what the call was given. -/
theorem DatabaseError.not_isRefusal_toStoreError (e : DatabaseError)
    : ¬e.toStoreError.IsRefusal := by
  cases e <;> exact not_false

/-- Neither is that a request took too long. -/
theorem Fate.not_isRefusal_of_timed {α : Type} {limit : Delay} {fate : Fate α}
    (failed : fate.timed limit = .error cause)
    : ¬cause.IsRefusal := by
  simp only [Fate.timed] at failed
  split at failed
  case h_1 => cases failed
  case h_2 e _ =>
      cases failed
      exact e.not_isRefusal_toStoreError
  case h_3 =>
      cases failed
      exact not_false

/-- A missing row is no refusal of what was given. -/
theorem Call.not_isRefusal_of_presentRow {α : Type} {id : Uuid} {row : Option α}
    (absent : presentRow id row = .error cause)
    : ¬cause.IsRefusal := by
  cases row with
  | some _ => cases absent
  | none =>
      cases absent
      exact not_false

/-- What was fetched can only show that no event has the identifier. -/
theorem Call.not_isRefusal_of_ofRows {c : Call} {rows : c.Rows}
    (refused : c.ofRows rows = .error cause)
    : ¬cause.IsRefusal := by
  cases c with
  | update _ | delete _ | get _ => exact not_isRefusal_of_presentRow refused
  | add _ | query _ _ | deleteWhere _ | mark _ _ | due _ => cases refused

namespace Database

variable {db : Database}

/-- A database refuses a call just for what it is given, however the client's request ends. -/
theorem answer_eq_error_iff (db : Database) (c : Call) (refusal : cause.IsRefusal)
    : db.answer c = .error cause ↔ c.Refused cause := by
  rw [← c.beforeDatabase_eq_error_iff, answer]
  cases c.beforeDatabase with
  | error why => constructor <;> exact fun same => by cases same; rfl
  | ok result =>
      cases result with
      | some result => exact iff_of_false nofun nofun
      | none =>
          refine iff_of_false (fun refused => ?_) nofun
          cases ended : (db.request c).timed db.limit with
          | error why =>
              simp only [ended, Except.bind] at refused
              cases refused
              exact Fate.not_isRefusal_of_timed ended refusal
          | ok rows =>
              simp only [ended, Except.bind] at refused
              exact Call.not_isRefusal_of_ofRows refused refusal

end Database

/-- Whether an error of the client is that no connection can be had, for the line, for its
encryption or for the pool. -/
def DatabaseError.IsUnconnected : DatabaseError → Prop
  | .io _ | .tls _ | .poolTimedOut | .poolClosed => True
  | .other _ => False

/-- Whether no connection to a database can be had, by how acquiring one ends. A server that answers
is within reach, also when it turns the client away. -/
structure Database.BeyondReach (db : Database) (acquiring : Fate Unit) : Prop where
  /-- The client acquires a connection before it sends a request, which fails as acquiring does. -/
  acquires
    : ∀ (c : Call) (outcome : Except DatabaseError c.Rows),
        (db.request c).within db.limit = some outcome →
        ∃ acquired, acquiring.within db.limit = some acquired
          ∧ ∀ e, acquired = .error e → outcome = .error e
  /-- Acquiring fails for want of a connection, if it ends in time. -/
  unconnected
    : ∀ acquired, acquiring.within db.limit = some acquired →
        ∃ e : DatabaseError, acquired = .error e ∧ e.IsUnconnected

/-- Errors for want of a connection are told as such. -/
theorem DatabaseError.IsUnconnected.toStoreError {e : DatabaseError} (unconnected : e.IsUnconnected)
    : e.toStoreError = .connection e.message := by
  cases e with
  | other text => exact absurd unconnected not_false
  | io _ | tls _ | poolTimedOut | poolClosed => rfl

/-- How a call ends that gets as far as a database beyond reach: with the error of acquiring a
connection, or when the time is up. -/
inductive Database.Unanswered (db : Database) (acquiring : Fate Unit) (c : Call) : Prop where
  | connection {e : DatabaseError} (failed : acquiring.within db.limit = some (.error e))
    (ended : (db.request c).within db.limit = some (.error e))
    (answered : db.answer c = .error (.connection e.message))
  | timeout (pending : (db.request c).within db.limit = none)
    (answered : db.answer c = .error (.timeout db.limit))

/-- A call that is not refused and has something to do stays unanswered, by cases on how the
client's request ends. -/
theorem Database.BeyondReach.unanswered {db : Database} {acquiring : Fate Unit}
    (h : db.BeyondReach acquiring) (accepted : ∀ cause, ¬c.Refused cause)
    (busy : ∀ moment, c ≠ .mark [] moment)
    : db.Unanswered acquiring c := by
  have asked : db.answer c = ((db.request c).timed db.limit).bind c.ofRows := by
    rw [Database.answer, c.beforeDatabase_of_not_refused accepted busy]
  cases ended : (db.request c).within db.limit with
  | none => exact .timeout ended (by rw [asked, Fate.timed, ended]; rfl)
  | some outcome =>
      obtain ⟨acquired, acquired_eq, fails⟩ := h.acquires c outcome ended
      obtain ⟨e, rfl, unconnected⟩ := h.unconnected acquired acquired_eq
      obtain rfl := fails e rfl
      refine .connection acquired_eq ended ?_
      rw [asked, Fate.timed, ended, ← unconnected.toStoreError]
      rfl

-------------------------------------------------------------------------------
-- Refusals are alike
-------------------------------------------------------------------------------

/-- A table and a database refuse the same calls, for the same reasons. -/
structure RefusesAlike (memory database : Storage) : Prop where
  /-- They refuse a call with the same error, or both do not. -/
  alike
    : ∀ (c : Call) (cause : StoreError), cause.IsRefusal →
        ((Storage.answer c memory).1 = .error cause ↔ (Storage.answer c database).1 = .error cause)
  /-- What is refused, and with which error, is decided by what the call is given. -/
  decided
    : ∀ (c : Call) (cause : StoreError), cause.IsRefusal →
        ((Storage.answer c memory).1 = .error cause ↔ c.Refused cause)
  /-- Neither has anything to do when no identifier is given to be marked. -/
  nothingToMark
    : ∀ moment, (Storage.answer (.mark [] moment) memory).1 = .ok (0 : Nat)
        ∧ (Storage.answer (.mark [] moment) database).1 = .ok (0 : Nat)

namespace Storage

/-- Storage without outages asks its database. -/
theorem answer_database (c : Call) (db : Database) (issued : Nat) (waited : Delay)
    : (answer c { backend := .database db, issued, waited }).1 = db.answer c := rfl

/-- Whatever a table stores and whatever the client of a database makes of its requests, they refuse
the same calls. Every other call finds a database beyond reach unanswered, unless no identifier is
given to be marked. -/
theorem refusesAlike (t : Table) (db : Database) (issued : Nat) (waited : Delay)
    : RefusesAlike { backend := .table t, issued, waited }
        { backend := .database db, issued, waited }
      ∧ ∀ acquiring, db.BeyondReach acquiring →
          ∀ c : Call, (∀ cause, ¬c.Refused cause) → (∀ moment, c ≠ .mark [] moment) →
            db.Unanswered acquiring c
            ∧ (answer c { backend := .database db, issued, waited }).1 = db.answer c := by
  constructor
  · constructor
    case alike =>
      intro c cause refusal
      rw [answer_database, db.answer_eq_error_iff c refusal]
      exact Table.answer_eq_error_iff c refusal
    case decided => exact fun c cause refusal => Table.answer_eq_error_iff c refusal
    case nothingToMark => exact fun moment => ⟨rfl, rfl⟩
  · exact fun acquiring beyondReach c accepted busy =>
      ⟨beyondReach.unanswered accepted busy, rfl⟩

/-- How acquiring a connection ends over a line that breaks after a second. -/
def breakingLine : Fate Unit :=
  some (.ofSeconds 1, .error (.io "Connection reset by peer (os error 104)"))

/-- A database over that line. Searches for due events outlast the time they may take, and lookups
never end. -/
def brokenOff : Database :=
  { Database.silent (.ofSeconds 3) with
    request := fun
      | .get _ => none
      | .due _ => some (.ofSeconds 4, .error .poolTimedOut)
      | _ => some (.ofSeconds 1, .error (.io "Connection reset by peer (os error 104)")) }

/-- That database is beyond reach: whatever request ends in time ends as acquiring does, with the
line broken off. -/
theorem brokenOff_beyondReach : brokenOff.BeyondReach breakingLine where
  acquires c outcome ended := by
    refine ⟨_, rfl, fun e failed => ?_⟩
    cases failed
    cases c with
    | get id => cases ended
    | due now => cases ended
    | _ =>
        cases ended
        rfl
  unconnected acquired ended := by
    cases ended
    exact ⟨_, rfl, trivial⟩

/-- Its deletions fail with the line and its lookups when their time is up, and a bulk deletion
without a condition is refused as by any table. -/
theorem refusesAlike_brokenOff
    : (answer (.delete .nil) { backend := .database brokenOff }).1
        = .error (.connection
          "error communicating with database: Connection reset by peer (os error 104)")
      ∧ (answer (.get .nil) { backend := .database brokenOff }).1
        = .error (.timeout (.ofSeconds 3))
      ∧ (answer (.deleteWhere []) { backend := .database brokenOff }).1 = .error .emptyFilter := by
  obtain ⟨same, unanswered⟩ := refusesAlike .empty brokenOff 0 ⟨0⟩
  have reached := unanswered breakingLine brokenOff_beyondReach
  refine ⟨?_, ?_, (same.alike (.deleteWhere []) .emptyFilter trivial).mp rfl⟩
  · obtain ⟨outcome, answered⟩ := reached (.delete .nil)
      (fun _ => Call.not_refused (by simp) (by simp)) (by simp)
    cases outcome with
    | connection failed ended found =>
        cases failed
        exact answered.trans found
    | timeout pending => cases pending
  · obtain ⟨outcome, answered⟩ := reached (.get .nil)
      (fun _ => Call.not_refused (by simp) (by simp)) (by simp)
    cases outcome with
    | connection failed ended => cases ended
    | timeout pending found => exact answered.trans found

end Storage

end Store

end Almanac
