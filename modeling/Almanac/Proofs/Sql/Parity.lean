import Almanac.Proofs.Query.Mismatch
import Almanac.Proofs.Query.Sorting
import Almanac.Proofs.Sql.Meaning
import Almanac.Proofs.Sql.Reading
import Almanac.Store.Table

/-! A table and a database with the same events answer alike. The tests of a statement are true of
the rows that meet its conditions, also where values are unset, and its keys put rows into the one
order that sorting the table's events ends in.
-/

namespace Almanac.Sql

open Query Store

-------------------------------------------------------------------------------
-- Values
-------------------------------------------------------------------------------

/-- Values compare as they do in the table's own queries when texts are under the collation of
bytes. -/
theorem compareValues_eq (context : Context) {bytewise : Bool} {k : Kind}
    (texts : k = .text → bytewise = true) (a b : k.Carrier)
    : compareValues context bytewise k a b = k.compare a b := by
  cases k with
  | identifier => exact Uuid.compareBytes_bytes a b
  | text =>
      rw [texts rfl]
      exact Text.compareBytes_text a b
  | instant => rfl
  | span => rfl

/-- A column whose texts, if it has any, are under the collation of bytes. -/
def Column.Plain (column : Column) : Prop :=
  column.field.kind = .text → column.bytewise = true

theorem plain_columnOf (f : Field) : (columnOf f).Plain :=
  fun text => decide_eq_true text

section Tests

variable {context : Context} {column : Column} {row : Event}

theorem Column.test_eq_yes (plain : column.Plain) {comparison : Comparison}
    {value : column.field.kind.Carrier}
    : column.test context comparison row value = .yes
      ↔ ∃ actual, column.field.value? row = some actual
        ∧ comparison.accepts (column.field.kind.compare actual value) = true := by
  simp only [Column.test, Truth.of_eq_yes, Option.map_eq_some_iff, compareValues_eq context plain]

theorem foldr_or_eq_yes {α : Type} (test : α → Truth) (members : List α)
    : members.foldr (fun member truth => (test member).or truth) .no = .yes
      ↔ ∃ member ∈ members, test member = .yes := by
  induction members with
  | nil => simp
  | cons member members ih => simp [ih]

theorem foldr_and_eq_yes {α : Type} (test : α → Truth) (members : List α)
    : members.foldr (fun member truth => (test member).and truth) .yes = .yes
      ↔ ∀ member ∈ members, test member = .yes := by
  induction members with
  | nil => simp
  | cons member members ih => simp [ih]

-------------------------------------------------------------------------------
-- Conditions
-------------------------------------------------------------------------------

/-- A condition has a truth on a row, and is true exactly when something holds. -/
def Expr.Decides (context : Context) (row : Event) (condition : Expr) (holds : Bool) : Prop :=
  ∃ truth, condition.truth? context row = some truth ∧ (truth = .yes ↔ holds = true)

/-- Two expressions that decide tests decide their conjunction together. -/
theorem Expr.Decides.both {left right : Expr} {p q : Bool}
    (first : left.Decides context row p) (second : right.Decides context row q)
    : (Expr.both left right).Decides context row (p && q) := by
  obtain ⟨l, leftTruth, leftHolds⟩ := first
  obtain ⟨r, rightTruth, rightHolds⟩ := second
  exact ⟨l.and r, by simp [truth?, leftTruth, rightTruth], by simp [leftHolds, rightHolds]⟩

theorem accepts_comparisonOf {operator : Operator} (scalar : operator.takesSet = false)
    (o : Ordering)
    : (comparisonOf operator).accepts o = operator.accepts o := by
  cases operator with
  | isIn => cases scalar
  | notIn => cases scalar
  | _ => rfl

variable {n : Nat} {value : column.field.kind.Carrier} {members : List column.field.kind.Carrier}

/-- A comparison with one value decides whether an event meets the condition. -/
theorem decides_compares (plain : column.Plain) {operator : Operator}
    (scalar : operator.takesSet = false)
    (operand : context.operand? n = some (.one column.field.kind value))
    : (Expr.compares column (comparisonOf operator) n).Decides context row
        (Condition.holds ⟨column.field, operator, .one column.field.kind value⟩ row) := by
  have holds : Condition.holds ⟨column.field, operator, .one column.field.kind value⟩ row
      = (column.field.value? row).any fun actual =>
        operator.accepts (column.field.kind.compare actual value) := by
    simp only [Condition.holds, Operand.compare?, dif_pos]
    cases column.field.value? row with
    | none => rfl
    | some actual =>
        cases operator with
        | isIn => cases scalar
        | notIn => cases scalar
        | _ => rfl
  refine ⟨column.test context (comparisonOf operator) row value, ?_, ?_⟩
  · simp [Expr.truth?, operand, value?]
  · rw [Column.test_eq_yes plain, holds]
    simp [accepts_comparisonOf scalar, Option.any_eq_true]

theorem holds_isIn
    : Condition.holds ⟨column.field, .isIn, .set column.field.kind members⟩ row = true
      ↔ ∃ actual, column.field.value? row = some actual ∧ actual ∈ members := by
  simp only [Condition.holds, Operand.contains, dif_pos]
  cases column.field.value? row <;> simp

theorem holds_notIn
    : Condition.holds ⟨column.field, .notIn, .set column.field.kind members⟩ row = true
      ↔ ∃ actual, column.field.value? row = some actual ∧ actual ∉ members := by
  simp only [Condition.holds, Operand.contains, dif_pos]
  cases column.field.value? row <;> simp

/-- A test for a member decides whether an event meets the condition. -/
theorem decides_any (plain : column.Plain)
    (operand : context.operand? n = some (.set column.field.kind members))
    : (Expr.any column .equal n).Decides context row
        (Condition.holds ⟨column.field, .isIn, .set column.field.kind members⟩ row) := by
  refine ⟨members.foldr
    (fun member truth => (column.test context .equal row member).or truth) .no, ?_, ?_⟩
  · simp [Expr.truth?, operand, members?]
  · rw [foldr_or_eq_yes, holds_isIn]
    simp only [Column.test_eq_yes plain, Comparison.accepts, decide_eq_true_eq,
      Kind.compare_eq_eq_iff]
    constructor
    · rintro ⟨_, mem, actual, set, rfl⟩
      exact ⟨actual, set, mem⟩
    · rintro ⟨actual, set, mem⟩
      exact ⟨actual, mem, actual, set, rfl⟩

/-- A test for no member is true of a column that is set to another value, and of any column when
there is no member. -/
theorem truth?_all (row : Event) (plain : column.Plain)
    (operand : context.operand? n = some (.set column.field.kind members))
    : ∃ truth, (Expr.all column .different n).truth? context row = some truth
      ∧ (truth = .yes
        ↔ ∀ member ∈ members,
            ∃ actual, column.field.value? row = some actual ∧ actual ≠ member) := by
  refine ⟨members.foldr
    (fun member truth => (column.test context .different row member).and truth) .yes, ?_, ?_⟩
  · simp [Expr.truth?, operand, members?]
  · simp only [foldr_and_eq_yes, Column.test_eq_yes plain, Comparison.accepts, decide_eq_true_eq,
      ne_eq, Kind.compare_eq_eq_iff]

/-- A test for no member decides whether an event meets the condition when its column is set. -/
theorem decides_all (plain : column.Plain) (set : (column.field.value? row).isSome)
    (operand : context.operand? n = some (.set column.field.kind members))
    : (Expr.all column .different n).Decides context row
        (Condition.holds ⟨column.field, .notIn, .set column.field.kind members⟩ row) := by
  obtain ⟨truth, all, differs⟩ := truth?_all row plain operand
  obtain ⟨actual, actually⟩ := Option.isSome_iff_exists.mp set
  refine ⟨truth, all, ?_⟩
  rw [differs, holds_notIn]
  simp only [actually, Option.some.injEq, exists_eq_left']
  constructor
  · intro differs mem
    exact differs actual mem rfl
  · rintro absent member mem rfl
    exact absent mem

/-- The same decides it for every column that is asked for a value first. An unset one would pass
the comparison with an empty set. -/
theorem decides_isNotNull_all (plain : column.Plain)
    (operand : context.operand? n = some (.set column.field.kind members))
    : (Expr.both (.isNotNull column) (.all column .different n)).Decides context row
        (Condition.holds ⟨column.field, .notIn, .set column.field.kind members⟩ row) := by
  have asked : (Expr.isNotNull column).Decides context row (column.field.value? row).isSome :=
    ⟨_, rfl, by rw [Truth.of_eq_yes, Option.some.injEq]⟩
  cases set : (column.field.value? row).isSome with
  | true =>
      have both := asked.both (decides_all plain set operand)
      rwa [set, Bool.true_and] at both
  | false =>
      obtain ⟨truth, all, -⟩ := truth?_all row plain operand
      -- The comparison may well be true here, but the question for a value is not.
      have unset : column.field.value? row = none := by simpa using set
      have fails : Condition.holds ⟨column.field, .notIn, .set column.field.kind members⟩ row
          = false := by
        simp only [Condition.holds, unset]
      have both := asked.both ⟨truth, all, (decide_eq_true_iff (p := truth = .yes)).symm⟩
      rwa [set, Bool.false_and, ← fails] at both

end Tests

/-- The test for absence from a set asks columns for a value first where they may be unset. -/
theorem decides_notIn {context : Context} {field : Field} {members : List field.kind.Carrier}
    {n : Nat} (operand : context.operand? n = some (.set field.kind members)) (row : Event)
    : (testOf n ⟨field, .notIn, .set field.kind members⟩).Decides context row
        (Condition.holds ⟨field, .notIn, .set field.kind members⟩ row) := by
  have plain := plain_columnOf field
  cases nullable : field.isNullable with
  | true =>
      have form : testOf n ⟨field, .notIn, .set field.kind members⟩
          = .both (.isNotNull (columnOf field)) (.all (columnOf field) .different n) := by
        simp [testOf, nullable]
      rw [form]
      exact decides_isNotNull_all plain operand
  | false =>
      have form : testOf n ⟨field, .notIn, .set field.kind members⟩
          = .all (columnOf field) .different n := by
        simp [testOf, nullable]
      rw [form]
      exact decides_all plain (field.isSome_value? row nullable) operand

/-- The test of a valid condition decides whether an event meets it. -/
theorem decides_testOf {context : Context} {c : Condition} {n : Nat}
    (valid : c.validate = .ok ()) (operand : context.operand? n = some c.operand) (row : Event)
    : (testOf n c).Decides context row (c.holds row) := by
  obtain ⟨field, operator, given⟩ := c
  have shape : given.shape = ⟨field.kind, operator.takesSet⟩ := by
    by_contra differs
    simp [Condition.validate, Condition.expected, differs] at valid
  have plain := plain_columnOf field
  cases given with
  | one kind value =>
      obtain ⟨rfl, scalar⟩ := Shape.mk.inj shape
      cases operator with
      | isIn => cases scalar
      | notIn => cases scalar
      | _ => exact decides_compares plain scalar.symm operand
  | set kind members =>
      obtain ⟨rfl, sets⟩ := Shape.mk.inj shape
      cases operator with
      | isIn => exact decides_any plain operand
      | notIn => exact decides_notIn operand row
      | _ => cases sets

/-- A conjunction of tests decides whether an event meets all of their conditions, by induction on
the tests. -/
theorem decides_conjunction {context : Context} (row : Event) (first : Condition × Nat)
    (rest : List (Condition × Nat))
    (each : ∀ entry ∈ first :: rest,
      (testOf entry.2 entry.1).Decides context row (entry.1.holds row))
    : (conjunction (testOf first.2 first.1) (rest.map fun (c, n) => testOf n c)).Decides context row
        (holdsAll ((first :: rest).map Prod.fst) row) := by
  induction rest generalizing first with
  | nil => simpa [conjunction, holdsAll] using each
  | cons next rest ih =>
      have both := (each first List.mem_cons_self).both
        (ih next fun entry mem => each entry (List.mem_cons_of_mem _ mem))
      simpa [conjunction, holdsAll] using both

/-- What the statement of conditions is run with: their operands in turn. -/
def contextOf (collation : String → String → Ordering) (conditions : List Condition) : Context :=
  ⟨collation, conditions.map (·.operand)⟩

/-- The parameter of a condition stands for its operand. -/
theorem operand?_contextOf (collation : String → String → Ordering) {conditions : List Condition}
    {c : Condition} {n : Nat} (mem : (c, n) ∈ conditions.zipIdx 1)
    : (contextOf collation conditions).operand? n = some c.operand := by
  obtain ⟨positive, found⟩ := List.mk_mem_zipIdx_iff_le_and_getElem?_sub.mp mem
  obtain ⟨i, rfl⟩ := Nat.exists_eq_add_of_le' positive
  rw [Nat.add_sub_cancel] at found
  simp [Context.operand?, contextOf, found]

/-- The restriction of valid conditions is true of the events that meet them. -/
theorem restrictionTruth?_testsOf (collation : String → String → Ordering)
    {conditions : List Condition} (valid : validateAll conditions = .ok ()) (row : Event)
    : ∃ truth, restrictionTruth? (contextOf collation conditions)
          (restrictionOf (testsOf conditions)) row = some truth
      ∧ (truth = .yes ↔ holdsAll conditions row = true) := by
  have each : ∀ entry ∈ conditions.zipIdx 1, (testOf entry.2 entry.1).Decides
      (contextOf collation conditions) row (entry.1.holds row) := by
    intro entry mem
    have among : entry.1 ∈ conditions := by
      rw [← List.zipIdx_map_fst 1 conditions]
      exact List.mem_map_of_mem mem
    have operand := operand?_contextOf collation mem
    exact decides_testOf (validateAll_eq_ok_iff.mp valid _ among) operand row
  have all : holdsAll ((conditions.zipIdx 1).map Prod.fst) row = holdsAll conditions row := by
    rw [List.zipIdx_map_fst]
  rw [testsOf, ← all]
  cases numbered : conditions.zipIdx 1 with
  | nil => exact ⟨.yes, rfl, by simp [holdsAll]⟩
  | cons first rest => exact decides_conjunction row first rest (numbered ▸ each)

-------------------------------------------------------------------------------
-- Order
-------------------------------------------------------------------------------

/-- The key of a statement compares rows as the sort key does, with missing values last or first
by its direction. -/
theorem compare_keyOf (context : Context) (key : SortKey) (a b : Event)
    : (keyOf key).compare context a b = key.compare a b := by
  obtain ⟨field, direction⟩ := key
  have values := compareValues_eq context (plain_columnOf field)
  simp only [Key.compare, keyOf, SortKey.compare, compareField, columnOf] at values ⊢
  cases field.value? a with
  | none => cases field.value? b <;> cases direction <;> rfl
  | some x =>
      cases field.value? b with
      | none => cases direction <;> rfl
      | some y => cases direction <;> simp [values, Direction.orient]

theorem compare_identifierKey (context : Context) (a b : Event)
    : identifierKey.compare context a b = compare a.id b.id :=
  Uuid.compareBytes_bytes a.id b.id

/-- The keys of a query compare rows as its sort keys do, and by their identifiers where these leave
a tie. -/
theorem compareKeys_selectOf (context : Context) (keys : List SortKey) (a b : Event)
    : compareKeys context (keys.map keyOf ++ [identifierKey]) a b = rank keys a b := by
  rw [rank_eq]
  induction keys with
  | nil => simp [compareKeys, compare_identifierKey, compareBy]
  | cons key keys ih =>
      rw [List.map_cons, List.cons_append, compareKeys, ih, compare_keyOf, compareBy,
        Ordering.then_assoc]

-------------------------------------------------------------------------------
-- Tables
-------------------------------------------------------------------------------

/-- Valid conditions always have a truth, so no row is undecided for want of a parameter. -/
theorem isSome_restrictionTruth? (collation : String → String → Ordering)
    {conditions : List Condition} (valid : validateAll conditions = .ok ()) (row : Event)
    : (restrictionTruth? (contextOf collation conditions) (restrictionOf (testsOf conditions))
        row).isSome := by
  obtain ⟨truth, judged, -⟩ := restrictionTruth?_testsOf collation valid row
  rw [judged]
  rfl

/-- The rows that a restriction means are those of the events that meet its conditions. -/
theorem filter_restrictionTruth? (collation : String → String → Ordering)
    {conditions : List Condition} (valid : validateAll conditions = .ok ()) (rows : List Event)
    : (rows.filter fun row => restrictionTruth? (contextOf collation conditions)
        (restrictionOf (testsOf conditions)) row = some .yes)
      = rows.filter (holdsAll conditions) := by
  apply List.filter_congr
  intro row _
  obtain ⟨truth, judged, holds⟩ := restrictionTruth?_testsOf collation valid row
  rw [judged, Bool.eq_iff_iff, decide_eq_true_iff, Option.some.injEq, holds]

/-- A query agrees with a database whose rows are those of the table when its statement, as read
from the text, returns what the table's own query finds and nothing else. -/
def QueryAgrees (collation : String → String → Ordering) (rows : List Event) (t : Table)
    (conditions : List Condition) (keys : List SortKey) : Prop :=
  ∃ statement select found,
    Statement.ofQuery conditions keys = .ok statement
      ∧ parse? statement.text = some (.select select)
      ∧ t.query conditions keys = .ok found
      ∧ ∀ result, select.Answers (contextOf collation conditions) rows result ↔ result = found

/-- A bulk deletion agrees with a database whose rows are those of the table when its statement, as
read from the text, removes the events that the table does not keep, as many as it counts. -/
def DeletionAgrees (collation : String → String → Ordering) (rows : List Event) (t : Table)
    (conditions : List Condition) : Prop :=
  ∃ statement delete count kept,
    Statement.ofDeletion conditions = .ok statement
      ∧ parse? statement.text = some (.delete delete)
      ∧ t.deleteWhere conditions = .ok (count, kept)
      ∧ (∀ removed, delete.Removes (contextOf collation conditions) rows removed
        ↔ removed.Perm (t.events.filter (· ∉ kept.events)))
      ∧ (t.events.filter (· ∉ kept.events)).length = count

section Tables

variable {t : Table} {rows : List Event} {conditions : List Condition}

/-- Queries agree: the rows that are meant are the events that meet the conditions, and there is
one way to put them into the order of the keys. -/
theorem queryAgrees (collation : String → String → Ordering)
    (ordered : t.events.Pairwise fun a b => a.id < b.id) (same : rows.Perm t.events)
    (valid : validateAll conditions = .ok ()) (keys : List SortKey)
    : QueryAgrees collation rows t conditions keys := by
  have found : t.query conditions keys
      = .ok (sortBy keys (t.events.filter (holdsAll conditions))) := by
    simp [Table.query, Query.select, valid, Except.map]
  have statement : Statement.ofQuery conditions keys
      = .ok (.select (rowTests conditions) keys) := by
    simp [Statement.ofQuery, valid]
  refine ⟨_, _, _, statement, parse?_select conditions keys, found, fun result => ?_⟩
  -- Both sides ask for a permutation of the same events in the same order.
  rw [eq_sortBy_iff keys (ordered.filter _),
    ← (same.filter (holdsAll conditions)).congr_right result,
    ← filter_restrictionTruth? collation valid rows]
  constructor
  · intro answers
    refine ⟨answers.meant, answers.sorted.imp fun {a b} sorted => ?_⟩
    rwa [selectOf, compareKeys_selectOf] at sorted
  · rintro ⟨meant, sorted⟩
    refine
      { columns := fun field => by cases field <;> simp [selectOf, Field.all]
        judged := fun row _ => isSome_restrictionTruth? collation valid row
        meant := meant
        sorted := sorted.imp fun {a b} sorted => ?_ }
    rwa [selectOf, compareKeys_selectOf]

/-- Bulk deletions agree: what the table does not keep are the events that meet the conditions. -/
theorem deletionAgrees (collation : String → String → Ordering) (same : rows.Perm t.events)
    (valid : validateAll conditions = .ok ()) (some_condition : conditions ≠ [])
    : DeletionAgrees collation rows t conditions := by
  have some_one : conditions.isEmpty = false := by simpa using some_condition
  have deleted : t.deleteWhere conditions
      = .ok (t.size - (t.events.filter fun e => !holdsAll conditions e).length,
        ⟨t.events.filter fun e => !holdsAll conditions e⟩) := by
    simp [Table.deleteWhere, Table.checkFilter, some_one, valid, Except.map, Except.mapError]
  have statement : Statement.ofDeletion conditions = .ok (.delete (rowTests conditions)) := by
    simp [Statement.ofDeletion, some_one, valid]
  have lost : (t.events.filter (· ∉ t.events.filter fun e => !holdsAll conditions e))
      = t.events.filter (holdsAll conditions) :=
    List.filter_congr fun e mem => by simp [mem]
  refine ⟨_, _, _, _, statement, parse?_delete conditions, deleted, fun removed => ?_, ?_⟩
  · rw [lost, ← (same.filter (holdsAll conditions)).congr_right removed,
      ← filter_restrictionTruth? collation valid rows]
    constructor
    · exact fun removes => removes.meant
    · exact fun meant =>
        { judged := fun row _ => isSome_restrictionTruth? collation valid row
          meant := meant }
  · rw [lost, Table.size]
    have parts := List.length_eq_length_filter_add (l := t.events) (holdsAll conditions)
    omega

/-- A database with the rows of a table, in whichever order, agrees with the table on every query of
valid conditions, and on every bulk deletion that has one. The table has its events in the order of
their identifiers, which are distinct. The collation of the database does not matter. -/
theorem table_agrees (collation : String → String → Ordering)
    (ordered : t.events.Pairwise fun a b => a.id < b.id) (same : rows.Perm t.events)
    (valid : validateAll conditions = .ok ()) (keys : List SortKey)
    : QueryAgrees collation rows t conditions keys
      ∧ (conditions ≠ [] → DeletionAgrees collation rows t conditions) :=
  ⟨queryAgrees collation ordered same valid keys, deletionAgrees collation same valid⟩

end Tables

/-- The instant of the events of the agenda. -/
def opening : Time.Instant :=
  .ofParts 1717268400 0 (by omega)

/-- An event of the agenda. -/
def visit (number : BitVec 128) (title : String) (notified : Option Time.Instant) : Event :=
  { id := ⟨number⟩
    owner := .nil
    title
    description := ""
    start := opening
    finish := opening
    lead := .zero
    notified }

/-- Two titles whose bytes are in another order than a dictionary has them in, one of them without a
notification. -/
def agenda : Table :=
  ⟨[visit 1 "opera" none, visit 2 "Opera" (some opening)]⟩

/-- Titles from a capital letter on, and any notification, which the set excludes none of. -/
def announced : List Condition :=
  [.of .title .ge (.one .text "Opera"), .of .notified .notIn (.set .instant [])]

/-- A database with the agenda in another order agrees with it. -/
theorem table_agrees_agenda
    : agenda.events.Pairwise (fun a b => a.id < b.id)
      ∧ agenda.events.reverse.Perm agenda.events
      ∧ validateAll announced = .ok ()
      ∧ announced ≠ []
      ∧ QueryAgrees compare agenda.events.reverse agenda announced [.ascending .notified]
      ∧ DeletionAgrees compare agenda.events.reverse agenda announced := by
  have ordered : agenda.events.Pairwise fun a b => a.id < b.id := by decide
  have same : agenda.events.reverse.Perm agenda.events := List.reverse_perm _
  have valid : validateAll announced = .ok () := rfl
  have agrees := table_agrees compare ordered same valid [.ascending .notified]
  have some_condition : announced ≠ [] := by simp [announced]
  exact ⟨ordered, same, valid, some_condition, agrees.1, agrees.2 some_condition⟩

end Almanac.Sql
