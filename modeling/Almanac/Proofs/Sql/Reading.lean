import Almanac.Proofs.Sql.Grammar
import Almanac.Store.Statement
import Mathlib.Data.List.TakeDrop

/-! The texts of queries and bulk deletions are read as the statements that they are meant to be. -/

namespace Almanac.Sql

open Query Store

-------------------------------------------------------------------------------
-- Statements of conditions
-------------------------------------------------------------------------------

/-- The column of a field. Texts compare by their bytes. -/
def columnOf (f : Field) : Column :=
  ⟨f, f.kind = .text⟩

/-- The comparison of an operator, for sets that with each member. -/
def comparisonOf : Operator → Comparison
  | .eq | .isIn => .equal
  | .ne | .notIn => .different
  | .lt => .less
  | .le => .atMost
  | .gt => .greater
  | .ge => .atLeast

/-- The test of a condition whose operand is that of a parameter. -/
def testOf (parameter : Nat) (c : Condition) : Expr :=
  match c.operator with
  | .isIn => .any (columnOf c.field) .equal parameter
  | .notIn =>
      if c.field.isNullable then
        .both (.isNotNull (columnOf c.field)) (.all (columnOf c.field) .different parameter)
      else .all (columnOf c.field) .different parameter
  | operator => .compares (columnOf c.field) (comparisonOf operator) parameter

/-- The conjunction of tests that there is a first one of. -/
def conjunction (test : Expr) : List Expr → Expr
  | [] => test
  | next :: tests => .both test (conjunction next tests)

/-- The restriction to the rows that pass every test. -/
def restrictionOf : List Expr → Option Expr
  | [] => none
  | test :: tests => some (conjunction test tests)

/-- The tests of conditions; the operand of the n-th condition is that of parameter n. -/
def testsOf (conditions : List Condition) : List Expr :=
  (conditions.zipIdx 1).map fun (c, n) => testOf n c

def keyOf (key : SortKey) : Key :=
  { column := columnOf key.field
    descending := key.direction = .descending
    nullsFirst := key.direction = .ascending }

/-- The last key of every query. -/
def identifierKey : Key :=
  { column := columnOf .id, descending := false, nullsFirst := false }

def selectOf (conditions : List Condition) (keys : List SortKey) : Select :=
  { columns := Field.all
    condition := restrictionOf (testsOf conditions)
    keys := keys.map keyOf ++ [identifierKey] }

def deleteOf (conditions : List Condition) : Delete :=
  { condition := restrictionOf (testsOf conditions) }

-------------------------------------------------------------------------------
-- Tokens
-------------------------------------------------------------------------------

def columnTokens (f : Field) : List Token :=
  match f.kind with
  | .text => [.word f.name, .word "collate", .quoted "C"]
  | _ => [.word f.name]

def testTokens (parameter : Nat) (c : Condition) : List Token :=
  match c.operator with
  | .isIn =>
      columnTokens c.field
        ++ [.sign "=", .word "any", .opening, .parameter parameter, .closing]
  | .notIn =>
      if c.field.isNullable then
        .opening :: columnTokens c.field
          ++ [.word "is", .word "not", .word "null", .word "and"]
          ++ columnTokens c.field
          ++ [.sign "<>", .word "all", .opening, .parameter parameter, .closing, .closing]
      else
        columnTokens c.field
          ++ [.sign "<>", .word "all", .opening, .parameter parameter, .closing]
  | operator => columnTokens c.field ++ [.sign (operatorText operator), .parameter parameter]

theorem ReadAs.column (f : Field) : ReadAs (columnText f).toList (columnTokens f) := by
  cases f <;> exact .of_tokens? (by decide +kernel)

theorem ReadAs.operator {operator : Operator} (scalar : operator.takesSet = false)
    : ReadAs (operatorText operator).toList [.sign (operatorText operator)] := by
  cases operator with
  | isIn => cases scalar
  | notIn => cases scalar
  | _ => exact .of_tokens? (by decide +kernel)

/-- The text of a test is read as its tokens. -/
theorem ReadAs.test (parameter : Nat) (c : Condition)
    : ReadAs (RowTest.ofCondition parameter c).text.toList (testTokens parameter c) := by
  obtain ⟨field, operator, operand⟩ := c
  have column := ReadAs.column field
  have number := (ReadAs.parameter parameter).closed
  have scalar {op : Operator} (scalar : op.takesSet = false)
      : ReadAs (RowTest.compares field op parameter).text.toList
        (columnTokens field ++ [.sign (operatorText op), .parameter parameter]) := by
    have read := column.spaced ((ReadAs.operator scalar).spaced (ReadAs.parameter parameter))
    simpa [RowTest.text, parameterText, toString] using read
  have all : ReadAs (columnText field ++ s!" <> ALL({parameterText parameter})").toList
      (columnTokens field
        ++ [.sign "<>", .word "all", .opening, .parameter parameter, .closing]) := by
    have sign : ReadAs (operatorText .ne).toList [.sign "<>"] := .operator rfl
    have quantifier : ReadAs "ALL".toList [.word "all"] := .of_tokens? (by decide +kernel)
    have read := column.spaced (sign.spaced (quantifier.opened number))
    simpa [parameterText, operatorText, toString] using read
  cases operator with
  | isIn =>
      have sign : ReadAs (operatorText .eq).toList [.sign "="] := .operator rfl
      have quantifier : ReadAs "ANY".toList [.word "any"] := .of_tokens? (by decide +kernel)
      have read := column.spaced (sign.spaced (quantifier.opened number))
      simpa [RowTest.ofCondition, RowTest.text, testTokens, parameterText, operatorText,
        Operator.symbol, toString] using read
  | notIn =>
      by_cases nullable : field.isNullable
      · have set : ReadAs "IS NOT NULL AND".toList
            [.word "is", .word "not", .word "null", .word "and"] := .of_tokens? (by decide +kernel)
        have read := (ReadAs.nil.opened (column.spaced (set.spaced all))).closed
        simpa [RowTest.ofCondition, RowTest.text, testTokens, nullable, toString] using read
      · simpa [RowTest.ofCondition, RowTest.text, testTokens, nullable, toString] using all
  | eq | ne | lt | le | gt | ge => exact scalar rfl

/-- The tokens of a conjunction of tests, of conditions with the numbers of their parameters. -/
def conjunctionTokens (first : Condition × Nat) : List (Condition × Nat) → List Token
  | [] => testTokens first.2 first.1
  | next :: rest => testTokens first.2 first.1 ++ .word "and" :: conjunctionTokens next rest

def restrictionTokens : List (Condition × Nat) → List Token
  | [] => []
  | first :: rest => .word "where" :: conjunctionTokens first rest

/-- The text of a conjunction is read as its tokens, by induction on the tests. -/
theorem ReadAs.conjunction (first : Condition × Nat) (rest : List (Condition × Nat))
    : ReadAs (" AND ".intercalate ((first :: rest).map fun (c, n) =>
        (RowTest.ofCondition n c).text)).toList (conjunctionTokens first rest) := by
  induction rest generalizing first with
  | nil => simpa [conjunctionTokens] using ReadAs.test first.2 first.1
  | cons next rest ih =>
      have link : ReadAs "AND".toList [.word "and"] := .of_tokens? (by decide +kernel)
      have read := (ReadAs.test first.2 first.1).spaced (link.spaced (ih next))
      simpa [conjunctionTokens] using read

/-- A statement is read as its tokens together with its restriction. -/
theorem ReadAs.restricted {statement : List Char} {tokens : List Token}
    (read : ReadAs statement tokens) (conditions : List Condition)
    : ReadAs (statement ++ (restriction (rowTests conditions)).toList)
      (tokens ++ restrictionTokens (conditions.zipIdx 1)) := by
  rw [rowTests_eq]
  cases conditions.zipIdx 1 with
  | nil => simpa [restriction, restrictionTokens] using read
  | cons first rest =>
      have clause : ReadAs "WHERE".toList [.word "where"] := .of_tokens? (by decide +kernel)
      have read := read.spaced (clause.spaced (ReadAs.conjunction first rest))
      simpa [restriction, restrictionTokens, Function.comp_def] using read

def keyTokens (key : SortKey) : List Token :=
  columnTokens key.field ++
    match key.direction with
    | .ascending => [.word "asc", .word "nulls", .word "first"]
    | .descending => [.word "desc", .word "nulls", .word "last"]

/-- The tokens of sort keys, with the identifier as the last one. -/
def orderTokens : List SortKey → List Token
  | [] => [.word "id", .word "asc"]
  | key :: keys => keyTokens key ++ .comma :: orderTokens keys

/-- The text of sort keys is read as their tokens, by induction on the keys. -/
theorem ReadAs.order (keys : List SortKey)
    : ReadAs (String.join (keys.map sortKeyText) ++ "id ASC").toList (orderTokens keys) := by
  induction keys with
  | nil => exact .of_tokens? (by decide +kernel)
  | cons key keys ih =>
      obtain ⟨field, direction⟩ := key
      have column := ReadAs.column field
      have next := ReadAs.nil.spaced ih
      cases direction with
      | ascending =>
          have upward : ReadAs "ASC NULLS FIRST".toList
              [.word "asc", .word "nulls", .word "first"] := .of_tokens? (by decide +kernel)
          have read := column.spaced (upward.listed next)
          simpa [sortKeyText, orderTokens, keyTokens, Direction.symbol, toString] using read
      | descending =>
          have downward : ReadAs "DESC NULLS LAST".toList
              [.word "desc", .word "nulls", .word "last"] := .of_tokens? (by decide +kernel)
          have read := column.spaced (downward.listed next)
          simpa [sortKeyText, orderTokens, keyTokens, Direction.symbol, toString] using read

/-- The tokens of columns to return, separated by commas. -/
def nameTokens (first : Field) : List Field → List Token
  | [] => [.word first.name]
  | next :: rest => .word first.name :: .comma :: nameTokens next rest

theorem ReadAs.name (f : Field) : ReadAs f.name.toList [.word f.name] := by
  cases f <;> exact .of_tokens? (by decide +kernel)

/-- The text that lists columns is read as their tokens, by induction on the columns. -/
theorem ReadAs.names (first : Field) (rest : List Field)
    : ReadAs (", ".intercalate ((first :: rest).map Field.name)).toList
      (nameTokens first rest) := by
  induction rest generalizing first with
  | nil => simpa [nameTokens] using ReadAs.name first
  | cons next rest ih =>
      have read := (ReadAs.name first).listed (ReadAs.nil.spaced (ih next))
      simpa [nameTokens] using read

/-- The tokens of the columns of the table. -/
def columnListTokens : List Token :=
  nameTokens .id [.owner, .title, .description, .start, .finish, .lead, .notified]

theorem ReadAs.head
    : ReadAs s!"SELECT {columnList} FROM events".toList
      (.word "select" :: columnListTokens ++ [.word "from", .word "events"]) := by
  have columns : ReadAs columnList.toList columnListTokens :=
    ReadAs.names .id [.owner, .title, .description, .start, .finish, .lead, .notified]
  have verb : ReadAs "SELECT".toList [.word "select"] := .of_tokens? (by decide +kernel)
  have table : ReadAs "FROM events".toList [.word "from", .word "events"] :=
    .of_tokens? (by decide +kernel)
  have read := verb.spaced (columns.spaced table)
  simpa [toString] using read

theorem ReadAs.select (conditions : List Condition) (keys : List SortKey)
    : ReadAs (Statement.select (rowTests conditions) keys).text.toList
      (.word "select" :: columnListTokens ++ [.word "from", .word "events"]
        ++ restrictionTokens (conditions.zipIdx 1) ++ .word "order" :: .word "by"
        :: orderTokens keys) := by
  have clause : ReadAs "ORDER BY".toList [.word "order", .word "by"] :=
    .of_tokens? (by decide +kernel)
  have read := (ReadAs.head.restricted conditions).spaced (clause.spaced (ReadAs.order keys))
  have text : (Statement.select (rowTests conditions) keys).text
      = s!"SELECT {columnList} FROM events" ++ restriction (rowTests conditions) ++ " ORDER BY "
        ++ String.join (keys.map sortKeyText) ++ "id ASC" := rfl
  rw [text]
  simpa using read

theorem ReadAs.delete (conditions : List Condition)
    : ReadAs (Statement.delete (rowTests conditions)).text.toList
      (.word "delete" :: .word "from" :: .word "events"
        :: restrictionTokens (conditions.zipIdx 1)) := by
  have head : ReadAs "DELETE FROM events".toList
      [.word "delete", .word "from", .word "events"] := .of_tokens? (by decide +kernel)
  have read := head.restricted conditions
  have text : (Statement.delete (rowTests conditions)).text
      = "DELETE FROM events" ++ restriction (rowTests conditions) := rfl
  rw [text, String.toList_append]
  exact read

-------------------------------------------------------------------------------
-- Statements
-------------------------------------------------------------------------------

/-- The tokens of a test are read as the test. -/
theorem readTerm_testTokens (levels parameter : Nat) (c : Condition) (rest : List Token)
    : readTerm (readConjunction (levels + 2)) (testTokens parameter c ++ rest)
      = some (testOf parameter c, rest) := by
  obtain ⟨field, operator, operand⟩ := c
  cases operator <;> cases field <;> rfl

theorem three_le_length_testTokens (parameter : Nat) (c : Condition)
    : 3 ≤ (testTokens parameter c).length := by
  obtain ⟨field, operator, operand⟩ := c
  cases operator <;> cases field <;> simp [testTokens, columnTokens, Field.kind, Field.isNullable]

/-- A conjunction has more tokens than it has levels. -/
theorem length_conjunctionTokens (first : Condition × Nat) (rest : List (Condition × Nat))
    : rest.length + 3 ≤ (conjunctionTokens first rest).length := by
  induction rest generalizing first with
  | nil => exact three_le_length_testTokens _ _
  | cons next rest ih =>
      have room := ih next
      have test := three_le_length_testTokens first.2 first.1
      simp only [conjunctionTokens, List.length_append, List.length_cons]
      omega

/-- The tokens of a conjunction are read as the conjunction, by induction on the tests, when there
are levels enough for them and for the parentheses of the last one. -/
theorem readConjunction_tokens (first : Condition × Nat) (rest : List (Condition × Nat))
    {levels : Nat} (enough : rest.length + 3 ≤ levels)
    : readConjunction levels (conjunctionTokens first rest)
      = some (conjunction (testOf first.2 first.1) (rest.map fun (c, n) => testOf n c), []) := by
  -- One level is for the conjunction and two are for parentheses around a test.
  obtain ⟨levels, rfl⟩ : ∃ more, levels = more + 3 := ⟨levels - 3, by omega⟩
  induction rest generalizing first levels with
  | nil =>
      have term := readTerm_testTokens levels first.2 first.1 []
      rw [List.append_nil] at term
      rw [readConjunction, conjunctionTokens, term]
      rfl
  | cons next rest ih =>
      rw [List.length_cons] at enough
      obtain ⟨levels, rfl⟩ : ∃ more, levels = more + 1 := ⟨levels - 1, by omega⟩
      have term := readTerm_testTokens (levels + 1) first.2 first.1
        (.word "and" :: conjunctionTokens next rest)
      have others := ih next levels (by omega)
      rw [readConjunction, conjunctionTokens, term]
      simp only [others]
      rfl

/-- The tokens of a restriction are read as the restriction. -/
theorem readRestriction_tokens (conditions : List (Condition × Nat))
    : readRestriction (restrictionTokens conditions)
      = some (restrictionOf (conditions.map fun (c, n) => testOf n c)) := by
  cases conditions with
  | nil => rfl
  | cons first rest =>
      have read := readConjunction_tokens first rest (length_conjunctionTokens first rest)
      simp [readRestriction, restrictionTokens, read, restrictionOf]

theorem readKey_keyTokens (key : SortKey) : readKey (keyTokens key) = some (keyOf key) := by
  obtain ⟨field, direction⟩ := key
  cases direction <;> cases field <;> rfl

theorem ne_comma_of_mem_keyTokens {key : SortKey} {token : Token} (mem : token ∈ keyTokens key)
    : token ≠ .comma := by
  rintro rfl
  obtain ⟨field, direction⟩ := key
  cases direction <;> cases field <;> simp [keyTokens, columnTokens, Field.kind] at mem

/-- The tokens of sort keys are read as the keys, by induction on the keys. -/
theorem readOrder_tokens (keys : List SortKey)
    : ((orderTokens keys).splitOnP (· = .comma)).mapM readKey
      = some (keys.map keyOf ++ [identifierKey]) := by
  induction keys with
  | nil => rfl
  | cons key keys ih =>
      rw [orderTokens, List.splitOnP_append_cons_of_forall_mem
        (fun token mem => by simpa using ne_comma_of_mem_keyTokens mem) _ (by simp),
        List.mapM_cons, readKey_keyTokens, ih]
      rfl

/-- A restriction does not have the word in it that ends it. -/
theorem ne_order_of_mem_restrictionTokens {conditions : List (Condition × Nat)} {token : Token}
    (mem : token ∈ restrictionTokens conditions)
    : token ≠ .word "order" := by
  rintro rfl
  have test (parameter : Nat) (c : Condition) : .word "order" ∉ testTokens parameter c := by
    obtain ⟨field, operator, operand⟩ := c
    cases operator <;> cases field <;>
      simp [testTokens, columnTokens, Field.kind, Field.isNullable, Field.name]
  have conjunction (first : Condition × Nat) (rest : List (Condition × Nat))
      : .word "order" ∉ conjunctionTokens first rest := by
    induction rest generalizing first with
    | nil => exact test _ _
    | cons next rest ih => simp [conjunctionTokens, test, ih]
  cases conditions with
  | nil => simp [restrictionTokens] at mem
  | cons first rest => simp [restrictionTokens, conjunction] at mem

/-- A list is cut at the first element that is not to pass. -/
theorem span_append_cons {front : List Token} {stop : Token}
    (pass : ∀ token ∈ front, token ≠ stop) (rest : List Token)
    : (front ++ stop :: rest).span (· ≠ stop) = (front, stop :: rest) := by
  have pass : ∀ token ∈ front, decide (token ≠ stop) = true :=
    fun token mem => decide_eq_true (pass token mem)
  rw [List.span_eq_takeWhile_dropWhile, List.takeWhile_append_of_pos pass,
    List.dropWhile_append_of_pos pass]
  simp

/-- The text of a query is read as its statement. -/
theorem parse?_select (conditions : List Condition) (keys : List SortKey)
    : parse? (Statement.select (rowTests conditions) keys).text
      = some (.select (selectOf conditions keys)) := by
  have names : (columnListTokens.splitOnP (· = .comma)).mapM readName = some Field.all := rfl
  -- The statement is cut where its clauses begin, so no clause may hold the next one's keyword.
  have noFrom : ∀ token ∈ columnListTokens, token ≠ .word "from" := by decide +kernel
  have noOrder : ∀ token ∈ restrictionTokens (conditions.zipIdx 1), token ≠ .word "order" :=
    fun _ => ne_order_of_mem_restrictionTokens
  have head := span_append_cons noFrom (.word "events" ::
    (restrictionTokens (conditions.zipIdx 1) ++ .word "order" :: .word "by" :: orderTokens keys))
  have tail := span_append_cons noOrder (.word "by" :: orderTokens keys)
  rw [parse?, (ReadAs.select conditions keys).tokens?_eq, Option.bind_some]
  simp only [List.cons_append, List.append_assoc, List.nil_append, readCommand, head, tail, names,
    readTable, readRestriction_tokens, readOrder, readOrder_tokens, Option.bind_eq_bind,
    Option.bind_some]
  rfl

/-- The text of a bulk deletion is read as its statement. -/
theorem parse?_delete (conditions : List Condition)
    : parse? (Statement.delete (rowTests conditions)).text
      = some (.delete (deleteOf conditions)) := by
  rw [parse?, (ReadAs.delete conditions).tokens?_eq, Option.bind_some]
  simp [readCommand, readTable, readRestriction_tokens, deleteOf, testsOf]

end Almanac.Sql
