import Almanac.Store.Statement
import Mathlib.Data.List.Forall2
import Mathlib.Data.List.TakeWhile

/-! The parameters of statements.
A statement is written piece by piece. Each operand is bound on its way, and a parameter with the
next number takes its place in the text. So the text says nothing of the operands, and its
parameters are numbered as the conditions are.
-/

namespace Almanac

open Query

/-- Whether two conditions compare the same field in the same way, with whatever operands. -/
def Query.Condition.Alike (c d : Condition) : Prop :=
  c.field = d.field ∧ c.operator = d.operator

namespace Sql

open Store

-------------------------------------------------------------------------------
-- Statements in the making
-------------------------------------------------------------------------------

/-- What is written of a statement, and the operands that are bound in it. -/
structure Draft where
  text : String
  bound : List Operand

namespace Draft

/-- Writes text as it stands. -/
def push (d : Draft) (text : String) : Draft :=
  ⟨d.text ++ text, d.bound⟩

/-- Binds an operand, and writes the parameter with the next number. -/
def bind (d : Draft) (operand : Operand) : Draft :=
  ⟨d.text ++ parameterText (d.bound.length + 1), d.bound ++ [operand]⟩

/-- Writes the test of a condition. -/
def test (d : Draft) (c : Condition) : Draft :=
  let column := columnText c.field
  match c.operator with
  | .isIn => (((d.push column).push " = ANY(").bind c.operand).push ")"
  | .notIn =>
      if c.field.isNullable then
        ((((((d.push "(").push column).push " IS NOT NULL AND ").push column).push " <> ALL(").bind
          c.operand).push "))"
      else (((d.push column).push " <> ALL(").bind c.operand).push ")"
  | operator =>
      ((((d.push column).push " ").push (operatorText operator)).push " ").bind c.operand

/-- Writes the tests of conditions, the first one after the given word. -/
def restrict (word : String) : List Condition → Draft → Draft
  | [], d => d
  | c :: conditions, d => restrict " AND " conditions ((d.push word).test c)

/-- Writes the sort keys, each followed by a comma. -/
def sort (d : Draft) (keys : List SortKey) : Draft :=
  keys.foldl (fun d key => d.push (sortKeyText key)) d

def select (conditions : List Condition) (keys : List SortKey) : Draft :=
  (((restrict " WHERE " conditions ⟨s!"SELECT {columnList} FROM events", []⟩).push " ORDER BY ").sort
    keys).push "id ASC"

def delete (conditions : List Condition) : Draft :=
  restrict " WHERE " conditions ⟨"DELETE FROM events", []⟩

/-- A test has one parameter, with the next number, in each of its forms. -/
theorem test_eq (d : Draft) (c : Condition)
    : d.test c
      = ⟨d.text ++ (RowTest.ofCondition (d.bound.length + 1) c).text, d.bound ++ [c.operand]⟩ := by
  obtain ⟨field, operator, operand⟩ := c
  cases operator with
  | notIn =>
      by_cases nullable : field.isNullable <;>
        simp [test, push, bind, RowTest.ofCondition, RowTest.text, nullable, String.append_assoc,
          toString]
  | _ =>
      simp [test, push, bind, RowTest.ofCondition, RowTest.text, operatorText, Operator.symbol,
        String.append_assoc, toString]

/-- The tests of further conditions are joined to the first, by induction on them. -/
theorem restrict_eq (conditions : List Condition) (d : Draft)
    : restrict " AND " conditions d
      = ⟨d.text
            ++ String.join ((conditions.zipIdx (d.bound.length + 1)).map fun (c, n) =>
              " AND " ++ (RowTest.ofCondition n c).text),
          d.bound ++ conditions.map (·.operand)⟩ := by
  induction conditions generalizing d with
  | nil => simp [restrict]
  | cons c conditions ih =>
      rw [restrict, test_eq, ih]
      simp [push, String.append_assoc]

theorem intercalate_and (first : String) (rest : List String)
    : " AND ".intercalate (first :: rest) = first ++ String.join (rest.map (" AND " ++ ·)) := by
  induction rest generalizing first with
  | nil => simp
  | cons next rest ih => simp [ih, String.append_assoc]

/-- The tests of conditions are written as their restriction, and all operands are bound. -/
theorem restrict_where (conditions : List Condition) (text : String)
    : restrict " WHERE " conditions ⟨text, []⟩
      = ⟨text ++ restriction (rowTests conditions), conditions.map (·.operand)⟩ := by
  cases conditions with
  | nil => simp [restrict, restriction, rowTests]
  | cons c conditions =>
      rw [restrict, test_eq, restrict_eq, rowTests_eq, List.zipIdx_cons, List.map_cons, restriction,
        intercalate_and]
      simp [push, String.append_assoc, Function.comp_def]

theorem sort_eq (d : Draft) (keys : List SortKey)
    : d.sort keys = ⟨d.text ++ String.join (keys.map sortKeyText), d.bound⟩ := by
  induction keys generalizing d with
  | nil => simp [sort]
  | cons key keys ih =>
      rw [sort, List.foldl_cons, ← sort, ih]
      simp [push, String.append_assoc]

/-- A query is written as its statement. -/
theorem select_eq (conditions : List Condition) (keys : List SortKey)
    : select conditions keys
      = ⟨(Statement.select (rowTests conditions) keys).text, conditions.map (·.operand)⟩ := by
  rw [select, restrict_where, sort_eq]
  rfl

/-- A bulk deletion is written as its statement. -/
theorem delete_eq (conditions : List Condition)
    : delete conditions
      = ⟨(Statement.delete (rowTests conditions)).text, conditions.map (·.operand)⟩ :=
  restrict_where conditions "DELETE FROM events"

end Draft

-------------------------------------------------------------------------------
-- Parameters in texts
-------------------------------------------------------------------------------

/-- The digits behind each parameter sign of a text. -/
def parameters : List Char → List (List Char)
  | [] => []
  | c :: text => if c = '$' then text.takeWhile Char.isDigit :: parameters text else parameters text

/-- The digits of the numbers from 1 to a number. -/
def numerals (count : Nat) : List (List Char) :=
  (List.range' 1 count).map fun n => (toString n).toList

/-- A text with given parameters that can stand behind any other: it does not go on with a number
there. -/
structure Shows (text : List Char) (numbers : List Nat) : Prop where
  opens : ∀ c, text.head? = some c → c.isDigit = false
  parameters_eq : parameters text = numbers.map fun n => (toString n).toList

/-- Parameters are found piece by piece when no number goes on in the next piece. -/
theorem parameters_append {left right : List Char}
    (opens : ∀ c, right.head? = some c → c.isDigit = false)
    : parameters (left ++ right) = parameters left ++ parameters right := by
  have stops : right.takeWhile Char.isDigit = [] := by
    cases right with
    | nil => rfl
    | cons c right => exact List.takeWhile_cons_of_neg (by simp [opens c rfl])
  induction left with
  | nil => rfl
  | cons c left ih =>
      rw [List.cons_append, parameters, parameters, ih]
      split
      · have digits : (left ++ right).takeWhile Char.isDigit = left.takeWhile Char.isDigit := by
          rw [List.takeWhile_append, stops, List.append_nil]
          split
          · rename_i all
            exact ((List.takeWhile_prefix _).eq_of_length all).symm
          · rfl
        rw [digits, List.cons_append]
      · rfl

theorem parameters_eq_nil {text : List Char} (plain : '$' ∉ text) : parameters text = [] := by
  induction text with
  | nil => rfl
  | cons c text ih =>
      rw [List.mem_cons, not_or] at plain
      rw [parameters, if_neg (Ne.symm plain.1), ih plain.2]

namespace Shows

/-- Texts in a row show their parameters in a row: none of them opens with a digit, which would go on
the number before it. -/
theorem append {left right : List Char} {before after : List Nat} (shows : Shows left before)
    (shows' : Shows right after)
    : Shows (left ++ right) (before ++ after) where
  opens c first := by
    cases left with
    | nil => exact shows'.opens c first
    | cons other left => exact shows.opens c first
  parameters_eq := by
    rw [parameters_append shows'.opens, shows.parameters_eq, shows'.parameters_eq, List.map_append]

/-- A text without a parameter sign shows no parameter. -/
theorem plain {text : List Char} (opens : text.head?.all (!·.isDigit)) (unsigned : '$' ∉ text)
    : Shows text [] where
  opens c first := by simpa [first] using opens
  parameters_eq := parameters_eq_nil unsigned

/-- A written parameter shows its own number, as its digits are read whole. -/
theorem parameter (n : Nat) : Shows (parameterText n).toList [n] where
  opens c first := by
    obtain rfl : '$' = c := by simpa [parameterText, toString] using first
    rfl
  parameters_eq := by
    have digits : ∀ c ∈ (toString n).toList, c.isDigit := by
      have eq : (toString n).toList = Nat.toDigits 10 n := Nat.toList_repr
      rw [eq]
      exact fun c => Nat.isDigit_of_mem_toDigits (by decide) (by decide)
    have unsigned : '$' ∉ (toString n).toList := fun member => absurd (digits _ member) (by decide)
    have whole : (toString n).toList.takeWhile Char.isDigit = (toString n).toList :=
      List.takeWhile_eq_self_iff.mpr digits
    have text : (parameterText n).toList = '$' :: (toString n).toList := by
      simp [parameterText, toString]
    rw [text, parameters, if_pos rfl, whole, parameters_eq_nil unsigned]
    rfl

theorem column (f : Field) : Shows (columnText f).toList [] := by
  cases f <;> exact .plain (by decide +kernel) (by decide +kernel)

/-- The text of a test shows its one parameter, also where it names its column twice. -/
theorem test (n : Nat) (c : Condition) : Shows (RowTest.ofCondition n c).text.toList [n] := by
  obtain ⟨field, operator, operand⟩ := c
  have column := Shows.column field
  have number := Shows.parameter n
  have closing : Shows [')'] [] := .plain rfl (by decide)
  have compares (operator : Operator) : Shows (RowTest.compares field operator n).text.toList [n] := by
    have sign : Shows (" " ++ operatorText operator ++ " ").toList [] := by
      cases operator <;> exact .plain (by decide +kernel) (by decide +kernel)
    have shows := (column.append sign).append number
    simpa [RowTest.text, toString] using shows
  have all : Shows (columnText field ++ s!" <> ALL({parameterText n})").toList [n] := by
    have quantifier : Shows " <> ALL(".toList [] := .plain (by decide +kernel) (by decide +kernel)
    have shows := ((column.append quantifier).append number).append closing
    simpa [toString] using shows
  cases operator with
  | isIn =>
      have quantifier : Shows " = ANY(".toList [] := .plain (by decide +kernel) (by decide +kernel)
      have shows := ((column.append quantifier).append number).append closing
      simpa [RowTest.ofCondition, RowTest.text, toString] using shows
  | notIn =>
      by_cases nullable : field.isNullable
      · have opening : Shows ['('] [] := .plain rfl (by decide)
        have set : Shows " IS NOT NULL AND ".toList [] :=
          .plain (by decide +kernel) (by decide +kernel)
        have shows := (((opening.append column).append set).append all).append closing
        simpa [RowTest.ofCondition, RowTest.text, nullable, toString] using shows
      · simpa [RowTest.ofCondition, RowTest.text, nullable, toString] using all
  | _ => exact compares _

/-- The text of tests shows their parameters in turn, by induction on them. -/
theorem conjunction (conditions : List (Condition × Nat))
    : Shows (String.join (conditions.map fun (c, n) =>
        " AND " ++ (RowTest.ofCondition n c).text)).toList (conditions.map Prod.snd) := by
  induction conditions with
  | nil => exact .plain rfl (by decide)
  | cons entry conditions ih =>
      have link : Shows " AND ".toList [] := .plain (by decide +kernel) (by decide +kernel)
      have shows := (link.append (Shows.test entry.2 entry.1)).append ih
      simpa using shows

/-- A restriction shows the numbers from one on, as many as there are conditions. -/
theorem restriction (conditions : List Condition)
    : Shows (Store.restriction (rowTests conditions)).toList
        (List.range' 1 conditions.length) := by
  cases conditions with
  | nil => exact .plain rfl (by decide)
  | cons c conditions =>
      have clause : Shows " WHERE ".toList [] := .plain (by decide +kernel) (by decide +kernel)
      have shows := (clause.append (Shows.test 1 c)).append
        (Shows.conjunction (conditions.zipIdx 2))
      rw [rowTests_eq, List.zipIdx_cons, List.map_cons, Store.restriction, Draft.intercalate_and]
      simpa [Function.comp_def, List.range'_succ] using shows

theorem order (keys : List SortKey)
    : Shows (String.join (keys.map sortKeyText)).toList [] := by
  induction keys with
  | nil => exact .plain rfl (by decide)
  | cons key keys ih =>
      obtain ⟨field, direction⟩ := key
      have column := Shows.column field
      cases direction with
      | ascending =>
          have way : Shows " ASC NULLS FIRST, ".toList [] :=
            .plain (by decide +kernel) (by decide +kernel)
          have shows := (column.append way).append ih
          simpa [sortKeyText, toString, Direction.symbol] using shows
      | descending =>
          have way : Shows " DESC NULLS LAST, ".toList [] :=
            .plain (by decide +kernel) (by decide +kernel)
          have shows := (column.append way).append ih
          simpa [sortKeyText, toString, Direction.symbol] using shows

end Shows

-------------------------------------------------------------------------------
-- Statements of conditions
-------------------------------------------------------------------------------

/-- How a statement is written for conditions. -/
structure Writes (conditions : List Condition) (draft : Draft) (statement : Statement) : Prop where
  text : draft.text = statement.text
  /-- The operand of each condition is bound once, in turn. -/
  bound : draft.bound = conditions.map (·.operand)
  /-- The text has the parameters from 1 to the number of conditions, each once and in order. -/
  numbered : parameters statement.text.toList = numerals conditions.length

/-- The selection is written as a statement whose parameters are the operands in order. -/
theorem writes_select (conditions : List Condition) (keys : List SortKey)
    : Writes conditions (.select conditions keys) (.select (rowTests conditions) keys) where
  text := by rw [Draft.select_eq]
  bound := by rw [Draft.select_eq]
  numbered := by
    have head : Shows s!"SELECT {columnList} FROM events".toList [] :=
      .plain (by decide +kernel) (by decide +kernel)
    have clause : Shows " ORDER BY ".toList [] := .plain (by decide +kernel) (by decide +kernel)
    have last : Shows "id ASC".toList [] := .plain (by decide +kernel) (by decide +kernel)
    have shows :=
      (((head.append (.restriction conditions)).append clause).append (.order keys)).append last
    have text : (Statement.select (rowTests conditions) keys).text
        = s!"SELECT {columnList} FROM events" ++ restriction (rowTests conditions) ++ " ORDER BY "
          ++ String.join (keys.map sortKeyText) ++ "id ASC" := rfl
    rw [text]
    simpa [numerals] using shows.parameters_eq

/-- The deletion is written likewise. -/
theorem writes_delete (conditions : List Condition)
    : Writes conditions (.delete conditions) (.delete (rowTests conditions)) where
  text := by rw [Draft.delete_eq]
  bound := by rw [Draft.delete_eq]
  numbered := by
    have head : Shows "DELETE FROM events".toList [] :=
      .plain (by decide +kernel) (by decide +kernel)
    have shows := head.append (.restriction conditions)
    have text : (Statement.delete (rowTests conditions)).text
        = "DELETE FROM events" ++ restriction (rowTests conditions) := rfl
    rw [text, String.toList_append]
    exact shows.parameters_eq

variable {conditions others : List Condition}

/-- The tests of conditions do not depend on operands. -/
theorem rowTests_eq_of_alike (alike : List.Forall₂ Condition.Alike conditions others)
    : rowTests conditions = rowTests others := by
  have each (start : Nat) : (conditions.zipIdx start).map (fun (c, n) => RowTest.ofCondition n c)
      = (others.zipIdx start).map fun (c, n) => RowTest.ofCondition n c := by
    induction alike generalizing start with
    | nil => rfl
    | @cons c d conditions others same alike ih =>
        have test : RowTest.ofCondition start c = RowTest.ofCondition start d := by
          rw [RowTest.ofCondition, RowTest.ofCondition, same.1, same.2]
        simp only [List.zipIdx_cons, List.map_cons, test, ih]
  rw [rowTests_eq, rowTests_eq, each]

/-- Valid conditions that compare the same fields in the same ways have the same statements, whatever
their operands are. The operands are bound in turn and stand nowhere in the texts. -/
theorem same_statements (valid : validateAll conditions = .ok ())
    (valid' : validateAll others = .ok ())
    (alike : List.Forall₂ Condition.Alike conditions others) (keys : List SortKey)
    : (∃ select,
          Statement.ofQuery conditions keys = .ok select
            ∧ Statement.ofQuery others keys = .ok select
            ∧ Writes conditions (.select conditions keys) select
            ∧ Writes others (.select others keys) select)
        ∧ Statement.ofDeletion conditions = Statement.ofDeletion others
        ∧ (conditions ≠ [] →
            ∃ delete,
              Statement.ofDeletion conditions = .ok delete
                ∧ Writes conditions (.delete conditions) delete
                ∧ Writes others (.delete others) delete) := by
  have tests := rowTests_eq_of_alike alike
  refine ⟨⟨.select (rowTests conditions) keys, ?_, ?_, writes_select conditions keys, ?_⟩, ?_, ?_⟩
  · simp [Statement.ofQuery, valid]
  · simp [Statement.ofQuery, valid', tests]
  · exact tests ▸ writes_select others keys
  · cases alike with
    | nil => rfl
    | cons same alike => simp [Statement.ofDeletion, valid, valid', tests]
  · intro some_condition
    refine ⟨.delete (rowTests conditions), ?_, writes_delete conditions,
      tests ▸ writes_delete others⟩
    have some_one : conditions.isEmpty = false := by simpa using some_condition
    simp [Statement.ofDeletion, some_one, valid]

/-- A guest's title, and no marks to leave out. -/
def invited : List Condition :=
  [.of .title .eq (.one .text "opera"), .of .notified .notIn (.set .instant [])]

/-- A title that would end the statement and begin another, and a mark to leave out. -/
def intrusive : List Condition :=
  [.of .title .eq (.one .text "'; DELETE FROM events; -- $3"),
    .of .notified .notIn (.set .instant [.latest])]

theorem same_statements_intrusive
    : validateAll invited = .ok () ∧ validateAll intrusive = .ok ()
      ∧ List.Forall₂ Condition.Alike invited intrusive
      ∧ invited ≠ []
      ∧ ∃ delete,
          Statement.ofDeletion invited = .ok delete
            ∧ Statement.ofDeletion intrusive = .ok delete
            ∧ Writes intrusive (.delete intrusive) delete := by
  have valid : validateAll invited = .ok () := rfl
  have valid' : validateAll intrusive = .ok () := rfl
  have alike : List.Forall₂ Condition.Alike invited intrusive :=
    .cons ⟨rfl, rfl⟩ (.cons ⟨rfl, rfl⟩ .nil)
  have some_condition : invited ≠ [] := List.cons_ne_nil _ _
  obtain ⟨-, same, deletion⟩ := same_statements valid valid' alike []
  obtain ⟨delete, made, -, writes⟩ := deletion some_condition
  exact ⟨valid, valid', alike, some_condition, delete, made, same ▸ made, writes⟩

end Sql

end Almanac
