import Almanac.Proofs.Sql.Token
import Almanac.Query.Field

/-! The statements on the table of events, and how their text is read.
A condition is a conjunction of tests, in parentheses where they belong together. Keywords that
start a clause occur nowhere else, so a statement is cut at them.
-/

namespace Almanac.Sql

open Query

/-- A column in a comparison, and whether its texts are under the collation of bytes. -/
structure Column where
  field : Field
  bytewise : Bool
  deriving DecidableEq, Repr

/-- The comparisons of two values. -/
inductive Comparison where
  | equal
  | different
  | less
  | atMost
  | greater
  | atLeast
  deriving DecidableEq, Repr

/-- A condition on rows. -/
inductive Expr where
  | compares (column : Column) (comparison : Comparison) (parameter : Nat)
  | any (column : Column) (comparison : Comparison) (parameter : Nat)
  | all (column : Column) (comparison : Comparison) (parameter : Nat)
  | isNotNull (column : Column)
  | both (left right : Expr)
  deriving DecidableEq, Repr

structure Key where
  column : Column
  descending : Bool
  nullsFirst : Bool
  deriving DecidableEq, Repr

structure Select where
  columns : List Field
  condition : Option Expr
  keys : List Key
  deriving DecidableEq, Repr

structure Delete where
  condition : Option Expr
  deriving DecidableEq, Repr

inductive Command where
  | select (select : Select)
  | delete (delete : Delete)
  deriving DecidableEq, Repr

/-- The comparison that signs stand for. -/
def Comparison.ofSigns? : String → Option Comparison
  | "=" => some .equal
  | "<>" | "!=" => some .different
  | "<" => some .less
  | "<=" => some .atMost
  | ">" => some .greater
  | ">=" => some .atLeast
  | _ => none

/-- Reads a column and its collation. -/
def readColumn : List Token → Option (Column × List Token)
  | .word name :: .word "collate" :: .quoted collation :: rest =>
      if collation = "C" then (Field.ofName? name).map fun field => (⟨field, true⟩, rest) else none
  | .word name :: rest => (Field.ofName? name).map fun field => (⟨field, false⟩, rest)
  | _ => none

/-- Reads what is asked of a column. -/
def readTest (column : Column) : List Token → Option (Expr × List Token)
  | .word "is" :: .word "not" :: .word "null" :: rest => some (.isNotNull column, rest)
  | .sign signs :: .word "any" :: .opening :: .parameter n :: .closing :: rest =>
      (Comparison.ofSigns? signs).map fun comparison => (.any column comparison n, rest)
  | .sign signs :: .word "all" :: .opening :: .parameter n :: .closing :: rest =>
      (Comparison.ofSigns? signs).map fun comparison => (.all column comparison n, rest)
  | .sign signs :: .parameter n :: rest =>
      (Comparison.ofSigns? signs).map fun comparison => (.compares column comparison n, rest)
  | _ => none

/-- Reads a test, or a conjunction in parentheses. -/
def readTerm (readInner : List Token → Option (Expr × List Token))
    : List Token → Option (Expr × List Token)
  | .opening :: rest =>
      match readInner rest with
      | some (e, .closing :: rest) => some (e, rest)
      | _ => none
  | tokens => (readColumn tokens).bind fun (column, rest) => readTest column rest

/-- Reads a conjunction. Every level of it takes a token at least, so as many levels as there are
tokens are enough. -/
def readConjunction : (levels : Nat) → List Token → Option (Expr × List Token)
  | 0, _ => none
  | levels + 1, tokens =>
      match readTerm (readConjunction levels) tokens with
      | some (left, .word "and" :: rest) =>
          (readConjunction levels rest).map fun (right, rest) => (.both left right, rest)
      | term => term

def readRestriction : List Token → Option (Option Expr)
  | [] => some none
  | .word "where" :: rest =>
      match readConjunction rest.length rest with
      | some (e, []) => some (some e)
      | _ => none
  | _ => none

/-- Reads where unset values come; without a word they are greater than all others. -/
def readNulls (descending : Bool) : List Token → Option Bool
  | [] => some descending
  | [.word "nulls", .word "first"] => some true
  | [.word "nulls", .word "last"] => some false
  | _ => none

/-- Reads a sort key, which ascends unless it says otherwise. -/
def readKey (tokens : List Token) : Option Key :=
  (readColumn tokens).bind fun (column, rest) =>
    match rest with
    | .word "desc" :: rest => (readNulls true rest).map fun nullsFirst => ⟨column, true, nullsFirst⟩
    | .word "asc" :: rest | rest =>
        (readNulls false rest).map fun nullsFirst => ⟨column, false, nullsFirst⟩

def readOrder : List Token → Option (List Key)
  | [] => some []
  | .word "order" :: .word "by" :: rest => (rest.splitOnP (· = .comma)).mapM readKey
  | _ => none

def readName : List Token → Option Field
  | [.word name] => Field.ofName? name
  | _ => none

def readTable : List Token → Option (List Token)
  | .word "from" :: .word "events" :: rest => some rest
  | _ => none

def readCommand : List Token → Option Command
  | .word "select" :: rest => do
      let (names, rest) := rest.span (· ≠ .word "from")
      let columns ← (names.splitOnP (· = .comma)).mapM readName
      let rest ← readTable rest
      let (restriction, rest) := rest.span (· ≠ .word "order")
      let condition ← readRestriction restriction
      let keys ← readOrder rest
      some (.select { columns, condition, keys })
  | .word "delete" :: rest => do
      let rest ← readTable rest
      let condition ← readRestriction rest
      some (.delete { condition })
  | _ => none

/-- The statement that a text is. -/
def parse? (text : String) : Option Command :=
  (tokens? text.toList).bind readCommand

end Almanac.Sql
