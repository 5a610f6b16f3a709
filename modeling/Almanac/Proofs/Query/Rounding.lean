import Almanac.Proofs.Query.Sorting
import Almanac.Proofs.Time.Truncation

/-! Conditions on values that stores have cut to whole microseconds.
Instants are cut downwards and spans toward zero, and spans that are too long are kept whole. Each
of these keeps the order of values and may make equal what was not. So a comparison that allows
equality survives the cut, and one that excludes it is seen after the cut only if it held before.
-/

namespace Almanac

open Query Time

namespace Query

-------------------------------------------------------------------------------
-- The order of values
-------------------------------------------------------------------------------

namespace Kind

/-- Whether a value comes before another one of its kind. -/
def Before : (k : Kind) → k.Carrier → k.Carrier → Prop
  | .identifier => fun a b => LT.lt (α := Uuid) a b
  | .text => fun a b => LT.lt (α := String) a b
  | .instant => fun a b => LT.lt (α := Instant) a b
  | .span => fun a b => Span.nanos a < Span.nanos b

variable {k : Kind} {a b : k.Carrier}

theorem compare_eq_lt_iff : k.compare a b = .lt ↔ k.Before a b := by
  cases k with
  | identifier => exact compare_lt_iff_lt (α := Uuid)
  | text => exact compareOfLessAndEq_eq_lt (α := String)
  | instant => exact compare_lt_iff_lt (α := Instant)
  | span => exact compare_lt_iff_lt (α := Span)

theorem compare_eq_gt_iff : k.compare a b = .gt ↔ k.Before b a := by
  have swap : Ord.compare a b = .gt ↔ Ord.compare b a = .lt := Std.OrientedCmp.gt_iff_lt
  exact swap.trans compare_eq_lt_iff

/-- Values that are in an order when they are cut were in this order before. -/
theorem before_of_truncate (before : k.Before (k.truncate a) (k.truncate b)) : k.Before a b := by
  cases k with
  | identifier => exact before
  | text => exact before
  | instant =>
      exact lt_of_not_ge fun (le : LE.le (α := Instant) b a) =>
        not_lt_of_ge (Instant.truncate_mono le) before
  | span =>
      exact Int.lt_of_not_ge fun le =>
        Int.not_lt_of_ge (Span.nanos_truncate_mono le) before

theorem truncate_truncate (k : Kind) (a : k.Carrier)
    : k.truncate (k.truncate a) = k.truncate a := by
  cases k with
  | identifier => rfl
  | text => rfl
  | instant => exact Instant.truncate_truncate a
  | span => exact Span.truncate_truncate a

end Kind

-------------------------------------------------------------------------------
-- Comparisons
-------------------------------------------------------------------------------

/-- A comparison that holds of a value and an operand, read as it is written. -/
inductive Compares {k : Kind} (actual : k.Carrier) : Operator → Operand → Prop
  | eq {v : k.Carrier} (same : actual = v) : Compares actual .eq (.one k v)
  | ne {v : k.Carrier} (differs : actual ≠ v) : Compares actual .ne (.one k v)
  | lt {v : k.Carrier} (before : k.Before actual v) : Compares actual .lt (.one k v)
  | le {v : k.Carrier} (upTo : ¬k.Before v actual) : Compares actual .le (.one k v)
  | gt {v : k.Carrier} (after : k.Before v actual) : Compares actual .gt (.one k v)
  | ge {v : k.Carrier} (fromOn : ¬k.Before actual v) : Compares actual .ge (.one k v)
  | isIn {vs : List k.Carrier} (member : actual ∈ vs) : Compares actual .isIn (.set k vs)
  | notIn {vs : List k.Carrier} (outside : actual ∉ vs) : Compares actual .notIn (.set k vs)

/-- Whether an operator holds of equal values. The others exclude equality. -/
def Operator.AllowsEqual : Operator → Prop
  | .eq | .le | .ge | .isIn => True
  | .ne | .lt | .gt | .notIn => False

namespace Compares

variable {k : Kind} {actual v : k.Carrier} {operator : Operator} {o : Operand}

/-- Where equality is allowed, a comparison holds of cut values too. -/
theorem truncate (ties : operator.AllowsEqual) (holds : Compares actual operator o)
    : Compares (k.truncate actual) operator o.truncate := by
  cases holds with
  | eq same => exact .eq (congrArg k.truncate same)
  | le upTo => exact .le fun before => upTo (Kind.before_of_truncate before)
  | ge fromOn => exact .ge fun before => fromOn (Kind.before_of_truncate before)
  | isIn member => exact .isIn (List.mem_map_of_mem member)
  | ne | lt | gt | notIn => exact ties.elim

/-- Where equality is excluded, a comparison of cut values holds of the values themselves. -/
theorem of_truncate (strict : ¬operator.AllowsEqual)
    (holds : Compares (k.truncate actual) operator o.truncate)
    : Compares actual operator o := by
  cases o with
  | one other v =>
      cases holds with
      | ne differs => exact .ne fun same => differs (congrArg k.truncate same)
      | lt before => exact .lt (Kind.before_of_truncate before)
      | gt after => exact .gt (Kind.before_of_truncate after)
      | eq | le | ge => exact absurd trivial strict
  | set other vs =>
      cases holds with
      | notIn outside => exact .notIn fun member => outside (List.mem_map_of_mem member)
      | isIn => exact absurd trivial strict

end Compares

/-- How a value compares with another one decides every comparison with it, operator by operator. -/
theorem accepts_compare_iff {k : Kind} {actual v : k.Carrier} {operator : Operator}
    (scalar : operator.takesSet = false)
    : operator.accepts (k.compare actual v) ↔ Compares actual operator (.one k v) := by
  cases operator with
  | eq => exact decide_eq_true_iff.trans (Kind.compare_eq_eq_iff.trans ⟨.eq, fun | .eq h => h⟩)
  | ne =>
      exact decide_eq_true_iff.trans
        ((not_congr Kind.compare_eq_eq_iff).trans ⟨.ne, fun | .ne h => h⟩)
  | lt => exact decide_eq_true_iff.trans (Kind.compare_eq_lt_iff.trans ⟨.lt, fun | .lt h => h⟩)
  | le =>
      exact decide_eq_true_iff.trans
        ((not_congr Kind.compare_eq_gt_iff).trans ⟨.le, fun | .le h => h⟩)
  | gt => exact decide_eq_true_iff.trans (Kind.compare_eq_gt_iff.trans ⟨.gt, fun | .gt h => h⟩)
  | ge =>
      exact decide_eq_true_iff.trans
        ((not_congr Kind.compare_eq_lt_iff).trans ⟨.ge, fun | .ge h => h⟩)
  | isIn | notIn => cases scalar

/-- A value compares only with operands of the shape that the operator asks for. -/
theorem Compares.shape_eq {k : Kind} {actual : k.Carrier} {operator : Operator} {o : Operand}
    (holds : Compares actual operator o)
    : o.shape = ⟨k, operator.takesSet⟩ := by
  cases holds <;> rfl

theorem Compares.isIn_iff {k : Kind} {actual : k.Carrier} {vs : List k.Carrier}
    : Compares actual .isIn (.set k vs) ↔ actual ∈ vs :=
  ⟨fun | .isIn member => member, .isIn⟩

theorem Compares.notIn_iff {k : Kind} {actual : k.Carrier} {vs : List k.Carrier}
    : Compares actual .notIn (.set k vs) ↔ actual ∉ vs :=
  ⟨fun | .notIn outside => outside, .notIn⟩

namespace Operand

variable {k : Kind} {actual : k.Carrier} {operator : Operator} {o : Operand}

/-- A scalar comparison is computed as it is meant; a value of another kind compares with
nothing. -/
theorem any_compare?_iff (scalar : operator.takesSet = false)
    : (o.compare? k actual).any operator.accepts ↔ Compares actual operator o := by
  cases o with
  | one other v =>
      by_cases same : other = k
      · subst same
        simpa [compare?] using accepts_compare_iff scalar
      · have apart : ¬Compares actual operator (.one other v) :=
          fun holds => same (congrArg Shape.kind holds.shape_eq)
        simp [compare?, same, apart]
  | set other vs =>
      have apart : ¬Compares actual operator (.set other vs) := fun holds => by
        have shape := congrArg Shape.isSet holds.shape_eq
        rw [scalar] at shape
        cases shape
      simp [compare?, apart]

theorem contains_iff : o.contains k actual ↔ Compares actual .isIn o := by
  cases o with
  | one other v => exact ⟨nofun, nofun⟩
  | set other vs =>
      by_cases same : other = k
      · subst same
        rw [contains, dif_pos rfl, decide_eq_true_iff, Compares.isIn_iff]
      · have apart : ¬Compares actual .isIn (.set other vs) :=
          fun holds => same (congrArg Shape.kind holds.shape_eq)
        simp [contains, same, apart]

theorem not_contains_iff (shape : o.shape = ⟨k, true⟩)
    : !o.contains k actual ↔ Compares actual .notIn o := by
  cases o with
  | one other v => cases shape
  | set other vs =>
      obtain rfl : other = k := congrArg Shape.kind shape
      rw [contains, dif_pos rfl, Bool.not_eq_true', decide_eq_false_iff_not, Compares.notIn_iff]

end Operand

-------------------------------------------------------------------------------
-- Conditions
-------------------------------------------------------------------------------

namespace Condition

variable {f : Field} {e : Event} {actual : f.kind.Carrier} {operator : Operator} {o : Operand}

/-- A condition is met when the field's value compares with the operand as is written. An operand of
another shape is refused, and compares with nothing. -/
theorem matchesEvent_eq_ok_true_iff (value : f.value? e = some actual)
    : matchesEvent { field := f, operator, operand := o } e = .ok true
      ↔ Compares actual operator o := by
  by_cases shape : o.shape = ⟨f.kind, operator.takesSet⟩
  · have held : matchesEvent { field := f, operator, operand := o } e = .ok true
        ↔ holds { field := f, operator, operand := o } e := by
      simp [matchesEvent, validate, expected, shape, Except.map]
    rw [held, holds, value]
    cases operator with
    | isIn => exact Operand.contains_iff
    | notIn => exact Operand.not_contains_iff shape
    | eq | ne | lt | le | gt | ge => exact Operand.any_compare?_iff rfl
  · have refused : matchesEvent { field := f, operator, operand := o } e ≠ .ok true := by
      simp [matchesEvent, validate, expected, shape, Except.map]
    exact iff_of_false refused fun compares => shape compares.shape_eq

/-- A normalised event has each of its values truncated, field by field. -/
theorem value?_normalize (f : Field) (e : Event)
    : f.value? e.normalize = (f.value? e).map f.kind.truncate := by
  cases f <;> rfl

/-- How conditions on stored events stand to comparisons of the values that were not cut. -/
structure KeepsOrder (f : Field) (e : Event) (actual : f.kind.Carrier) : Prop where
  /-- A condition compares the cut value with the cut operand. -/
  exactly
    : ∀ operator o, (of f operator o).matchesEvent e.normalize = .ok true
        ↔ Compares (f.kind.truncate actual) operator o.truncate
  /-- Where equality is allowed, what holds of the values is met. -/
  kept
    : ∀ operator o, operator.AllowsEqual → Compares actual operator o →
        (of f operator o).matchesEvent e.normalize = .ok true
  /-- Where equality is excluded, what is met holds of the values. -/
  reflected
    : ∀ operator o, ¬operator.AllowsEqual →
        (of f operator o).matchesEvent e.normalize = .ok true → Compares actual operator o

theorem of_of (f : Field) (operator : Operator) (o : Operand)
    : of f operator (of f operator o).operand = of f operator o := by
  cases o with
  | one k v => simp [of, Operand.truncate, Kind.truncate_truncate]
  | set k vs => simp [of, Operand.truncate, Kind.truncate_truncate, Function.comp_def]

/-- Rounding a field keeps what a condition says of it but for ties, in both directions. -/
theorem keepsOrder (value : f.value? e = some actual) : KeepsOrder f e actual := by
  have cut : f.value? e.normalize = some (f.kind.truncate actual) := by
    rw [value?_normalize, value, Option.map_some]
  constructor
  case exactly => exact fun operator o => matchesEvent_eq_ok_true_iff cut
  case kept =>
    intro operator o ties holds
    exact (matchesEvent_eq_ok_true_iff cut).mpr (holds.truncate ties)
  case reflected =>
    intro operator o strict met
    exact .of_truncate strict ((matchesEvent_eq_ok_true_iff cut).mp met)

/-- Conditions on stored events keep the order of the values that were cut, for every field that is
set. What was cut once is cut no further. -/
theorem truncation_keeps_order
    : (∀ (f : Field) (e : Event) (actual : f.kind.Carrier), f.value? e = some actual →
        KeepsOrder f e actual)
      ∧ (∀ e : Event, e.normalize.normalize = e.normalize)
      ∧ ∀ f operator o, of f operator (of f operator o).operand = of f operator o :=
  ⟨fun _ _ _ => keepsOrder, Event.normalize_normalize, of_of⟩

/-- An event whose lead is cut, while a lead that is half a microsecond longer is kept whole. -/
def onTheBrink : Event :=
  { id := .nil
    owner := .nil
    title := ""
    description := ""
    start := .ofParts (-1) 999999999 (by omega)
    finish := .earliest
    lead := ⟨-9223372036854775808500, by omega⟩
    notified := none }

/-- The lead comes after a longer one before and after the cut, though only one of the two is
cut. -/
theorem truncation_keeps_order_onTheBrink
    : Field.lead.value? onTheBrink = some (⟨-9223372036854775808500, by omega⟩ : Span)
      ∧ (of .lead .gt (.one .span ⟨-9223372036854775809000, by omega⟩)).matchesEvent
          onTheBrink.normalize = .ok true
      ∧ Compares (k := .span) ⟨-9223372036854775808500, by omega⟩ .gt
          (.one .span ⟨-9223372036854775809000, by omega⟩) := by
  have value : Field.lead.value? onTheBrink
      = some (⟨-9223372036854775808500, by omega⟩ : Span) := rfl
  have met : (of .lead .gt (.one .span ⟨-9223372036854775809000, by omega⟩)).matchesEvent
      onTheBrink.normalize = .ok true := by decide +kernel
  exact ⟨value, met, (truncation_keeps_order.1 .lead onTheBrink _ value).reflected .gt _ nofun met⟩

end Condition

end Query

end Almanac
