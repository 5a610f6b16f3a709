import Almanac.Query.Condition

/-! What conditions come to whose operand has another shape than their field and operator ask for.
Such conditions are refused before events are looked at. On an event, though, they need not be
false: an operand that is no set of the field's kind has no member, and so the negated membership
holds of every value.
-/

namespace Almanac.Query

namespace Operand

variable {kind : Kind} {o : Operand}

/-- Only one value of the same kind compares with a value. -/
theorem compare?_eq_none (mismatch : o.shape ≠ ⟨kind, false⟩) (actual : kind.Carrier)
    : o.compare? kind actual = none := by
  cases o with
  | one other value =>
      have differs : other ≠ kind := fun same => mismatch (by rw [shape, same])
      simp [compare?, differs]
  | set other members => rfl

/-- Only a set of the same kind has a value as a member. -/
theorem contains_eq_false (mismatch : o.shape ≠ ⟨kind, true⟩) (actual : kind.Carrier)
    : o.contains kind actual = false := by
  cases o with
  | one other value => rfl
  | set other members =>
      have differs : other ≠ kind := fun same => mismatch (by rw [shape, same])
      simp [contains, differs]

end Operand

/-- Conditions are accepted when each of them is, by induction on them. -/
theorem validateAll_eq_ok_iff {conditions : List Condition}
    : validateAll conditions = .ok () ↔ ∀ c ∈ conditions, c.validate = .ok () := by
  induction conditions with
  | nil => simp [validateAll]
  | cons c conditions ih =>
      cases check : c.validate <;> simp [validateAll, check, Except.bind, ih]

namespace Condition

variable {c : Condition} {cause : QueryError}

/-- No event meets the condition. -/
def MatchesNothing (c : Condition) : Prop :=
  ∀ e, c.holds e = false

theorem shape_ne_of_refused (refused : c.validate = .error cause)
    : c.operand.shape ≠ c.expected := by
  intro same
  simp [validate, same] at refused

/-- An operand of another shape is met by no value under most operators, and by every value under
the negated membership. By cases on the operator. -/
theorem holds_iff_of_shape_ne (mismatch : c.operand.shape ≠ c.expected) (e : Event)
    : c.holds e ↔ c.operator = .notIn ∧ (c.field.value? e).isSome := by
  obtain ⟨field, operator, operand⟩ := c
  cases value : field.value? e with
  | none => simp [holds, value]
  | some actual =>
      cases operator with
      | isIn | notIn =>
          have outside : operand.contains field.kind actual = false :=
            Operand.contains_eq_false mismatch actual
          simp [holds, value, outside]
      | _ =>
          have apart : operand.compare? field.kind actual = none :=
            Operand.compare?_eq_none mismatch actual
          simp [holds, value, apart]

/-- An event in which every field is set. -/
def filled : Event :=
  { id := .nil
    owner := .nil
    title := ""
    description := ""
    start := .earliest
    finish := .earliest
    lead := .zero
    notified := some .earliest }

theorem isSome_value?_filled (f : Field) : (f.value? filled).isSome := by
  cases f <;> rfl

/-- A refused condition is met by the events in which its field is set, if its operator is the
negated membership, and by none otherwise. -/
theorem holds_refused_iff (refused : c.validate = .error cause)
    : (∀ e, c.holds e ↔ c.operator = .notIn ∧ (c.field.value? e).isSome)
      ∧ (c.MatchesNothing ↔ c.operator ≠ .notIn) := by
  have meets := holds_iff_of_shape_ne (shape_ne_of_refused refused)
  refine ⟨meets, fun nothing negated => ?_, fun other e => ?_⟩
  · have held := (meets filled).mpr ⟨negated, isSome_value?_filled c.field⟩
    rw [nothing filled] at held
    cases held
  · rw [Bool.eq_false_iff]
    exact fun held => other ((meets e).mp held).1

/-- A title that is not to be among some identifiers. -/
def foreignSet : Condition :=
  { field := .title, operator := .notIn, operand := .set .identifier [.nil] }

theorem validate_foreignSet
    : foreignSet.validate = .error (.incomparable .title .notIn ⟨.identifier, true⟩) := rfl

/-- The condition is refused, and met by every event. -/
theorem holds_refused_iff_foreignSet
    : foreignSet.validate = .error (.incomparable .title .notIn ⟨.identifier, true⟩)
      ∧ (∀ e, foreignSet.holds e ↔ foreignSet.operator = .notIn ∧ (Field.title.value? e).isSome)
      ∧ (foreignSet.MatchesNothing ↔ foreignSet.operator ≠ .notIn) :=
  ⟨validate_foreignSet, holds_refused_iff validate_foreignSet⟩

/-- Not every refused condition matches nothing. -/
theorem not_matchesNothing_foreignSet
    : ¬∀ (c : Condition) (cause : QueryError), c.validate = .error cause → c.MatchesNothing := by
  intro nothing
  have never : foreignSet.holds filled = false := nothing _ _ validate_foreignSet filled
  cases never

end Condition

end Almanac.Query
