import Almanac.Json.Record
import Mathlib.Data.List.Perm.Basic

/-! The members of objects. A record that is read from an object takes nothing from the order of its
members, and nothing from members that it does not name.
-/

namespace Almanac.Json

-------------------------------------------------------------------------------
-- Names
-------------------------------------------------------------------------------

/-- A field as the member of an object. -/
def asMember (field : String × Json) : Option String × Json :=
  (some field.1, field.2)

theorem asMember_injective : Function.Injective asMember := by
  rintro ⟨name, v⟩ ⟨other, w⟩ same
  cases same
  rfl

/-- The members of an object are named when they are fields. -/
theorem named?_eq_some_iff {members : List (Option String × Json)} {fields : List (String × Json)}
    : named? members = some fields ↔ members = fields.map asMember := by
  induction members generalizing fields with
  | nil => simp [named?, eq_comm]
  | cons member members ih =>
      obtain ⟨name, v⟩ := member
      rw [eq_comm (b := fields.map asMember), List.map_eq_cons_iff]
      cases name with
      | none => simp [named?, asMember]
      | some name =>
          simp only [named?, Option.bind_some, Option.map_eq_some_iff, ih]
          constructor
          · rintro ⟨others, rfl, rfl⟩
            exact ⟨(name, v), others, rfl, rfl, rfl⟩
          · rintro ⟨field, others, rfl, same, rfl⟩
            cases same
            exact ⟨others, rfl, rfl⟩

theorem exists_eq_map_asMember {members : List (Option String × Json)}
    (named : ∀ member ∈ members, member.1.isSome)
    : ∃ fields : List (String × Json), members = fields.map asMember := by
  induction members with
  | nil => exact ⟨[], rfl⟩
  | cons member members ih =>
      obtain ⟨first, others⟩ := List.forall_mem_cons.mp named
      obtain ⟨fields, rfl⟩ := ih others
      obtain ⟨name, name_eq⟩ := Option.isSome_iff_exists.mp first
      exact ⟨(name, member.2) :: fields, by rw [List.map_cons, asMember, ← name_eq]⟩

/-- Fields in another order are members in another order. -/
theorem exists_perm_of_map_asMember {members : List (Option String × Json)}
    {fields : List (String × Json)} (order : members.Perm (fields.map asMember))
    : ∃ others : List (String × Json), members = others.map asMember ∧ others.Perm fields := by
  have named : ∀ member ∈ members, member.1.isSome := by
    intro member mem
    obtain ⟨field, -, rfl⟩ := List.mem_map.mp (order.mem_iff.mp mem)
    rfl
  obtain ⟨others, rfl⟩ := exists_eq_map_asMember named
  exact ⟨others, rfl, (List.map_perm_map_iff asMember_injective).mp order⟩

-------------------------------------------------------------------------------
-- Fields of one name
-------------------------------------------------------------------------------

/-- The fields that are given under a name. -/
def given (fields : List (String × Json)) (name : String) : List (String × Json) :=
  fields.filter (·.1 = name)

theorem lookup_eq_head?_given (fields : List (String × Json)) (name : String)
    : fields.lookup name = (given fields name).head?.map Prod.snd := by
  induction fields with
  | nil => rfl
  | cons field fields ih =>
      obtain ⟨other, v⟩ := field
      by_cases same : other = name
      · simp [given, same]
      · simp only [given] at ih
        simp [given, same, List.lookup_cons, beq_eq_false_iff_ne.mpr (Ne.symm same), ih]

/-- The members of a name are counted by their names. -/
theorem length_given (fields : List (String × Json)) (name : String)
    : (given fields name).length = ((fields.map asMember).map Prod.fst).count (some name) := by
  rw [given, ← List.countP_eq_length_filter, List.count_eq_countP, List.countP_map, List.countP_map]
  congr 1

/-- An object gives its members for fields when they are named and no field is given twice. -/
theorem fields?_object_eq_some_iff {names : List String} {members : List (Option String × Json)}
    {fields : List (String × Json)}
    : (object members).fields? names = some fields
      ↔ members = fields.map asMember ∧ ∀ name ∈ names, (given fields name).length ≤ 1 := by
  simp only [fields?, Option.bind_eq_some_iff, named?_eq_some_iff, given]
  constructor
  · rintro ⟨found, rfl, read⟩
    split at read
    case isTrue once =>
        cases read
        exact ⟨rfl, by simpa using once⟩
    case isFalse => cases read
  · rintro ⟨rfl, once⟩
    exact ⟨fields, rfl, if_pos (by simpa using once)⟩

-------------------------------------------------------------------------------
-- Further members
-------------------------------------------------------------------------------

/-- Whether members are others in any order, and further ones of names outside a list. -/
def Widens (names : List String) (members wider : List (Option String × Json)) : Prop :=
  ∃ further, wider.Perm (members ++ further)
    ∧ ∀ member ∈ further, ∃ name, name ∉ names ∧ member.1 = some name

/-- Whether members are others in any order, with one more of a listed name that they have, and
further ones. -/
def Doubles (names : List String) (members wider : List (Option String × Json)) : Prop :=
  ∃ name v further, name ∈ names ∧ some name ∈ members.map Prod.fst
    ∧ wider.Perm ((some name, v) :: (members ++ further))

/-- Further members leave what is found by a name as it is. -/
theorem Widens.exists_fields {names : List String} {members wider : List (Option String × Json)}
    (widens : Widens names members wider) {fields : List (String × Json)}
    (read : (object members).fields? names = some fields)
    : ∃ others, (object wider).fields? names = some others
        ∧ ∀ name ∈ names, others.lookup name = fields.lookup name := by
  obtain ⟨further, order, unknown⟩ := widens
  obtain ⟨rfl, once⟩ := fields?_object_eq_some_iff.mp read
  obtain ⟨extra, rfl⟩ : ∃ extra : List (String × Json), further = extra.map asMember := by
    refine exists_eq_map_asMember fun member mem => ?_
    obtain ⟨name, -, name_eq⟩ := unknown member mem
    rw [name_eq]
    rfl
  rw [← List.map_append] at order
  obtain ⟨others, rfl, same_fields⟩ := exists_perm_of_map_asMember order
  have same : ∀ name ∈ names, given others name = given fields name := by
    intro name known
    have apart : given extra name = [] := by
      refine List.filter_eq_nil_iff.mpr fun field mem same => ?_
      obtain ⟨other, fresh, other_eq⟩ := unknown _ (List.mem_map_of_mem mem)
      cases other_eq
      exact fresh (of_decide_eq_true same ▸ known)
    have order : (given others name).Perm (given fields name) := by
      have order := same_fields.filter (·.1 = name)
      rwa [List.filter_append, ← given, ← given, ← given, apart, List.append_nil] at order
    have once := once name known
    cases fields_eq : given fields name with
    | nil => exact List.perm_nil.mp (fields_eq ▸ order)
    | cons field more =>
        obtain rfl : more = [] := by simpa [fields_eq] using once
        exact List.perm_singleton.mp (fields_eq ▸ order)
  refine ⟨others, fields?_object_eq_some_iff.mpr ⟨rfl, fun name known => ?_⟩, fun name known => ?_⟩
  · rw [same name known]
    exact once name known
  · rw [lookup_eq_head?_given, same name known, ← lookup_eq_head?_given]

/-- A field that is given twice is refused. -/
theorem Doubles.fields?_eq_none {names : List String} {members wider : List (Option String × Json)}
    (doubles : Doubles names members wider)
    : (object wider).fields? names = none := by
  refine Option.eq_none_iff_forall_ne_some.mpr fun fields read => ?_
  obtain ⟨name, v, further, known, present, order⟩ := doubles
  obtain ⟨rfl, once⟩ := fields?_object_eq_some_iff.mp read
  have twice : 1 < (given fields name).length := by
    rw [length_given, (order.map Prod.fst).count_eq, List.map_cons, List.count_cons_self,
      List.map_append, List.count_append]
    have present := List.count_pos_iff.mpr present
    omega
  exact absurd (once name known) (by omega)

end Almanac.Json
