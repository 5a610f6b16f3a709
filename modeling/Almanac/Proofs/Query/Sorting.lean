import Almanac.Proofs.Order
import Almanac.Query.Sort
import Mathlib.Data.List.Nodup

/-! Sort keys order events totally up to ties, and sorting leaves ties as they were. Events with
distinct identifiers thus have one order only once the identifier is the last key.
-/

namespace Almanac.Query

namespace Kind

instance (k : Kind) : Ord k.Carrier :=
  ⟨k.compare⟩

instance (k : Kind) : Std.TransOrd k.Carrier :=
  match k with
  | .identifier => inferInstanceAs (Std.TransOrd Uuid)
  | .text => inferInstanceAs (Std.TransOrd String)
  | .instant => inferInstanceAs (Std.TransOrd Time.Instant)
  | .span => inferInstanceAs (Std.TransOrd Time.Span)

/-- Values compare equal only when they are the same. -/
theorem compare_eq_eq_iff {k : Kind} {a b : k.Carrier} : k.compare a b = .eq ↔ a = b := by
  cases k with
  | identifier => exact compare_eq_iff_eq (α := Uuid)
  | text => exact Std.compare_eq_iff_eq (α := String)
  | instant => exact compare_eq_iff_eq (α := Time.Instant)
  | span => exact compare_eq_iff_eq (α := Time.Span)

end Kind

theorem compareField_eq (f : Field) : compareField f = compareOn (f.value? ·) := by
  funext a b
  simp only [compareField, compareOn]
  cases f.value? a <;> cases f.value? b <;> rfl

instance (f : Field) : Std.TransCmp (compareField f) := by
  rw [compareField_eq]
  infer_instance

instance (key : SortKey) : Std.TransCmp key.compare := by
  obtain ⟨field, direction⟩ := key
  cases direction with
  | ascending => exact inferInstanceAs (Std.TransCmp (compareField field))
  | descending =>
      have opposite : SortKey.compare ⟨field, .descending⟩ = fun a b => compareField field b a := by
        funext a b
        have total : Std.TransCmp (compareField field) := inferInstance
        exact total.eq_swap.symm
      rw [opposite]
      infer_instance

/-- Any keys compare events without contradiction, by induction on the keys. -/
theorem transCmp_compareBy (keys : List SortKey) : Std.TransCmp (compareBy keys) := by
  induction keys with
  | nil => exact { eq_swap := rfl, isLE_trans := fun _ _ => rfl }
  | cons key keys ih =>
      exact inferInstanceAs (Std.TransCmp (compareLex key.compare (compareBy keys)))

/-- Further keys matter where the first ones leave a tie. -/
theorem compareBy_append (keys more : List SortKey) (a b : Event)
    : compareBy (keys ++ more) a b = (compareBy keys a b).then (compareBy more a b) := by
  induction keys with
  | nil => rfl
  | cons key keys ih => rw [List.cons_append, compareBy, ih, compareBy, Ordering.then_assoc]

/-- Sorting leaves what compares equal in the order that it was in, by induction on the list: its
first element ends up before all that are not smaller. -/
theorem pairwise_mergeSort_stable {α : Type} {le : α → α → Bool} {before : α → α → Prop}
    (trans : ∀ a b c, le a b → le b c → le a c) (total : ∀ a b, le a b || le b a) {l : List α}
    (ordered : l.Pairwise before)
    : (l.mergeSort le).Pairwise fun a b => le a b ∧ (le b a → before a b) := by
  induction l with
  | nil => simp
  | cons a l ih =>
      obtain ⟨first, rest⟩ := List.pairwise_cons.mp ordered
      obtain ⟨smaller, others, whole, without, late⟩ := List.mergeSort_cons trans total a l
      have sorted := List.pairwise_mergeSort trans total (a :: l)
      rw [whole, List.pairwise_append, List.pairwise_cons] at sorted
      obtain ⟨-, ⟨upward, -⟩, across⟩ := sorted
      have stable := ih rest
      rw [without, List.pairwise_append] at stable
      obtain ⟨left, right, between⟩ := stable
      rw [whole, List.pairwise_append, List.pairwise_cons]
      refine ⟨left, ⟨?_, right⟩, ?_⟩
      · intro c mem
        have inside : c ∈ l := by
          have kept : c ∈ l.mergeSort le := without ▸ List.mem_append_right _ mem
          exact List.mem_mergeSort.mp kept
        exact ⟨upward c mem, fun _ => first c inside⟩
      · intro b mem c mem'
        rcases List.mem_cons.mp mem' with rfl | mem'
        -- What comes before the first element is strictly smaller, so no tie is turned round.
        · have strict : le c b = false := by simpa using late b mem
          exact ⟨across b mem c List.mem_cons_self, fun le => by simp [strict] at le⟩
        · exact between b mem c mem'

/-- What remains of a sorted list is sorted as if the rest had never been there: there is one stable
order. -/
theorem mergeSort_filter {α : Type} {le : α → α → Bool} {before : α → α → Prop} [Std.Asymm before]
    (trans : ∀ a b c, le a b → le b c → le a c) (total : ∀ a b, le a b || le b a) {l : List α}
    (ordered : l.Pairwise before) (keep : α → Bool)
    : (l.filter keep).mergeSort le = (l.mergeSort le).filter keep := by
  have same : ((l.filter keep).mergeSort le).Perm ((l.mergeSort le).filter keep) :=
    (List.mergeSort_perm _ le).trans ((List.mergeSort_perm l le).filter keep).symm
  refine same.eq_of_pairwise ?_ (pairwise_mergeSort_stable trans total (ordered.filter keep))
    ((pairwise_mergeSort_stable trans total ordered).filter keep)
  rintro a b - - ⟨upward, tie⟩ ⟨downward, tie'⟩
  exact absurd (tie' upward) (Std.Asymm.asymm a b (tie downward))

/-- The order of the keys, with the identifier as the last one. -/
def rank (keys : List SortKey) : Event → Event → Ordering :=
  compareBy (keys ++ [.ascending .id])

/-- The identifier decides where the keys leave a tie. -/
theorem rank_eq (keys : List SortKey) (a b : Event)
    : rank keys a b = (compareBy keys a b).then (compare a.id b.id) := by
  rw [rank, compareBy_append]
  exact congrArg (compareBy keys a b).then Ordering.then_eq

theorem eq_of_id_eq {events : List Event} (ordered : events.Pairwise fun a b => a.id < b.id)
    {a b : Event} (mem : a ∈ events) (mem' : b ∈ events) (same : a.id = b.id)
    : a = b := by
  have distinct : (events.map Event.id).Nodup := by
    rw [List.Nodup, List.pairwise_map]
    exact ordered.imp fun less => ne_of_lt less
  exact List.inj_on_of_nodup_map distinct mem mem' same

theorem sorts_trans (keys : List SortKey) (a b c : Event)
    (ab : decide (compareBy keys a b ≠ .gt)) (bc : decide (compareBy keys b c ≠ .gt))
    : decide (compareBy keys a c ≠ .gt) := by
  simp only [ne_eq, decide_eq_true_eq, Ordering.ne_gt_iff_isLE] at ab bc ⊢
  exact (transCmp_compareBy keys).isLE_trans ab bc

theorem sorts_total (keys : List SortKey) (a b : Event)
    : decide (compareBy keys a b ≠ .gt) || decide (compareBy keys b a ≠ .gt) := by
  rw [(transCmp_compareBy keys).eq_swap (a := b)]
  cases compareBy keys a b <;> rfl

/-- Sorted events are in the order of the keys, and of their identifiers where these leave a tie. -/
theorem pairwise_sortBy (keys : List SortKey) {events : List Event}
    (ordered : events.Pairwise fun a b => a.id < b.id)
    : (sortBy keys events).Pairwise fun a b => rank keys a b ≠ .gt := by
  have total := transCmp_compareBy keys
  have stable := pairwise_mergeSort_stable (sorts_trans keys) (sorts_total keys) ordered
  refine stable.imp fun {a b} sorted => ?_
  simp only [ne_eq, decide_eq_true_eq] at sorted
  obtain ⟨upward, tie⟩ := sorted
  rw [rank_eq]
  cases order : compareBy keys a b with
  | lt => simp
  | gt => exact absurd order upward
  | eq =>
      have less : a.id < b.id := tie (by rw [total.eq_swap, order]; simp)
      rw [compare_lt_iff_lt.mpr less]
      simp

/-- Events that are picked out and then sorted are those picked out of the sorted ones. -/
theorem sortBy_filter (keys : List SortKey) {events : List Event}
    (ordered : events.Pairwise fun a b => a.id < b.id) (keep : Event → Bool)
    : sortBy keys (events.filter keep) = (sortBy keys events).filter keep := by
  have asymm : Std.Asymm fun a b : Event => a.id < b.id := ⟨fun _ _ => lt_asymm⟩
  exact mergeSort_filter (sorts_trans keys) (sorts_total keys) ordered keep

/-- There is one way to put events with distinct identifiers into the order of the keys and the
identifiers: to sort them. -/
theorem eq_sortBy_iff (keys : List SortKey) {events result : List Event}
    (ordered : events.Pairwise fun a b => a.id < b.id)
    : result = sortBy keys events
      ↔ result.Perm events ∧ result.Pairwise fun a b => rank keys a b ≠ .gt := by
  constructor
  · rintro rfl
    exact ⟨sortBy_perm keys events, pairwise_sortBy keys ordered⟩
  · rintro ⟨same, sorted⟩
    refine List.Perm.eq_of_pairwise ?_ sorted (pairwise_sortBy keys ordered)
      (same.trans (sortBy_perm keys events).symm)
    intro a b mem mem' upward downward
    have total : Std.TransCmp (rank keys) := transCmp_compareBy _
    have tie : rank keys a b = .eq := by
      rw [total.eq_swap] at downward
      cases order : rank keys a b <;> simp_all
    rw [rank_eq, Ordering.then_eq_eq, compare_eq_iff_eq] at tie
    exact eq_of_id_eq ordered (same.mem_iff.mp mem) ((sortBy_perm keys events).mem_iff.mp mem')
      tie.2

end Almanac.Query
