import Almanac.Proofs.Query.Sorting

/-! Sorting by several keys: the comparison is consistent, there is one stable way to sort, and it
can be done key by key.
Events that compare equal are told apart by their place alone. A list is therefore sorted stably
when the events of each tie stand in it as they stood before.
-/

namespace Almanac.Query

variable {keys : List SortKey} {a b : Event} {events result other : List Event}

-------------------------------------------------------------------------------
-- Comparisons under several keys
-------------------------------------------------------------------------------

/-- Fields compare as equal exactly if their values are, two missing ones included. -/
theorem compareField_eq_eq_iff {f : Field}
    : compareField f a b = .eq ↔ f.value? a = f.value? b := by
  unfold compareField
  cases f.value? a <;> cases f.value? b <;> simp [Kind.compare_eq_eq_iff]

/-- Whichever way a key sorts, it leaves a tie where the values of its field are the same. -/
theorem SortKey.compare_eq_eq_iff {key : SortKey}
    : key.compare a b = .eq ↔ key.field.value? a = key.field.value? b := by
  rw [← compareField_eq_eq_iff]
  obtain ⟨field, direction⟩ := key
  cases direction with
  | ascending => rfl
  | descending => exact Ordering.swap_eq_eq

/-- Events tie under keys exactly if they agree in all of the fields, by induction on the keys. -/
theorem compareBy_eq_eq_iff
    : compareBy keys a b = .eq ↔ ∀ key ∈ keys, key.field.value? a = key.field.value? b := by
  induction keys with
  | nil => simp [compareBy]
  | cons key keys ih => simp [compareBy, Ordering.then_eq_eq, SortKey.compare_eq_eq_iff, ih]

/-- Sort keys put events into a total order up to ties. -/
structure OrdersTotally (keys : List SortKey) : Prop where
  reversed : ∀ a b, compareBy keys b a = (compareBy keys a b).swap
  transitive
    : ∀ a b c, compareBy keys a b ≠ .gt → compareBy keys b c ≠ .gt → compareBy keys a c ≠ .gt
  /-- Events are tied just when every field that is sorted by has the same value, or is unset in
  both. -/
  tied_iff
    : ∀ a b, compareBy keys a b = .eq ↔ ∀ key ∈ keys, key.field.value? a = key.field.value? b

/-- Comparing by keys is a total preorder, as it is one key after the other. -/
theorem ordersTotally (keys : List SortKey) : OrdersTotally keys where
  reversed _ _ := (transCmp_compareBy keys).eq_swap
  transitive a b c ab bc := by
    rw [ne_eq, Ordering.ne_gt_iff_isLE] at ab bc ⊢
    exact (transCmp_compareBy keys).isLE_trans ab bc
  tied_iff _ _ := compareBy_eq_eq_iff

-------------------------------------------------------------------------------
-- Stably sorted lists
-------------------------------------------------------------------------------

/-- Whether the keys leave a tie between two events. -/
def tied (keys : List SortKey) (a b : Event) : Bool :=
  compareBy keys a b = .eq

theorem tied_iff : tied keys a b ↔ ∀ key ∈ keys, key.field.value? a = key.field.value? b := by
  rw [tied, decide_eq_true_eq, compareBy_eq_eq_iff]

theorem tied_self (keys : List SortKey) (a : Event) : tied keys a a :=
  tied_iff.mpr fun _ _ => rfl

/-- Events tie under two lists of keys exactly if they tie under both. -/
theorem tied_append (keys more : List SortKey) (a b : Event)
    : tied (keys ++ more) a b = (tied keys a b && tied more a b) := by
  rw [Bool.eq_iff_iff, Bool.and_eq_true, tied_iff, tied_iff, tied_iff]
  exact List.forall_mem_append

/-- A list has the events of another in the order of the keys, and those of each tie as they stood
there. -/
structure StablySorted (keys : List SortKey) (events result : List Event) : Prop where
  rearranged : result.Perm events
  sorted : result.Pairwise fun a b => compareBy keys a b ≠ .gt
  stable : ∀ e, result.filter (tied keys e) = events.filter (tied keys e)

/-- The events of a tie are in order already, so sorting keeps them as they stand. -/
theorem stablySorted_sortBy (keys : List SortKey) (events : List Event)
    : StablySorted keys events (sortBy keys events) where
  rearranged := sortBy_perm keys events
  sorted := by
    have sorted := List.pairwise_mergeSort (sorts_trans keys) (sorts_total keys) events
    exact sorted.imp fun upward => by simpa using upward
  stable e := by
    have alike : (events.filter (tied keys e)).Pairwise fun a b =>
        decide (compareBy keys a b ≠ .gt) := by
      refine List.pairwise_of_forall_mem_list fun a ha b hb => ?_
      have first := tied_iff.mp (List.mem_filter.mp ha).2
      have second := tied_iff.mp (List.mem_filter.mp hb).2
      have tie : compareBy keys a b = .eq :=
        compareBy_eq_eq_iff.mpr fun key member =>
          (first key member).symm.trans (second key member)
      simp [tie]
    have kept := (List.sublist_mergeSort (sorts_trans keys) (sorts_total keys) alike
      List.filter_sublist).filter (tied keys e)
    rw [List.filter_filter] at kept
    simp only [Bool.and_self] at kept
    exact (kept.eq_of_length ((sortBy_perm keys events).filter _).length_eq.symm).symm

/-- What stands first in a sorted list comes before every other event, or is tied with it. -/
theorem not_gt_of_sorted {e : Event} {rest : List Event}
    (sorted : (a :: rest).Pairwise fun a b => compareBy keys a b ≠ .gt) (member : e ∈ a :: rest)
    : compareBy keys a e ≠ .gt := by
  rcases List.mem_cons.mp member with rfl | later
  · rw [compareBy_eq_eq_iff.mpr fun _ _ => rfl]
    exact Ordering.noConfusion
  · exact (List.pairwise_cons.mp sorted).1 e later

/-- Every event is in its own tie, so lists that agree on every tie have the same events. -/
theorem mem_iff_of_ties (same : ∀ e, result.filter (tied keys e) = other.filter (tied keys e))
    : a ∈ result ↔ a ∈ other := by
  have tie := congrArg (a ∈ ·) (same a)
  simpa [List.mem_filter, tied_self] using tie

/-- Sorted lists that agree on every tie are the same, by induction on them: the events that they
begin with are tied, and so each of them is the first of the same tie. -/
theorem eq_of_sorted (sorted : result.Pairwise fun a b => compareBy keys a b ≠ .gt)
    (sorted' : other.Pairwise fun a b => compareBy keys a b ≠ .gt)
    (same : ∀ e, result.filter (tied keys e) = other.filter (tied keys e))
    : result = other := by
  induction result generalizing other with
  | nil =>
      have empty : ∀ e, e ∉ other := fun e => (mem_iff_of_ties same).not.mp List.not_mem_nil
      exact (List.eq_nil_iff_forall_not_mem.mpr empty).symm
  | cons a rest ih =>
      cases other with
      | nil => exact absurd ((mem_iff_of_ties same).mp List.mem_cons_self) List.not_mem_nil
      | cons b rest' =>
          have upward := not_gt_of_sorted sorted ((mem_iff_of_ties same).mpr List.mem_cons_self)
          have downward := not_gt_of_sorted sorted' ((mem_iff_of_ties same).mp List.mem_cons_self)
          have tie : tied keys a b := by
            rw [(ordersTotally keys).reversed a b] at downward
            cases order : compareBy keys a b <;> simp_all [tied]
          have first := same a
          rw [List.filter_cons_of_pos (tied_self keys a), List.filter_cons_of_pos tie] at first
          obtain ⟨rfl, -⟩ := List.cons.inj first
          have others (e : Event) : rest.filter (tied keys e) = rest'.filter (tied keys e) := by
            have both := same e
            by_cases tie : tied keys e a
            · rw [List.filter_cons_of_pos tie, List.filter_cons_of_pos tie] at both
              exact (List.cons.inj both).2
            · rwa [List.filter_cons_of_neg tie, List.filter_cons_of_neg tie] at both
          rw [ih (List.pairwise_cons.mp sorted).2 (List.pairwise_cons.mp sorted').2 others]

/-- There is one stable way to sort. -/
theorem eq_sortBy_iff_stablySorted
    : result = sortBy keys events ↔ StablySorted keys events result := by
  constructor
  · rintro rfl
    exact stablySorted_sortBy keys events
  · intro h
    have sorts := stablySorted_sortBy keys events
    exact eq_of_sorted h.sorted sorts.sorted fun e => (h.stable e).trans (sorts.stable e).symm

/-- Events that are sorted by some keys and then by others are sorted by the later keys, and where
these leave a tie by the earlier ones. -/
theorem stablySorted_sortBy_sortBy (keys more : List SortKey) (events : List Event)
    : StablySorted (keys ++ more) events (sortBy keys (sortBy more events)) where
  rearranged := (sortBy_perm _ _).trans (sortBy_perm _ _)
  sorted := by
    have before := (stablySorted_sortBy more events).sorted
    have after := pairwise_mergeSort_stable (sorts_trans keys) (sorts_total keys) before
    refine after.imp fun {a b} sorted => ?_
    simp only [ne_eq, decide_eq_true_eq] at sorted
    obtain ⟨upward, tie⟩ := sorted
    rw [compareBy_append]
    cases order : compareBy keys a b with
    | lt => simp
    | gt => exact absurd order upward
    | eq => exact tie (by rw [(ordersTotally keys).reversed a b, order]; simp)
  stable e := by
    have split : tied (keys ++ more) e = fun other => tied more e other && tied keys e other := by
      funext other
      rw [tied_append, Bool.and_comm]
    have swap (l : List Event)
        : (l.filter (tied keys e)).filter (tied more e)
            = (l.filter (tied more e)).filter (tied keys e) := by
      rw [List.filter_filter, List.filter_filter]
      exact List.filter_congr fun _ _ => Bool.and_comm _ _
    rw [split, ← List.filter_filter, ← List.filter_filter,
      (stablySorted_sortBy keys _).stable, swap, (stablySorted_sortBy more _).stable, swap]

/-- Any sort keys order events totally up to ties. What they sort is sorted stably, in the only way
there is, and sorting by more keys can be done in two steps, the later keys first. -/
theorem sorts_stably (keys : List SortKey)
    : OrdersTotally keys
      ∧ (∀ events result, result = sortBy keys events ↔ StablySorted keys events result)
      ∧ ∀ more events, sortBy keys (sortBy more events) = sortBy (keys ++ more) events :=
  ⟨ordersTotally keys, fun _ _ => eq_sortBy_iff_stablySorted,
    fun more events => eq_sortBy_iff_stablySorted.mpr (stablySorted_sortBy_sortBy keys more events)⟩

end Almanac.Query
