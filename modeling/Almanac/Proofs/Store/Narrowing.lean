import Almanac.Proofs.Query.Mismatch
import Almanac.Proofs.Query.Sorting
import Almanac.Store.Table
import Mathlib.Data.List.Nodup

/-! Queries with more conditions.
Conditions pick events out one by one, and events that are picked out keep their order when they are
sorted. So a further condition leaves out of the answer what does not meet it, and changes nothing
else.
-/

namespace Almanac

open Query Store

namespace Query

variable {conditions more other : List Condition}

theorem validateAll_append (valid : validateAll conditions = .ok ())
    (valid' : validateAll more = .ok ())
    : validateAll (conditions ++ more) = .ok () := by
  rw [validateAll_eq_ok_iff] at valid valid' ⊢
  exact List.forall_mem_append.mpr ⟨valid, valid'⟩

theorem validateAll_perm (same : other.Perm conditions) (valid : validateAll conditions = .ok ())
    : validateAll other = .ok () := by
  rw [validateAll_eq_ok_iff] at valid ⊢
  exact fun c member => valid c (same.subset member)

/-- What is picked out by all of some conditions is picked out by part of them and then by the
rest. -/
theorem filter_holdsAll_append (conditions more : List Condition) (events : List Event)
    : events.filter (holdsAll (conditions ++ more))
      = (events.filter (holdsAll conditions)).filter (holdsAll more) := by
  rw [List.filter_filter]
  refine List.filter_congr fun e _ => ?_
  rw [holdsAll, List.all_append, Bool.and_comm]
  rfl

/-- It does not matter in which order conditions are given. -/
theorem holdsAll_perm (same : other.Perm conditions) : holdsAll other = holdsAll conditions :=
  funext fun _ => same.all_eq

end Query

namespace Store.Table

variable {t : Table} {conditions more : List Condition}

/-- Valid conditions are answered with the events that meet them, in the order of the keys. -/
theorem query_of_valid (valid : validateAll conditions = .ok ()) (keys : List SortKey)
    : t.query conditions keys = .ok (sortBy keys (t.events.filter (holdsAll conditions))) := by
  simp [query, select, valid, Except.map]

/-- What further conditions make of a query: `found` is the answer to the first conditions, and
`all` is the answer to none. -/
structure Narrows (t : Table) (conditions more : List Condition) (keys : List SortKey)
    (found all : List Event) : Prop where
  answered : t.query conditions keys = .ok found
  /-- What does not meet the further conditions is left out, and the rest keeps its order. -/
  narrowed : t.query (conditions ++ more) keys = .ok (found.filter (holdsAll more))
  part : (found.filter (holdsAll more)).Sublist found
  reordered
    : ∀ other, other.Perm (conditions ++ more) →
        t.query other keys = .ok (found.filter (holdsAll more))
  /-- Without conditions every event is listed, and none twice. -/
  unconditional : t.query [] keys = .ok all ∧ all.Perm t.events ∧ all.Nodup

/-- A query with more conditions is a query with fewer, whose answer is narrowed. The table has its
events in the order of their identifiers, which are distinct. -/
theorem query_narrows (ordered : t.events.Pairwise fun a b => a.id < b.id)
    (valid : validateAll conditions = .ok ()) (valid' : validateAll more = .ok ())
    (keys : List SortKey)
    : ∃ found all, Narrows t conditions more keys found all := by
  have both := validateAll_append valid valid'
  have split : sortBy keys (t.events.filter (holdsAll (conditions ++ more)))
      = (sortBy keys (t.events.filter (holdsAll conditions))).filter (holdsAll more) := by
    rw [filter_holdsAll_append]
    exact sortBy_filter keys (ordered.filter _) _
  have whole : t.events.filter (holdsAll []) = t.events :=
    List.filter_eq_self.mpr fun _ _ => rfl
  refine ⟨_, sortBy keys t.events, query_of_valid valid keys, ?_, List.filter_sublist,
    fun other same => ?_, ?_, sortBy_perm _ _, ?_⟩
  · rw [query_of_valid both, split]
  · rw [query_of_valid (validateAll_perm same both), holdsAll_perm same, split]
  · rw [query_of_valid validateAll_nil, whole]
  · have distinct : t.events.Nodup :=
      ordered.imp fun before same => ne_of_lt before (congrArg Event.id same)
    exact (sortBy_perm keys t.events).nodup_iff.mpr distinct

/-- An evening of the season. -/
def evening (number : BitVec 128) (title : String) (notified : Option Time.Instant) : Event :=
  { id := ⟨number⟩
    owner := .nil
    title
    description := ""
    start := .earliest
    finish := .earliest
    lead := .zero
    notified }

/-- Three evenings, of which two have the same title. -/
def season : Table :=
  ⟨[evening 1 "opera" none, evening 2 "ballet" (some .earliest),
    evening 3 "opera" (some .earliest)]⟩

/-- The operas, and those of them of which a notification is recorded. -/
theorem query_narrows_season
    : season.events.Pairwise (fun a b => a.id < b.id)
      ∧ validateAll [.of .title .eq (.one .text "opera")] = .ok ()
      ∧ validateAll [.of .notified .ge (.one .instant .earliest)] = .ok ()
      ∧ ∃ found all,
          Narrows season [.of .title .eq (.one .text "opera")]
            [.of .notified .ge (.one .instant .earliest)] [⟨.id, .descending⟩] found all := by
  have ordered : season.events.Pairwise fun a b => a.id < b.id := by decide
  exact ⟨ordered, rfl, rfl, query_narrows ordered rfl rfl [⟨.id, .descending⟩]⟩

end Store.Table

end Almanac
