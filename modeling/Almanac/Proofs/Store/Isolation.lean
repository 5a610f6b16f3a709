import Almanac.Proofs.Query.Sorting
import Almanac.Proofs.Store.Desk
import Mathlib.Data.List.Forall2

/-! What an owner can tell of the events of others: which identifiers are in use, and no more.
Two stores that differ in the events of others alone are served side by side.
-/

namespace Almanac

open Time Query Store

-------------------------------------------------------------------------------
-- Tables that look alike to an owner
-------------------------------------------------------------------------------

/-- Two records of one identifier that look alike to an owner: they are the same, or they both
belong to others. -/
inductive Event.Alike (owner : Uuid) : Event → Event → Prop where
  | same (e : Event) : Alike owner e e
  | foreign {a b : Event} (id : a.id = b.id) (left : a.owner ≠ owner) (right : b.owner ≠ owner)
    : Alike owner a b

namespace Event.Alike

variable {owner : Uuid} {a b : Event}

/-- Alike events share their identifier, whoever owns them. -/
theorem id_eq (h : Alike owner a b) : a.id = b.id := by
  cases h with
  | same => rfl
  | foreign id left right => exact id

theorem symm (h : Alike owner a b) : Alike owner b a := by
  cases h with
  | same => exact .same a
  | foreign id left right => exact .foreign id.symm right left

/-- An event that belongs to the owner looks like itself alone. -/
theorem eq_of_owner (h : Alike owner a b) (mine : a.owner = owner) : a = b := by
  cases h with
  | same => rfl
  | foreign id left right => exact absurd mine left

end Event.Alike

namespace Store.Table

/-- Tables that look alike to an owner: they have the same identifiers in use, and the same events
of the owner. -/
structure LooksAlike (owner : Uuid) (t other : Table) : Prop where
  used : ∀ id, t.contains id = other.contains id
  own : ∀ e, e.owner = owner → (e ∈ t.events ↔ e ∈ other.events)

/-- Tables whose records look alike to an owner, place by place. -/
def Aligned (owner : Uuid) (t other : Table) : Prop :=
  List.Forall₂ (Event.Alike owner) t.events other.events

variable {owner id : Uuid} {t other : Table} {e : Event}

/-- Lists with the same identifiers in the same places are related pairwise once events of equal
identifiers are, by induction on both. -/
theorem forall₂_of_ids {related : Event → Event → Prop} {events others : List Event}
    (ids : events.map Event.id = others.map Event.id)
    (each : ∀ a ∈ events, ∀ b ∈ others, a.id = b.id → related a b)
    : List.Forall₂ related events others := by
  induction events generalizing others with
  | nil =>
      obtain rfl : others = [] := by simpa using ids
      exact .nil
  | cons a events ih =>
      cases others with
      | nil => cases ids
      | cons b others =>
          obtain ⟨first, rest⟩ := List.cons.inj ids
          refine .cons (each a List.mem_cons_self b List.mem_cons_self first) (ih rest ?_)
          intro x memX y memY
          exact each x (List.mem_cons_of_mem _ memX) y (List.mem_cons_of_mem _ memY)

/-- An identifier is listed exactly if the table contains it. -/
theorem mem_ids_iff : id ∈ t.events.map Event.id ↔ t.contains id := by
  simp [contains]

/-- Tables in the order of their identifiers that look alike do so place by place. -/
theorem LooksAlike.aligned (h : t.LooksAlike owner other)
    (ordered : t.events.Pairwise fun a b => a.id < b.id)
    (ordered' : other.events.Pairwise fun a b => a.id < b.id)
    : t.Aligned owner other := by
  have increasing := (ordered_iff _).mp ordered
  have increasing' := (ordered_iff _).mp ordered'
  have ids : t.events.map Event.id = other.events.map Event.id := by
    have members : (t.events.map Event.id).Perm (other.events.map Event.id) := by
      refine (List.perm_ext_iff_of_nodup (increasing.imp ne_of_lt)
        (increasing'.imp ne_of_lt)).mpr fun id => ?_
      rw [mem_ids_iff, mem_ids_iff, h.used]
    exact members.eq_of_pairwise (fun a b _ _ less more => absurd less (lt_asymm more))
      increasing increasing'
  refine forall₂_of_ids ids fun a here b there same => ?_
  by_cases mine : a.owner = owner
  · obtain rfl := eq_of_id_eq ordered' ((h.own a mine).mp here) there same
    exact .same a
  · by_cases mine' : b.owner = owner
    · obtain rfl := eq_of_id_eq ordered here ((h.own b mine').mpr there) same
      exact .same a
    · exact .foreign same mine mine'

namespace Aligned

/-- Alignment is symmetric, as the likeness of events is. -/
theorem symm (h : t.Aligned owner other) : other.Aligned owner t :=
  h.flip.imp fun _ _ alike => alike.symm

/-- Aligned tables list the same identifiers in the same order. -/
theorem ids_eq (h : t.Aligned owner other)
    : t.events.map Event.id = other.events.map Event.id := by
  rw [← List.forall₂_eq_eq_eq, List.forall₂_map_left_iff, List.forall₂_map_right_iff]
  exact h.imp fun _ _ alike => alike.id_eq

/-- Aligned tables use the same identifiers. -/
theorem contains_eq (h : t.Aligned owner other) (id : Uuid)
    : t.contains id = other.contains id := by
  rw [Bool.eq_iff_iff, ← mem_ids_iff, ← mem_ids_iff, h.ids_eq]

/-- An event of the owner is on record in both, by induction on the records. -/
theorem mem_of_mem (h : t.Aligned owner other) (mine : e.owner = owner) (present : e ∈ t.events)
    : e ∈ other.events := by
  obtain ⟨events⟩ := t
  obtain ⟨others⟩ := other
  simp only [Aligned] at h present ⊢
  induction h with
  | nil => exact present
  | cons alike _ ih =>
      rcases List.mem_cons.mp present with rfl | later
      · exact alike.eq_of_owner mine ▸ List.mem_cons_self
      · exact List.mem_cons_of_mem _ (ih later)

/-- Aligned tables look alike to the owner; converse of `LooksAlike.aligned`. -/
theorem looksAlike (h : t.Aligned owner other) : t.LooksAlike owner other where
  used := h.contains_eq
  own _ mine := ⟨h.mem_of_mem mine, h.symm.mem_of_mem mine⟩

/-- What is found under an identifier looks alike in both. -/
theorem find?_cases (h : t.Aligned owner other) (id : Uuid)
    : (t.find? id = none ∧ other.find? id = none)
      ∨ ∃ a b, t.find? id = some a ∧ other.find? id = some b ∧ Event.Alike owner a b := by
  obtain ⟨events⟩ := t
  obtain ⟨others⟩ := other
  simp only [Aligned, find?] at h ⊢
  induction h with
  | nil => exact .inl ⟨rfl, rfl⟩
  | @cons a b events others alike _ ih =>
      by_cases here : a.id = id
      · exact .inr ⟨a, b, by simp [here], by simp [← alike.id_eq, here], alike⟩
      · simpa [here, ← alike.id_eq] using ih

/-- The events that are kept of the owner alone are the same in both. -/
theorem filter_eq (h : t.Aligned owner other) {keep : Event → Bool}
    (mine : ∀ e, keep e → e.owner = owner)
    : t.events.filter keep = other.events.filter keep := by
  obtain ⟨events⟩ := t
  obtain ⟨others⟩ := other
  simp only [Aligned] at h ⊢
  induction h with
  | nil => rfl
  | @cons a b events others alike _ ih =>
      cases alike with
      | same => simp only [List.filter_cons, ih]
      | foreign id left right =>
          have dropped : ¬keep a := fun kept => left (mine a kept)
          have dropped' : ¬keep b := fun kept => right (mine b kept)
          rw [List.filter_cons_of_neg dropped, List.filter_cons_of_neg dropped', ih]

/-- Storing one event in aligned tables keeps them aligned, since its place depends on identifiers
alone. -/
theorem insertInto (h : t.Aligned owner other) (e : Event)
    : Aligned owner ⟨Table.insertInto e t.events⟩ ⟨Table.insertInto e other.events⟩ := by
  obtain ⟨events⟩ := t
  obtain ⟨others⟩ := other
  simp only [Aligned] at h ⊢
  induction h with
  | nil => exact .cons (.same e) .nil
  | cons alike rest ih =>
      simp only [Table.insertInto, alike.id_eq]
      split
      · exact .cons (.same e) (.cons alike rest)
      · exact .cons alike ih

/-- Replacing one event in aligned tables keeps them aligned: both change at the same places. -/
theorem replace (h : t.Aligned owner other) (e : Event)
    : (t.replace e).Aligned owner (other.replace e) := by
  refine List.forall₂_map_left_iff.mpr (List.forall₂_map_right_iff.mpr (h.imp ?_))
  intro a b alike
  rw [alike.id_eq]
  split
  · exact .same e
  · exact alike

/-- Deleting one identifier from aligned tables keeps them aligned. -/
theorem remove (h : t.Aligned owner other) (id : Uuid)
    : Aligned owner ⟨t.events.filter (·.id ≠ id)⟩ ⟨other.events.filter (·.id ≠ id)⟩ := by
  refine List.rel_filter ?_ h
  intro a b alike
  simp [alike.id_eq]

end Aligned

/-- What an operation of an owner leaves: records in order, and those of others as they were. -/
structure Spares (owner : Uuid) (t after : Table) : Prop where
  ordered : after.events.Pairwise fun a b => a.id < b.id
  foreign : ∀ e, e.owner ≠ owner → (e ∈ after.events ↔ e ∈ t.events)

namespace Spares

variable {after : Table}

theorem rfl (ordered : t.events.Pairwise fun a b => a.id < b.id) : t.Spares owner t :=
  ⟨ordered, fun _ _ => Iff.rfl⟩

/-- What two steps spare one after the other, they spare together. -/
theorem trans (h : t.Spares owner other) (h' : other.Spares owner after) : t.Spares owner after :=
  ⟨h'.ordered, fun e foreign => (h'.foreign e foreign).trans (h.foreign e foreign)⟩

/-- A new event of the owner comes beside the others. -/
theorem insertInto (ordered : t.events.Pairwise fun a b => a.id < b.id) (mine : e.owner = owner)
    (unused : t.find? e.id = none)
    : t.Spares owner ⟨Table.insertInto e t.events⟩ where
  ordered := by
    refine ordered_insertInto ordered fun stored present same => ?_
    have used : t.contains e.id := mem_ids_iff.mp (List.mem_map.mpr ⟨stored, present, same⟩)
    simp [contains_eq_isSome, unused] at used
  foreign other notMine := by
    have apart : other ≠ e := fun same => notMine (same ▸ mine)
    simp [(perm_insertInto e t.events).mem_iff, apart]

/-- An event that takes the place of one of the owner's. -/
theorem replace {old : Event} (ordered : t.events.Pairwise fun a b => a.id < b.id)
    (found : t.find? e.id = some old) (before : old.owner = owner) (mine : e.owner = owner)
    : t.Spares owner (t.replace e) where
  ordered := by
    rw [ordered_iff, map_id_replace, ← ordered_iff]
    exact ordered
  foreign other notMine := by
    obtain ⟨present, same⟩ := mem_of_find? found
    constructor
    · intro member
      obtain ⟨stored, here, eq⟩ := List.mem_map.mp member
      split at eq
      · exact absurd (eq ▸ mine) notMine
      · exact eq ▸ here
    · intro member
      have apart : other.id ≠ e.id := by
        intro shared
        obtain rfl := eq_of_id_eq ordered member present (shared.trans same.symm)
        exact notMine before
      exact List.mem_map.mpr ⟨other, member, if_neg apart⟩

/-- An event of the owner is removed. -/
theorem remove (ordered : t.events.Pairwise fun a b => a.id < b.id)
    (found : t.find? id = some e) (mine : e.owner = owner)
    : t.Spares owner ⟨t.events.filter (·.id ≠ id)⟩ where
  ordered := ordered.filter _
  foreign other notMine := by
    obtain ⟨present, rfl⟩ := mem_of_find? found
    have apart (member : other ∈ t.events) : other.id ≠ e.id := by
      intro shared
      obtain rfl := eq_of_id_eq ordered member present shared
      exact notMine mine
    simp only [List.mem_filter, decide_eq_true_eq]
    exact ⟨And.left, fun member => ⟨member, apart member⟩⟩

end Spares

end Store.Table

-------------------------------------------------------------------------------
-- One operation
-------------------------------------------------------------------------------

namespace Desk

/-- Desks that draw the same identifiers, with tables that look alike to an owner. -/
structure Alike (owner : Uuid) (d other : Desk) : Prop where
  table : d.table.Aligned owner other.table
  outputs : d.outputs = other.outputs

/-- What two desks come to: neither has a result, or both have the same and are still alike. -/
abbrev Agree (owner : Uuid) {α : Type}
    : Option (Except AccessError α × Desk) → Option (Except AccessError α × Desk) → Prop :=
  Option.Rel fun done done' => done.1 = done'.1 ∧ done.2.Alike owner done'.2

variable {α : Type} {owner id : Uuid} {d other : Desk} {e : Event}

namespace Alike

/-- An operation on an event that exists goes on only where both desks have it as the owner's. -/
theorem agree_fetch (h : d.Alike owner other) {next : Event → Ownership.Operation α}
    (goOn : ∀ e, d.table.find? id = some e → other.table.find? id = some e → e.owner = owner →
      Agree owner (d.perform? (next e)) (other.perform? (next e)))
    : Agree owner (d.perform? (Ownership.fetch id owner next))
        (other.perform? (Ownership.fetch id owner next)) := by
  rw [perform?_fetch, perform?_fetch]
  rcases h.table.find?_cases id with ⟨absent, absent'⟩ | ⟨a, b, found, found', alike⟩
  · rw [absent, absent']
    exact .some ⟨rfl, h⟩
  · rw [found, found']
    cases alike with
    | same =>
        by_cases mine : a.owner = owner
        · simpa only [mine, if_true] using goOn a found found' mine
        · simpa only [mine, if_false] using .some ⟨rfl, h⟩
    | foreign _ left right => simpa only [left, right, if_false] using .some ⟨rfl, h⟩

/-- Creating agrees over aligned desks: the same identifiers are in use, so the same fresh one is
drawn, and the event is stored on both sides. -/
theorem agree_create (h : d.Alike owner other) (e : Event)
    : Agree owner (d.perform? (Ownership.create owner e))
        (other.perform? (Ownership.create owner e)) := by
  have used : d.table.contains = other.table.contains := funext h.table.contains_eq
  have drawn : d.table.firstUnused? d.outputs = other.table.firstUnused? other.outputs := by
    rw [Table.firstUnused?, Table.firstUnused?, used, h.outputs]
  rw [perform?_create, perform?_create, drawn, used, h.outputs]
  cases prepare { e with owner, notified := none } with
  | error cause => exact .some ⟨rfl, h⟩
  | ok normal =>
      cases other.table.firstUnused? other.outputs with
      | none => exact .none
      | some fresh => exact .some ⟨rfl, h.table.insertInto _, rfl⟩

/-- Writing an own event back agrees: both sides found the same event, so both prepare the same
replacement. -/
theorem agree_writeBack (h : d.Alike owner other) (found : d.table.find? id = some e)
    (found' : other.table.find? id = some e) (mine : e.owner = owner) (new : Event)
    : Agree owner (d.perform? (Ownership.writeBack id owner new e))
        (other.perform? (Ownership.writeBack id owner new e)) := by
  rw [perform?_writeBack found mine, perform?_writeBack found' mine]
  cases prepare (replacement id owner new e) with
  | error cause => exact .some ⟨rfl, h⟩
  | ok stored => exact .some ⟨rfl, h.table.replace stored, h.outputs⟩

/-- Deleting an own event agrees, as it is found on both sides. -/
theorem agree_remove (h : d.Alike owner other) (found : d.table.find? id = some e)
    (found' : other.table.find? id = some e)
    : Agree owner (d.perform? (Ownership.call (.delete id) fun _ => .done (.ok ())))
        (other.perform? (Ownership.call (.delete id) fun _ => .done (.ok ()))) := by
  rw [perform?_remove found, perform?_remove found']
  exact .some ⟨rfl, h.table.remove id, h.outputs⟩

/-- Listing a window agrees, since only events of the owner can be in it. -/
theorem agree_listBetween (h : d.Alike owner other) (first last : Instant)
    : Agree owner (d.perform? (Ownership.listBetween owner first last))
        (other.perform? (Ownership.listBetween owner first last)) := by
  have mine (e : Event) (wanted : inWindow owner first last e) : e.owner = owner := by
    simp only [inWindow, Bool.and_eq_true, decide_eq_true_eq] at wanted
    exact wanted.1.1
  rw [perform?_listBetween, perform?_listBetween, h.table.filter_eq mine]
  exact .some ⟨rfl, h⟩

/-- Whatever an owner asks for, desks that look alike agree, by cases on the request. -/
theorem agree (h : d.Alike owner other) (r : Request) (asks : r.owner = owner)
    : Agree owner (d.perform? r.operation) (other.perform? r.operation) := by
  subst asks
  cases r with
  | create owner e => exact h.agree_create e
  | get id owner => exact h.agree_fetch fun e _ _ _ => .some ⟨rfl, h⟩
  | update id owner new =>
      exact h.agree_fetch fun e found found' mine => h.agree_writeBack found found' mine new
  | delete id owner =>
      exact h.agree_fetch fun e found found' _ => h.agree_remove found found'
  | listBetween owner first last => exact h.agree_listBetween first last
  | listFor owner first period => exact h.agree_listBetween first _

end Alike

/-- An operation of an owner, if it has a result, spares the records of others. -/
def SparesOthers (owner : Uuid) (d : Desk) (op : Ownership.Operation α) : Prop :=
  ∀ result after, d.perform? op = some (result, after) → d.table.Spares owner after.table

/-- A known outcome spares others if its table does. -/
theorem sparesOthers_of_eq {op : Ownership.Operation α} {result : Except AccessError α}
    {after : Desk} (done : d.perform? op = some (result, after))
    (spares : d.table.Spares owner after.table)
    : d.SparesOthers owner op := by
  intro result' after' done'
  rw [done] at done'
  cases done'
  exact spares

/-- Fetching spares others if what follows does; an event that is absent or foreign ends the
operation with the table untouched. -/
theorem sparesOthers_fetch (ordered : d.table.events.Pairwise fun a b => a.id < b.id)
    {next : Event → Ownership.Operation α}
    (goOn : ∀ e, d.table.find? id = some e → e.owner = owner → d.SparesOthers owner (next e))
    : d.SparesOthers owner (Ownership.fetch id owner next) := by
  intro result after done
  rw [perform?_fetch] at done
  split at done
  · rename_i e found
    split at done
    · rename_i mine
      exact goOn e found mine result after done
    · cases done
      exact .rfl ordered
  · cases done
    exact .rfl ordered

/-- Creating spares others: the new event belongs to the owner and takes an unused identifier. -/
theorem sparesOthers_create (ordered : d.table.events.Pairwise fun a b => a.id < b.id)
    (owner : Uuid) (e : Event)
    : d.SparesOthers owner (Ownership.create owner e) := by
  intro result after done
  rw [perform?_create] at done
  cases prepared : prepare { e with owner, notified := none } with
  | error cause =>
      simp only [prepared] at done
      cases done
      exact .rfl ordered
  | ok normal =>
      simp only [prepared] at done
      obtain ⟨fresh, first, eq⟩ := Option.map_eq_some_iff.mp done
      cases eq
      refine .insertInto ordered ?_ (Table.of_firstUnused? first).2
      rw [Table.of_prepare prepared]
      rfl

/-- Writing back spares others, since the event it replaces was the owner's. -/
theorem sparesOthers_writeBack (ordered : d.table.events.Pairwise fun a b => a.id < b.id)
    (found : d.table.find? id = some e) (mine : e.owner = owner) (new : Event)
    : d.SparesOthers owner (Ownership.writeBack id owner new e) := by
  refine sparesOthers_of_eq (perform?_writeBack found mine new) ?_
  cases prepared : prepare (replacement id owner new e) with
  | error cause => exact .rfl ordered
  | ok stored =>
      obtain rfl := Table.of_prepare prepared
      exact .replace ordered found mine rfl

/-- Listing spares others, as it changes nothing. -/
theorem sparesOthers_listBetween (ordered : d.table.events.Pairwise fun a b => a.id < b.id)
    (owner : Uuid) (first last : Instant)
    : d.SparesOthers owner (Ownership.listBetween owner first last) :=
  sparesOthers_of_eq (perform?_listBetween d owner first last) (.rfl ordered)

/-- Whatever an owner asks for, the records of others are spared, by cases on the request. -/
theorem sparesOthers (ordered : d.table.events.Pairwise fun a b => a.id < b.id) (r : Request)
    : d.SparesOthers r.owner r.operation := by
  cases r with
  | create owner e => exact sparesOthers_create ordered owner e
  | get id owner =>
      exact sparesOthers_fetch ordered fun e _ _ => sparesOthers_of_eq rfl (.rfl ordered)
  | update id owner new =>
      exact sparesOthers_fetch ordered fun e found mine =>
        sparesOthers_writeBack ordered found mine new
  | delete id owner =>
      refine sparesOthers_fetch ordered fun e found mine => ?_
      exact sparesOthers_of_eq (perform?_remove found) (.remove ordered found mine)
  | listBetween owner first last => exact sparesOthers_listBetween ordered owner first last
  | listFor owner first period => exact sparesOthers_listBetween ordered owner first _

/-- Fetching is always answered if what follows is. -/
theorem answered_fetch {next : Event → Ownership.Operation α}
    (goOn : ∀ e, d.table.find? id = some e → e.owner = owner → d.perform? (next e) ≠ none)
    : d.perform? (Ownership.fetch id owner next) ≠ none := by
  rw [perform?_fetch]
  cases found : d.table.find? id with
  | none => exact nofun
  | some e =>
      by_cases mine : e.owner = owner
      · simpa only [mine, if_true] using goOn e found mine
      · simp [mine]

/-- Creating goes unanswered only if every output of the generator is in use. -/
theorem exhausted_of_create (stuck : d.perform? (Ownership.create owner e) = none)
    : ∀ id ∈ d.outputs, d.table.contains id := by
  rw [perform?_create] at stuck
  cases prepared : prepare { e with owner, notified := none } with
  | error cause => simp [prepared] at stuck
  | ok normal => simpa [prepared, Table.firstUnused?] using stuck

/-- Only a new event can be left without a result, when all that is drawn is in use. -/
theorem perform?_eq_none {r : Request} (stuck : d.perform? r.operation = none)
    : (∃ e, r = .create r.owner e) ∧ ∀ id ∈ d.outputs, d.table.contains id := by
  cases r with
  | create owner e => exact ⟨⟨e, rfl⟩, exhausted_of_create stuck⟩
  | get id owner => exact absurd stuck (answered_fetch fun e _ _ => nofun)
  | update id owner new =>
      refine absurd stuck (answered_fetch fun e found mine => ?_)
      exact ne_of_eq_of_ne (perform?_writeBack found mine new) nofun
  | delete id owner =>
      refine absurd stuck (answered_fetch fun e found _ => ?_)
      exact ne_of_eq_of_ne (perform?_remove found) nofun
  | listBetween owner first last =>
      exact absurd stuck (ne_of_eq_of_ne (perform?_listBetween d owner first last) nofun)
  | listFor owner first period =>
      exact absurd stuck (ne_of_eq_of_ne (perform?_listBetween d owner first _) nofun)

-------------------------------------------------------------------------------
-- Requests in turn
-------------------------------------------------------------------------------

/-- Desks that look alike tell an owner the same in the course of requests, and are alike after
them; by induction on the requests. -/
theorem Alike.serve (h : d.Alike owner other) (requests : List Request)
    (asked : ∀ r ∈ requests, r.owner = owner)
    : (d.serve requests).1 = (other.serve requests).1
      ∧ (d.serve requests).2.Alike owner (other.serve requests).2 := by
  induction requests generalizing d other with
  | nil => exact ⟨rfl, h⟩
  | cons r requests ih =>
      obtain ⟨asks, later⟩ := List.forall_mem_cons.mp asked
      have agree := h.agree r asks
      simp only [Desk.serve]
      generalize d.perform? r.operation = done at agree ⊢
      generalize other.perform? r.operation = done' at agree ⊢
      cases agree with
      | none => exact ⟨rfl, h⟩
      | some same =>
          obtain ⟨result, alike⟩ := same
          obtain ⟨told, still⟩ := ih alike later
          exact ⟨by simp only [result, told], still⟩

/-- Requests of an owner spare the records of others, by induction on the requests. -/
theorem spares_serve (ordered : d.table.events.Pairwise fun a b => a.id < b.id)
    (requests : List Request) (asked : ∀ r ∈ requests, r.owner = owner)
    : d.table.Spares owner (d.serve requests).2.table := by
  induction requests generalizing d with
  | nil => exact .rfl ordered
  | cons r requests ih =>
      obtain ⟨rfl, later⟩ := List.forall_mem_cons.mp asked
      simp only [Desk.serve]
      cases done : d.perform? r.operation with
      | none => exact .rfl ordered
      | some last =>
          have spares := sparesOthers ordered r last.1 last.2 done
          exact spares.trans (ih spares.ordered later)

/-- Whether requests were all given results, or those up to a new event for which nothing is drawn
that is not in use. -/
def Answered (owner : Uuid) (d : Desk) (requests : List Request) : Prop :=
  (d.serve requests).1.map Sigma.fst = requests
    ∨ ∃ before e rest, requests = before ++ .create owner e :: rest
        ∧ (d.serve requests).1.map Sigma.fst = before
        ∧ ∀ id ∈ (d.serve requests).2.outputs, (d.serve requests).2.table.contains id

/-- All requests of an owner are answered, or the desk stops at a creation for which the generator
has nothing unused left; by induction on the requests. -/
theorem answered_serve (d : Desk) (requests : List Request)
    (asked : ∀ r ∈ requests, r.owner = owner)
    : d.Answered owner requests := by
  induction requests generalizing d with
  | nil => exact .inl rfl
  | cons r requests ih =>
      obtain ⟨rfl, later⟩ := List.forall_mem_cons.mp asked
      cases done : d.perform? r.operation with
      | none =>
          obtain ⟨⟨e, eq⟩, exhausted⟩ := perform?_eq_none done
          refine .inr ⟨[], e, requests, by rw [← eq]; rfl, ?_⟩
          simpa only [Desk.serve, done] using ⟨rfl, exhausted⟩
      | some last =>
          have next := ih last.2 later
          simp only [Answered, Desk.serve, done, List.map_cons] at next ⊢
          rcases next with all | ⟨before, e, rest, eq, told, exhausted⟩
          · exact .inl (by rw [all])
          · exact .inr ⟨r :: before, e, rest, by rw [eq]; rfl, by rw [told], exhausted⟩

/-- How an owner is isolated from others in two runs of the same requests. -/
structure Isolates (owner : Uuid) (d other : Desk) (requests : List Request) : Prop where
  /-- Both runs give the same results, refusals included. -/
  told : (d.serve requests).1 = (other.serve requests).1
  /-- They end with the same identifiers in use and the same events of the owner. -/
  alike : (d.serve requests).2.table.LooksAlike owner (other.serve requests).2.table
  drawn : (d.serve requests).2.outputs = (other.serve requests).2.outputs
  /-- Neither run changes, adds or removes a record of another owner. -/
  untouched
    : ∀ e, e.owner ≠ owner → (e ∈ (d.serve requests).2.table.events ↔ e ∈ d.table.events)
  untouched'
    : ∀ e, e.owner ≠ owner → (e ∈ (other.serve requests).2.table.events ↔ e ∈ other.table.events)
  answered : d.Answered owner requests

/-- An owner is told nothing of the events of others, and does nothing to them: two stores that
differ in those alone serve the owner alike, whatever requests come in turn. -/
theorem isolates_serve (t t' : Table) (outputs : List Uuid) (requests : List Request)
    (ordered : t.events.Pairwise fun a b => a.id < b.id)
    (ordered' : t'.events.Pairwise fun a b => a.id < b.id)
    (alike : t.LooksAlike owner t') (asked : ∀ r ∈ requests, r.owner = owner)
    : Isolates owner ⟨t, outputs⟩ ⟨t', outputs⟩ requests := by
  have start : Alike owner ⟨t, outputs⟩ ⟨t', outputs⟩ := ⟨alike.aligned ordered ordered', rfl⟩
  obtain ⟨told, still⟩ := start.serve requests asked
  exact
    { told
      alike := still.table.looksAlike
      drawn := still.outputs
      untouched := (spares_serve ordered requests asked).foreign
      untouched' := (spares_serve ordered' requests asked).foreign
      answered := answered_serve _ requests asked }

/-- A store with an event of one owner and, beside it, one of another. -/
def shared (owner : Uuid) (title : String) : Table :=
  ⟨[{ Bureau.meeting with id := ⟨1⟩, owner := ⟨1⟩ },
    { Bureau.meeting with id := ⟨2⟩, owner, title }]⟩

/-- Two desks that differ in the owner and title of one foreign event are aligned. -/
theorem aligned_shared {theirs theirs' : Uuid} (apart : theirs ≠ ⟨1⟩) (apart' : theirs' ≠ ⟨1⟩)
    (title title' : String)
    : (shared theirs title).Aligned ⟨1⟩ (shared theirs' title') :=
  .cons (.same _) (.cons (.foreign rfl apart apart') .nil)

/-- An owner asks for the event of another, tries to take it over and to delete it, creates one and
looks for events. -/
def prying : List Request :=
  [.get ⟨2⟩ ⟨1⟩, .update ⟨2⟩ ⟨1⟩ { Bureau.meeting with owner := ⟨1⟩ }, .delete ⟨2⟩ ⟨1⟩,
    .create ⟨1⟩ { Bureau.meeting with id := ⟨2⟩, owner := ⟨2⟩ }, .update ⟨1⟩ ⟨1⟩ Bureau.meeting,
    .listBetween ⟨1⟩ Bureau.noon Bureau.noon]

/-- A prying owner, who tries every operation on an event of someone else, cannot tell the two
stores apart. -/
theorem isolates_serve_prying
    : (shared ⟨2⟩ "rehearsal").LooksAlike ⟨1⟩ (shared ⟨3⟩ "surgery")
      ∧ (∀ r ∈ prying, r.owner = ⟨1⟩)
      ∧ Isolates ⟨1⟩ ⟨shared ⟨2⟩ "rehearsal", [⟨2⟩, ⟨4⟩]⟩
          ⟨shared ⟨3⟩ "surgery", [⟨2⟩, ⟨4⟩]⟩ prying := by
  have alike : (shared ⟨2⟩ "rehearsal").LooksAlike ⟨1⟩ (shared ⟨3⟩ "surgery") :=
    (aligned_shared (by decide) (by decide) _ _).looksAlike
  have asked : ∀ r ∈ prying, r.owner = ⟨1⟩ := by simp [prying, Request.owner]
  exact ⟨alike, asked, isolates_serve _ _ _ _ (by decide) (by decide) alike asked⟩

end Desk

end Almanac
