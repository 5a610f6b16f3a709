import Almanac.Proofs.Store.Integrity

/-! Stores as ledgers, which file events under keys.
A ledger goes by its keys alone and comes back from every call, also from one that it refuses. It is
shown to do what a table does: from the empty ledger on, the key of an event is its identifier.
-/

namespace Almanac.Store

open Time Query

/-- Events under keys, in the order of the keys. -/
structure Ledger where
  entries : List (Uuid × Event)

namespace Ledger

-------------------------------------------------------------------------------
-- Calls
-------------------------------------------------------------------------------

def empty : Ledger :=
  ⟨[]⟩

/-- The events, in the order of their keys. -/
def values (l : Ledger) : List Event :=
  l.entries.map Prod.snd

def lookup? (l : Ledger) (key : Uuid) : Option Event :=
  (l.entries.find? (·.1 = key)).map Prod.snd

def contains (l : Ledger) (key : Uuid) : Bool :=
  (l.lookup? key).isSome

/-- Files an event under a key, in the place of what is filed there. -/
def insertInto (key : Uuid) (e : Event) : List (Uuid × Event) → List (Uuid × Event)
  | [] => [(key, e)]
  | entry :: rest =>
      if key < entry.1 then (key, e) :: entry :: rest
      else if key = entry.1 then (key, e) :: rest
      else entry :: insertInto key e rest

/-- Changes the event under a key where it stands. -/
def alter (l : Ledger) (key : Uuid) (change : Event → Event) : Ledger :=
  ⟨l.entries.map fun entry => if entry.1 = key then (entry.1, change entry.2) else entry⟩

def add (l : Ledger) (fresh : Uuid) (e : Event) : Except StoreError Event × Ledger :=
  match prepare e with
  | .error cause => (.error cause, l)
  | .ok e =>
      let e := { e with id := fresh }
      (.ok e, ⟨insertInto fresh e l.entries⟩)

def update (l : Ledger) (e : Event) : Except StoreError Unit × Ledger :=
  match prepare e with
  | .error cause => (.error cause, l)
  | .ok e =>
      match l.lookup? e.id with
      | none => (.error (.notFound e.id), l)
      | some _ => (.ok (), l.alter e.id fun stored => { e with owner := stored.owner })

/-- Takes out what is filed under a key, and is refused when that was nothing. -/
def delete (l : Ledger) (key : Uuid) : Except StoreError Unit × Ledger :=
  let left : Ledger := ⟨l.entries.filter (·.1 ≠ key)⟩
  match l.lookup? key with
  | none => (.error (.notFound key), left)
  | some _ => (.ok (), left)

def get (l : Ledger) (key : Uuid) : Except StoreError Event × Ledger :=
  match l.lookup? key with
  | none => (.error (.notFound key), l)
  | some e => (.ok e, l)

def query (l : Ledger) (conditions : List Condition) (keys : List SortKey)
    : Except StoreError (List Event) × Ledger :=
  match select conditions l.values with
  | .error cause => (.error (.query cause), l)
  | .ok found => (.ok (sortBy keys found), l)

def deleteWhere (l : Ledger) (conditions : List Condition) : Except StoreError Nat × Ledger :=
  if conditions.isEmpty then (.error .emptyFilter, l)
  else
    match validateAll conditions with
    | .error cause => (.error (.query cause), l)
    | .ok _ =>
        let left : Ledger := ⟨l.entries.filter fun entry => !holdsAll conditions entry.2⟩
        (.ok (l.entries.length - left.entries.length), left)

def markOne (moment : Instant) (state : Nat × Ledger) (key : Uuid) : Nat × Ledger :=
  match state.2.lookup? key with
  | none => state
  | some e =>
      if Table.advances moment e then
        (state.1 + 1, state.2.alter key fun e => { e with notified := some moment })
      else state

def mark (l : Ledger) (ids : List Uuid) (moment : Instant) : Nat × Ledger :=
  ids.foldl (markOne moment.truncate) (0, l)

def due (l : Ledger) (now : Instant) : List Event :=
  (l.values.filter (·.isDue now)).mergeSort fun a b => compare a.notifyAt b.notifyAt ≠ .gt

/-- The answer of a ledger to a call, with the ledger after it. -/
def answer (fresh : Uuid) : (c : Call) → Ledger → c.Answer × Ledger
  | .add e, l => l.add fresh e
  | .update e, l => l.update e
  | .delete id, l => l.delete id
  | .get id, l => l.get id
  | .query conditions keys, l => l.query conditions keys
  | .deleteWhere conditions, l => l.deleteWhere conditions
  | .mark ids moment, l =>
      ((.ok (l.mark ids moment).1 : Except StoreError Nat), (l.mark ids moment).2)
  | .due now, l => ((.ok (l.due now) : Except StoreError (List Event)), l)

-------------------------------------------------------------------------------
-- Ledgers of tables
-------------------------------------------------------------------------------

/-- The ledger that files the events of a table under their identifiers. -/
def ofTable (t : Table) : Ledger :=
  ⟨t.events.map fun e => (e.id, e)⟩

variable {t after : Table} {fresh id : Uuid} {e old : Event} {c : Call}

/-- A table's ledger has the table's events. -/
@[simp]
theorem values_ofTable (t : Table) : (ofTable t).values = t.events := by
  simp [values, ofTable, Function.comp_def]

/-- Keys are looked up as identifiers are. -/
@[simp]
theorem lookup?_ofTable (t : Table) (id : Uuid) : (ofTable t).lookup? id = t.find? id := by
  simp [lookup?, ofTable, Table.find?, List.find?_map, Function.comp_def]

@[simp]
theorem contains_ofTable (t : Table) (id : Uuid) : (ofTable t).contains id = t.contains id := by
  rw [contains, lookup?_ofTable, Table.contains_eq_isSome]

/-- What is kept of the events is kept of the entries. -/
theorem filter_ofTable (t : Table) (keep : Event → Bool)
    : (ofTable t).entries.filter (fun entry => keep entry.2)
        = (ofTable ⟨t.events.filter keep⟩).entries := by
  simp [ofTable, List.filter_map, Function.comp_def]

/-- A key that is not in use is inserted like a new identifier, by induction on the records. -/
theorem insertInto_ofTable {events : List Event} (unused : ∀ other ∈ events, other.id ≠ e.id)
    : ⟨insertInto e.id e (ofTable ⟨events⟩).entries⟩ = ofTable ⟨Table.insertInto e events⟩ := by
  induction events with
  | nil => rfl
  | cons other rest ih =>
      obtain ⟨apart, unused⟩ := List.forall_mem_cons.mp unused
      have tail := congrArg entries (ih unused)
      simp only [ofTable] at tail ⊢
      simp only [List.map_cons, insertInto, Table.insertInto, if_neg (Ne.symm apart), tail]
      split <;> rfl

/-- As identifiers differ, the record that is changed under a key is the one found there. -/
theorem alter_ofTable (ordered : t.events.Pairwise fun a b => a.id < b.id)
    (found : t.find? id = some old) (change : Event → Event) (same : (change old).id = id)
    : (ofTable t).alter id change = ofTable (t.replace (change old)) := by
  obtain ⟨present, rfl⟩ := Table.mem_of_find? found
  simp only [alter, ofTable, Table.replace, List.map_map]
  congr 1
  apply List.map_congr_left
  intro other member
  by_cases here : other.id = old.id
  · obtain rfl := eq_of_id_eq ordered member present here
    simp [same]
  · simp [here, same]

-------------------------------------------------------------------------------
-- Calls on ledgers of tables
-------------------------------------------------------------------------------

/-- An outcome with the ledger of a table in place of the table. -/
def asLedger {α : Type} (outcome : α × Table) : α × Ledger :=
  (outcome.1, ofTable outcome.2)

/-- Adding to the ledger of a table is adding to the table, since the fresh key is in use at
neither. -/
theorem add_ofTable (unused : t.find? fresh = none)
    : (ofTable t).add fresh e = asLedger (t.changed (t.add fresh e)) := by
  unfold add Table.add
  cases prepare e with
  | error cause => rfl
  | ok stored =>
      have apart : ∀ other ∈ t.events, other.id ≠ fresh := by
        intro other member same
        have absent := List.find?_eq_none.mp unused other member
        simp [same] at absent
      have inserted := insertInto_ofTable (e := { stored with id := fresh }) apart
      exact congrArg (Prod.mk (Except.ok { stored with id := fresh })) inserted

/-- Updating agrees, since the order of a table lets one entry at most bear the altered key. -/
theorem update_ofTable (ordered : t.events.Pairwise fun a b => a.id < b.id)
    : (ofTable t).update e = asLedger (t.changed ((t.update e).map fun t => ((), t))) := by
  unfold update Table.update
  cases prepare e with
  | error cause => rfl
  | ok stored =>
      simp only [lookup?_ofTable, Except.bind]
      cases found : t.find? stored.id with
      | none => rfl
      | some old =>
          have altered := alter_ofTable ordered found
            (fun other => { stored with owner := other.owner }) rfl
          exact congrArg (Prod.mk (Except.ok ())) altered

/-- Taking out what is under an unused key takes out nothing, so both refusals leave all as it
was. -/
theorem delete_ofTable (t : Table) (id : Uuid)
    : (ofTable t).delete id = asLedger (t.changed ((t.delete id).map fun t => ((), t))) := by
  have left : Ledger.mk ((ofTable t).entries.filter (·.1 ≠ id))
      = ofTable ⟨t.events.filter (·.id ≠ id)⟩ := by
    simp [ofTable, List.filter_map, Function.comp_def]
  unfold delete Table.delete
  simp only [lookup?_ofTable, left, Table.contains_eq_isSome]
  cases found : t.find? id with
  | some old => rfl
  | none =>
      have all_left : t.events.filter (·.id ≠ id) = t.events :=
        List.filter_eq_self.mpr fun other member => by
          simpa using List.find?_eq_none.mp found other member
      rw [all_left]
      rfl

/-- Lookups agree, found or not. -/
theorem get_ofTable (t : Table) (id : Uuid)
    : (ofTable t).get id = asLedger (t.unchanged (t.get id)) := by
  unfold get Table.get
  rw [lookup?_ofTable]
  cases t.find? id <;> rfl

/-- Queries agree, as the values of a table's ledger are its events in order. -/
theorem query_ofTable (t : Table) (conditions : List Condition) (keys : List SortKey)
    : (ofTable t).query conditions keys = asLedger (t.unchanged (t.query conditions keys)) := by
  unfold query Table.query
  rw [values_ofTable]
  cases select conditions t.events <;> rfl

/-- Bulk deletions agree in what they refuse, count and leave. -/
theorem deleteWhere_ofTable (t : Table) (conditions : List Condition)
    : (ofTable t).deleteWhere conditions = asLedger (t.changed (t.deleteWhere conditions)) := by
  unfold deleteWhere Table.deleteWhere Table.checkFilter
  split
  · rfl
  · cases validateAll conditions with
    | error cause => rfl
    | ok _ =>
        have left := filter_ofTable t fun e => !holdsAll conditions e
        simp only [left]
        simp [ofTable, asLedger, Table.changed, Except.mapError, Except.map, Table.size]

/-- One mark changes the same record of both, or none. -/
theorem markOne_ofTable {state : Nat × Table} (h : state.2.Kept) (moment : Instant) (id : Uuid)
    : markOne moment (asLedger state) id = asLedger (Table.markOne moment state id) := by
  unfold markOne Table.markOne
  simp only [asLedger, lookup?_ofTable]
  cases found : state.2.find? id with
  | none => rfl
  | some old =>
      have altered := alter_ofTable h.ordered found (fun e => { e with notified := some moment })
        (Table.mem_of_find? found).2
      by_cases advances : Table.advances moment old
      · simp [advances, altered]
      · simp [advances]

/-- Marking a list agrees, by induction on it: each mark agrees and leaves a kept table for the
next. -/
theorem mark_ofTable (h : t.Kept) (ids : List Uuid) (moment : Instant)
    : (ofTable t).mark ids moment = asLedger (t.mark ids moment) := by
  suffices ∀ state : Nat × Table, state.2.Kept →
      ids.foldl (markOne moment.truncate) (asLedger state)
        = asLedger (ids.foldl (Table.markOne moment.truncate) state) from this (0, t) h
  induction ids with
  | nil => exact fun _ _ => rfl
  | cons id ids ih =>
      intro state kept
      rw [List.foldl_cons, List.foldl_cons, markOne_ofTable kept]
      exact ih _ (kept.markOne moment.truncate_truncate id)

/-- A ledger of a table answers a call as the table does, and is left as the table is, by cases on
the call. -/
theorem answer_ofTable (h : t.Kept) (accepted : t.accepts fresh c)
    : answer fresh c (ofTable t) = asLedger (Table.answer fresh c t) := by
  cases c with
  | add e =>
      have unused : t.find? fresh = none := by
        simpa [Table.accepts, Table.contains_eq_isSome] using accepted
      exact add_ofTable unused
  | update e => exact update_ofTable h.ordered
  | delete id => exact delete_ofTable t id
  | get id => exact get_ofTable t id
  | query conditions keys => exact query_ofTable t conditions keys
  | deleteWhere conditions => exact deleteWhere_ofTable t conditions
  | mark ids moment =>
      simp only [answer, mark_ofTable h]
      rfl
  | due now =>
      simp only [answer, due, values_ofTable]
      rfl

-------------------------------------------------------------------------------
-- Ledgers in use
-------------------------------------------------------------------------------

def firstUnused? (l : Ledger) (drawn : List Uuid) : Option Uuid :=
  drawn.find? (!l.contains ·)

/-- The answer to a call and the ledger after it. A call that files an event has no answer as long
as every key that was drawn is in use. -/
def reply? (l : Ledger) (drawn : List Uuid) (c : Call) : Option (c.Answer × Ledger) :=
  if c.files then (l.firstUnused? drawn).map fun fresh => answer fresh c l
  else some (answer .nil c l)

/-- The ledger after a use of it. -/
def use (l : Ledger) : Use → Ledger
  | .call drawn c => ((l.reply? drawn c).map Prod.snd).getD l
  | .clear => .empty

/-- The ledger after uses of it in turn. -/
def through (l : Ledger) (uses : List Use) : Ledger :=
  uses.foldl use l

variable {drawn : List Uuid}

/-- A ledger of a table replies as the table does. A new event is refused before a key is drawn for
it, so that refusal asks nothing of the keys. -/
theorem reply?_ofTable (h : t.Kept) (drawn : List Uuid) (c : Call)
    : (ofTable t).reply? drawn c = (t.reply? drawn c).map asLedger := by
  have drawn_eq : (ofTable t).firstUnused? drawn = t.firstUnused? drawn := by
    simp [firstUnused?, Table.firstUnused?]
  unfold reply? Table.reply?
  rw [drawn_eq]
  by_cases needed : c.files
  · simp only [needed, if_true]
    cases first : t.firstUnused? drawn with
    | none => rfl
    | some fresh =>
        exact congrArg some (answer_ofTable h (Table.accepts_of_firstUnused? first))
  · simp only [needed, if_false, Bool.false_eq_true, Option.map_some, Option.some_inj]
    cases c with
    | add e =>
        cases prepared : prepare e with
        | ok stored => simp [Call.files, prepared, Except.isOk, Except.toBool] at needed
        | error cause =>
            rw [Table.answer_add_of_error prepared]
            simp only [answer, add, prepared]
            rfl
    | _ => exact answer_ofTable h rfl

/-- One use of the ledger is one use of the table; an unanswered one leaves both. -/
theorem use_ofTable (h : t.Kept) (act : Use) : (ofTable t).use act = ofTable (t.use act) := by
  cases act with
  | clear => rfl
  | call drawn c =>
      simp only [use, Table.use, reply?_ofTable h]
      cases t.reply? drawn c <;> rfl

/-- A ledger of a table goes through its uses as the table does, by induction on them. -/
theorem through_ofTable (h : t.Stored) (uses : List Use)
    : (ofTable t).through uses = ofTable (t.through uses) := by
  induction uses generalizing t with
  | nil => rfl
  | cons act uses ih =>
      have next := ih (h.use act)
      rwa [← use_ofTable h.kept] at next

/-- How a ledger stands for a table. -/
structure StandsFor (l : Ledger) (t : Table) : Prop where
  /-- Every event is filed under its own identifier. -/
  own : ∀ entry ∈ l.entries, entry.2.id = entry.1
  /-- The ledger is in the order of its keys. -/
  ordered : l.entries.Pairwise fun a b => a.1 < b.1
  lookup : ∀ id, l.lookup? id = t.find? id
  /-- Both give the same answers, and stand for one another afterwards. -/
  replies : ∀ drawn c, l.reply? drawn c = (t.reply? drawn c).map asLedger
  /-- A ledger is left by a refusal as it was. -/
  refused
    : ∀ drawn c cause after, l.reply? drawn c = some (.error cause, after) → after = l

/-- Whatever is done at an empty ledger, it stands for the table at which the same is done. -/
theorem standsFor_through (uses : List Use)
    : (empty.through uses).StandsFor (Table.empty.through uses) := by
  have stored := Table.Stored.empty.through uses
  rw [show empty = ofTable .empty from rfl, through_ofTable .empty]
  constructor
  case own => simp [ofTable]
  case ordered =>
    rw [ofTable, List.pairwise_map]
    exact stored.kept.ordered
  case lookup => exact lookup?_ofTable _
  case replies => exact reply?_ofTable stored.kept
  case refused =>
    intro drawn c cause after replied
    rw [reply?_ofTable stored.kept] at replied
    obtain ⟨⟨answer, table⟩, table_replied, same⟩ := Option.map_eq_some_iff.mp replied
    cases same
    rw [(Table.refused_of_reply? table_replied).1]

end Ledger

end Almanac.Store
