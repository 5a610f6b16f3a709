import Almanac.Proofs.Store.Interleaving
import Mathlib.Order.Basic

/-! Contracts of processes with their surroundings.
What is known grows in the course of a process. A contract says what may be asked in view of it, and
what may come to be known by a reply.
-/

namespace Almanac

/-- A contract, over facts of some kind. More knowledge allows no less to be asked, and leaves no
more to be learned. -/
structure Contract {Ask : Type} (Reply : Ask → Type) (Fact : Type) where
  may : (Fact → Prop) → Ask → Prop
  learns : (Fact → Prop) → (question : Ask) → Reply question → (Fact → Prop) → Prop
  may_mono : ∀ {known more question}, known ≤ more → may known question → may more question
  learns_mono
    : ∀ {known more last question} {reply : Reply question},
        known ≤ more → learns more question reply last → learns known question reply last

namespace Process

variable {Ask : Type} {Reply : Ask → Type} {Fact α : Type}

/-- Whether a process keeps a contract, whatever it is replied, and ends in a proper result. -/
def Keeps (contract : Contract Reply Fact) (proper : α → Prop)
    : Process Ask Reply α → (Fact → Prop) → Prop
  | .done result, _ => proper result
  | .ask question next, known =>
      contract.may known question
        ∧ ∀ reply more, contract.learns known question reply more →
            (next reply).Keeps contract proper more

/-- A process that keeps a contract does so when more is known. -/
theorem Keeps.mono {contract : Contract Reply Fact} {proper : α → Prop} {p : Process Ask Reply α}
    {known more : Fact → Prop} (h : p.Keeps contract proper known) (grows : known ≤ more)
    : p.Keeps contract proper more := by
  cases p with
  | done result => exact h
  | ask question next =>
      obtain ⟨allowed, later⟩ := h
      refine ⟨contract.may_mono grows allowed, ?_⟩
      intro reply last learned
      exact later reply last (contract.learns_mono grows learned)

end Process

namespace Ownership

open Store

variable {Fact α : Type}

/-- Rules for operations of owners: what may be asked of a store, and when a table bears out what is
known. -/
structure Rules (Fact : Type) where
  may : (Fact → Prop) → Call → Prop
  bearsOut : (Fact → Prop) → Table → Prop
  may_mono : ∀ {known more c}, known ≤ more → may known c → may more c

/-- Under rules an answer may come from any table that bears out what is known by then. -/
def Rules.contract (rules : Rules Fact) : Contract Call.Answer Fact where
  may := rules.may
  learns known c answer more :=
    known ≤ more ∧ ∃ t fresh, rules.bearsOut more t ∧ answer = (Table.answer fresh c t).1
  may_mono := rules.may_mono
  learns_mono grows learned := ⟨le_trans grows learned.1, learned.2⟩

variable {rules : Rules Fact} {proper : Except AccessError α → Prop} {known : Fact → Prop}

theorem keeps_call {c : Call} {next : c.Result → Operation α} (allowed : rules.may known c)
    (refused : ∀ cause, proper (.error cause))
    (later
      : ∀ {t fresh more result}, known ≤ more → rules.bearsOut more t →
          (Table.answer fresh c t).1 = .ok result →
          (next result).Keeps rules.contract proper more)
    : (call c next).Keeps rules.contract proper known := by
  rw [call_eq]
  refine ⟨allowed, ?_⟩
  rintro _ more ⟨grows, t, fresh, fits, rfl⟩
  cases answered : (Table.answer fresh c t).1 with
  | error cause => exact refused _
  | ok result => exact later grows fits answered

theorem find?_of_get {t : Table} {fresh id : Uuid} {e : Event}
    (answered : (Table.answer fresh (.get id) t).1 = .ok e)
    : t.find? id = some e := by
  simp only [Table.answer, Table.unchanged, Table.get] at answered
  split at answered
  · rename_i found
    cases answered
    exact found
  · cases answered

/-- An operation that fetches an event goes on with one of its owner, as a table has it. -/
theorem keeps_fetch {id owner : Uuid} {next : Event → Operation α}
    (allowed : rules.may known (.get id)) (refused : ∀ cause, proper (.error cause))
    (later
      : ∀ {t more e}, known ≤ more → rules.bearsOut more t → t.find? id = some e →
          e.owner = owner → (next e).Keeps rules.contract proper more)
    : (fetch id owner next).Keeps rules.contract proper known := by
  apply keeps_call allowed refused
  intro t fresh more e grows fits answered
  split
  · rename_i belongs
    exact later grows fits (find?_of_get answered) belongs
  · exact refused _

end Ownership

end Almanac
