/-! Computations that ask their surroundings.
A process names each question it asks and how it goes on with the answer, so the same definition is
run alone and interleaved with others.
-/

namespace Almanac

/-- A computation that ends with a result or asks a question and goes on with the reply. -/
inductive Process (Ask : Type) (Reply : Ask → Type) (α : Type) where
  | done (result : α)
  | ask (question : Ask) (next : Reply question → Process Ask Reply α)

namespace Process

variable {Ask : Type} {Reply : Ask → Type} {α β σ : Type}

/-- A process that goes on with a result. -/
def bind (p : Process Ask Reply α) (f : α → Process Ask Reply β) : Process Ask Reply β :=
  match p with
  | .done result => f result
  | .ask question next => .ask question fun reply => (next reply).bind f

def single (question : Ask) : Process Ask Reply (Reply question) :=
  .ask question .done

/-- Runs a process alone: each question is answered from a state, which the answer may change. -/
def run (answer : (question : Ask) → σ → Reply question × σ)
    : Process Ask Reply α → σ → α × σ
  | .done result, s => (result, s)
  | .ask question next, s => run answer (next (answer question s).1) (answer question s).2

/-- Running a process that goes on is running its parts in turn. -/
theorem run_bind (answer : (question : Ask) → σ → Reply question × σ)
    (p : Process Ask Reply α) (f : α → Process Ask Reply β) (s : σ)
    : (p.bind f).run answer s = (f (p.run answer s).1).run answer (p.run answer s).2 := by
  induction p generalizing s with
  | done result => rfl
  | ask question next ih => exact ih _ _

end Process

end Almanac
