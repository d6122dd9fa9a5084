import Synergos.FaultRuns

/-!
# Runs in which every step takes effect

A program that ignores the failure of a step may return with the step left undone, so
what it achieves can only be said of runs in which no step is refused. A step may still
be reported as failed after its effect, or be the last one before the process stops.

`Achieves` is the weakest precondition for these runs. It differs from `Ensures` in the
rule for a single write: the state before the write is no state in which the program
fails. What `Ensures` gives carries over for programs that take their faults from the
front of the list.
-/

namespace Synergos.TakenSteps

open Faults Faults.Program FaultRuns

universe u

variable {σ τ ε α β γ : Type u}

/-- No step fails without its effect. -/
def Unrefused (faults : List Fault) : Prop := ∀ reason, Fault.fail reason ∉ faults

theorem Unrefused.suffix {faults rest : List Fault} (unrefused : Unrefused faults)
    (suffix : rest <:+ faults) : Unrefused rest :=
  fun reason member => unrefused reason (suffix.subset member)

/-! ### Taking faults from the front -/

/-- The faults that are left over are the last ones of the list. -/
def Frugal (program : Program σ ε α) : Prop :=
  ∀ state faults, (program state faults).2.2 <:+ faults

variable {program : Program σ ε α} {next : α → Program σ ε β} {items : List γ}

theorem Frugal.bind (first : Frugal program) (second : ∀ value, Frugal (next value)) :
    Frugal (program >>= next) := by
  intro state faults
  have used := first state faults
  change (Program.bind program next state faults).2.2 <:+ faults
  unfold Program.bind
  rcases ended : program state faults with ⟨result, after, rest⟩
  rw [ended] at used
  cases result with
  | done value => exact (second value after rest).trans used
  | failed error | crashed => exact used

theorem Frugal.attempt (inside : Frugal program) :
    Frugal (attempt program) := by
  intro state faults
  have used := inside state faults
  unfold Program.attempt
  rcases ended : program state faults with ⟨result, after, rest⟩
  rw [ended] at used
  cases result <;> exact used

/-- What holds of the state before the program if, in every run without a refused step,
`returns` holds whenever it returns and `fails` whenever it fails. -/
structure Achieves (program : Program σ ε α) (returns : α → σ → Prop) (fails : σ → Prop)
    (state : σ) : Prop where
  rest : ∀ faults, Unrefused faults → Unrefused (program state faults).2.2
  done : ∀ faults value, Unrefused faults → program.outcome state faults = .done value →
    returns value (program.after state faults)
  failed : ∀ faults error, Unrefused faults → program.outcome state faults = .failed error →
    fails (program.after state faults)

variable {returns : α → σ → Prop} {fails : σ → Prop} {state : σ}

theorem Achieves.weaken {weaker : α → σ → Prop}
    {weakerFails : σ → Prop} (achieved : Achieves program returns fails state)
    (returned : ∀ value after, returns value after → weaker value after)
    (stopped : ∀ after, fails after → weakerFails after) :
    Achieves program weaker weakerFails state where
  rest := achieved.rest
  done := fun faults value unrefused ended =>
    returned value _ (achieved.done faults value unrefused ended)
  failed := fun faults error unrefused ended =>
    stopped _ (achieved.failed faults error unrefused ended)

end Synergos.TakenSteps
