import Mathlib.Data.List.Basic
import Mathlib.Logic.Function.Basic

/-!
# Machines with outputs, and what an observer of some inputs learns

A machine answers each input with an output and a next state. Some inputs are
hidden; a view of a state leaves out what they may touch. Three conditions on
single steps (the unwinding conditions) give the law for whole runs: the outputs
for observed inputs are those of a run without the hidden inputs, so two runs
that differ in hidden inputs alone look the same.
-/

namespace Synergos.Machines

open Function List

universe u v w

structure Machine (State : Type u) (Input : Type v) (Output : Type w) where
  step : State → Input → Output × State

variable {State : Type u} {Input : Type v} {Output : Type w}

/-- The inputs one after another, each with its output. -/
def Machine.run (machine : Machine State Input Output) (state : State) :
    List Input → List (Input × Output) × State
  | [] => ([], state)
  | input :: rest =>
      let answer := machine.step state input
      let later := machine.run answer.2 rest
      ((input, answer.1) :: later.1, later.2)

/-- What holds at the start and is kept by every step holds after every run. -/
theorem Machine.run_keeps (machine : Machine State Input Output) (holds : State → Prop)
    (kept : ∀ state input, holds state → holds (machine.step state input).2)
    (inputs : List Input) (state : State) (initial : holds state) :
    holds (machine.run state inputs).2 := by
  induction inputs generalizing state with
  | nil => exact initial
  | cons input rest ih =>
    exact ih _ (kept state input initial)

/-- The conditions on single steps. Allowed inputs keep the invariant; hidden
inputs leave the view alone; the others do in the view what they do in the
state, and answer the same where they are observed. -/
structure Unwinding (machine : Machine State Input Output) (view : State → State)
    (hidden observed : Input → Bool) (allowed : Input → Prop) (invariant : State → Prop) :
    Prop where
  observed_shown : ∀ input, observed input = true → hidden input = false
  kept : ∀ state input, allowed input → invariant state → invariant (machine.step state input).2
  hidden_view : ∀ state input, allowed input → hidden input = true → invariant state →
    view (machine.step state input).2 = view state
  shown_view : ∀ state input, allowed input → hidden input = false → invariant state →
    (machine.step (view state) input).2 = view (machine.step state input).2
  shown_output : ∀ state input, allowed input → observed input = true → invariant state →
    (machine.step (view state) input).1 = (machine.step state input).1

/-- The answers to observed inputs. -/
def answers (observed : Input → Bool) (trace : List (Input × Output)) : List (Input × Output) :=
  trace.filter fun entry => observed entry.1

variable {machine : Machine State Input Output} {view : State → State}
variable {hidden observed : Input → Bool} {allowed : Input → Prop} {invariant : State → Prop}

section

variable (unwinding : Unwinding machine view hidden observed allowed invariant)

include unwinding

/-- Allowed inputs keep the invariant along run. -/
theorem Unwinding.run_invariant (inputs : List Input)
    (state : State) (initial : invariant state) (each : ∀ input ∈ inputs, allowed input) :
    invariant (machine.run state inputs).2 := by
  induction inputs generalizing state with
  | nil => exact initial
  | cons input rest ih =>
    exact ih (machine.step state input).2
      (unwinding.kept state input (each input mem_cons_self) initial)
      fun later member => each later (mem_cons_of_mem input member)

/-- A run looks like the run of the view on the inputs that are not hidden. -/
theorem Unwinding.purged {inputs : List Input} (state : State) (initial : invariant state)
    (each : ∀ input ∈ inputs, allowed input) :
    answers observed (machine.run state inputs).1 =
        answers observed (machine.run (view state) (inputs.filter fun input => !hidden input)).1 ∧
      view (machine.run state inputs).2 =
        (machine.run (view state) (inputs.filter fun input => !hidden input)).2 := by
  induction inputs generalizing state with
  | nil => exact ⟨rfl, rfl⟩
  | cons input rest ih =>
    have allowedHere := each input mem_cons_self
    obtain ⟨sameAnswers, sameView⟩ := ih (machine.step state input).2
      (unwinding.kept state input allowedHere initial)
      fun later member => each later (mem_cons_of_mem input member)
    cases secret : hidden input with
    | true =>
      have unseen : observed input = false := by
        cases seen : observed input with
        | false => rfl
        | true => exact absurd (unwinding.observed_shown input seen) (by simp [secret])
      rw [unwinding.hidden_view state input allowedHere secret initial] at sameAnswers sameView
      simp only [Machine.run, filter_cons, secret, Bool.not_true, Bool.false_eq_true, if_false]
      refine ⟨?_, sameView⟩
      rw [← sameAnswers]
      simp [answers, unseen]
    | false =>
      have next := unwinding.shown_view state input allowedHere secret initial
      simp only [Machine.run, filter_cons, secret, Bool.not_false, if_true, next]
      refine ⟨?_, sameView⟩
      cases seen : observed input with
      | false =>
        simp only [answers, filter_cons, seen, Bool.false_eq_true, if_false] at sameAnswers ⊢
        exact sameAnswers
      | true =>
        have output := unwinding.shown_output state input allowedHere seen initial
        simp only [answers, filter_cons, seen, if_true, output] at sameAnswers ⊢
        rw [sameAnswers]

/-- Two runs that differ in hidden inputs alone look the same. -/
theorem Unwinding.runs_agree (left right : List Input) (state : State) (initial : invariant state)
    (leftAllowed : ∀ input ∈ left, allowed input) (rightAllowed : ∀ input ∈ right, allowed input)
    (same : (left.filter fun input => !hidden input) = right.filter fun input => !hidden input) :
    answers observed (machine.run state left).1 = answers observed (machine.run state right).1 ∧
      view (machine.run state left).2 = view (machine.run state right).2 := by
  obtain ⟨leftAnswers, leftView⟩ := unwinding.purged state initial leftAllowed
  obtain ⟨rightAnswers, rightView⟩ := unwinding.purged state initial rightAllowed
  rw [leftAnswers, leftView, rightAnswers, rightView, same]
  exact ⟨rfl, rfl⟩

end

/-- In the view a hidden step is not seen, and any other step is the same step. -/
def Tracks (view : State → State) (hidden : Bool) (step : State → State) : Prop :=
  ∀ state, view (step state) = if hidden then view state else step (view state)

theorem Tracks.followed {hidden : Bool} {first second : State → State}
    (before : Tracks view hidden first) (after : Tracks view hidden second) :
    Tracks view hidden fun state => second (first state) := by
  intro state
  rw [after, before]
  cases hidden <;> rfl

/-! ## Tables with hidden keys -/

section Hide

variable {Key : Type u} {Value : Type v} [DecidableEq Key]

/-- A table without the entries of some keys. -/
def hide (hidden : Key → Bool) (blank : Value) (table : Key → Value) (key : Key) : Value :=
  if hidden key then blank else table key

variable {hidden : Key → Bool} {blank : Value}

variable {key : Key} {value : Value} (table : Key → Value)

omit [DecidableEq Key] in
theorem hide_hidden (secret : hidden key = true) :
    hide hidden blank table key = blank := if_pos secret

omit [DecidableEq Key] in
theorem hide_shown (shown : hidden key = false) :
    hide hidden blank table key = table key := if_neg (by simp [shown])

/-- Writing under a hidden key cannot be seen; under another key it is the same write in what
is shown. -/
theorem hide_update (key : Key) (change : Value → Value) :
    hide hidden blank (update table key (change (table key))) =
      if hidden key then hide hidden blank table
      else update (hide hidden blank table) key (change (hide hidden blank table key)) := by
  funext other
  cases secret : hidden key with
  | true =>
    obtain rfl | same := eq_or_ne other key
    · simp [hide_hidden, secret]
    · simp [hide, same]
  | false =>
    obtain rfl | same := eq_or_ne other key
    · simp [hide_shown, secret]
    · simp [hide, same]

/-- A change that keeps the blank value can be made before or after hiding. -/
theorem hide_update_change (key : Key) (change : Value → Value) (still : change blank = blank) :
    hide hidden blank (update table key (change (table key))) =
      update (hide hidden blank table) key (change (hide hidden blank table key)) := by
  rw [hide_update]
  split_ifs with secret
  · rw [hide_hidden _ secret, still]
    exact (update_eq_self_iff.mpr (hide_hidden _ secret).symm).symm
  · rfl

end Hide

end Synergos.Machines
