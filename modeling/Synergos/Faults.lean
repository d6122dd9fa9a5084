import Mathlib.Data.List.Basic

/-!
# Programs whose steps may fail

A program reads and changes a state by steps. Before each step the environment
chooses a fault: the step succeeds, it fails without an effect, it takes effect
and is still reported as failed, or the process stops there. A list of faults
that has run out stands for steps that all succeed.

`Ensures` is the weakest precondition of such a program. It has one
postcondition for a program that returns and one for the state in which a
program fails or stops, so an invariant that has to survive a crash between any
two steps is the second one. There is one rule for each way to build a program.
-/

namespace Synergos.Faults

universe u

/-- What the environment does to one step. -/
inductive Fault where
  | none
  | fail (reason : String)
  /-- The step took effect, but its caller is told that it failed. -/
  | late (reason : String)
  | crash
  deriving DecidableEq, Repr

/-- How a program ends. -/
inductive Outcome (ε α : Type u) where
  | done (value : α)
  | failed (error : ε)
  | crashed
  deriving DecidableEq, Repr

/-- The program returned. -/
def Outcome.isDone {ε α : Type u} : Outcome ε α → Bool
  | .done _ => true
  | _ => false

/-- Errors that can report a fault of the environment. -/
class Reports (ε : Type u) where
  report : String → ε

/-- A program from a state and the coming faults to its outcome, the state it
leaves and the faults it has not used. -/
def Program (σ ε α : Type u) : Type u := σ → List Fault → Outcome ε α × σ × List Fault

variable {σ ε α β γ : Type u}

namespace Program

/-- The state after the program. -/
def after (program : Program σ ε α) (state : σ) (faults : List Fault) : σ :=
  (program state faults).2.1

/-- The outcome of the program. -/
def outcome (program : Program σ ε α) (state : σ) (faults : List Fault) : Outcome ε α :=
  (program state faults).1

protected def pure (value : α) : Program σ ε α := fun state faults => (.done value, state, faults)

protected def bind (program : Program σ ε α) (next : α → Program σ ε β) : Program σ ε β :=
  fun state faults =>
    match program state faults with
    | (.done value, after, rest) => next value after rest
    | (.failed error, after, rest) => (.failed error, after, rest)
    | (.crashed, after, rest) => (.crashed, after, rest)

instance : Monad (Program σ ε) where
  pure := Program.pure
  bind := Program.bind

/-- Stop with an error. -/
def throw (error : ε) : Program σ ε α := fun state faults => (.failed error, state, faults)

/-- Run a program and go on with its result or its error; a crash is not caught. -/
def attempt (program : Program σ ε α) : Program σ ε (Except ε α) := fun state faults =>
  match program state faults with
  | (.done value, after, rest) => (.done (.ok value), after, rest)
  | (.failed error, after, rest) => (.done (.error error), after, rest)
  | (.crashed, after, rest) => (.crashed, after, rest)

/-- The value of the call, or its error. -/
def settle (result : Except ε α) : Program σ ε α :=
  match result with
  | .ok value => pure value
  | .error error => throw error

/-- Report an error in other words. -/
def relabel (words : ε → ε) (program : Program σ ε α) : Program σ ε α := do
  match ← attempt program with
  | .ok value => pure value
  | .error error => throw (words error)

section Steps

variable [Reports ε]

/-- One step, exposed to the next fault. -/
def step (effect : σ → Except ε (α × σ)) : Program σ ε α := fun state faults =>
  match faults.headD .none, effect state with
  | .none, .ok (value, after) => (.done value, after, faults.tail)
  | .none, .error error => (.failed error, state, faults.tail)
  | .fail reason, _ => (.failed (Reports.report reason), state, faults.tail)
  | .late reason, .ok (_, after) => (.failed (Reports.report reason), after, faults.tail)
  | .late reason, .error _ => (.failed (Reports.report reason), state, faults.tail)
  | .crash, _ => (.crashed, state, faults.tail)

/-- A step that only reads. -/
def read (view : σ → α) : Program σ ε α := step fun state => .ok (view state, state)

/-- A step that only changes the state. -/
def write (change : σ → σ) : Program σ ε PUnit := step fun state => .ok (⟨⟩, change state)

end Steps

/-- A loop over a list that carries a value. -/
def loop (body : β → γ → Program σ ε β) : β → List γ → Program σ ε β
  | value, [] => pure value
  | value, item :: rest => do
    let next ← body value item
    loop body next rest

/-- What holds of the state before the program if `returns` holds whenever it
returns and `stops` whenever it fails or crashes. -/
def Ensures (program : Program σ ε α) (returns : α → σ → Prop) (stops : σ → Prop)
    (state : σ) : Prop :=
  ∀ faults, match program.outcome state faults with
    | .done value => returns value (program.after state faults)
    | _ => stops (program.after state faults)

variable {returns : α → σ → Prop} {stops : σ → Prop} {state : σ}

/-- The property holds in the state after the program, however it ends. -/
abbrev Keeps (program : Program σ ε α) (holds : σ → Prop) (state : σ) : Prop :=
  Ensures program (fun _ => holds) holds state

theorem ensures_pure {value : α} (holds : returns value state) :
    Ensures (pure value : Program σ ε α) returns stops state :=
  fun _ => holds

theorem ensures_throw {error : ε} (holds : stops state) :
    Ensures (throw error : Program σ ε α) returns stops state :=
  fun _ => holds

variable {program : Program σ ε α}

theorem ensures_bind {next : α → Program σ ε β} {returns : β → σ → Prop}
    (first : Ensures program (fun value => Ensures (next value) returns stops) stops state) :
    Ensures (program >>= next) returns stops state := by
  intro faults
  have held := first faults
  change match (Program.bind program next state faults).1 with
    | .done value => returns value (Program.bind program next state faults).2.1
    | _ => stops (Program.bind program next state faults).2.1
  unfold outcome after at held
  unfold Program.bind
  rcases ended : program state faults with ⟨result, after, rest⟩
  rw [ended] at held
  cases result with
  | done value => exact held rest
  | failed error | crashed => exact held

theorem Ensures.weaken {weaker : α → σ → Prop} {weakerStops : σ → Prop}
    (ensured : Ensures program returns stops state)
    (returned : ∀ value after, returns value after → weaker value after)
    (stopped : ∀ after, stops after → weakerStops after) :
    Ensures program weaker weakerStops state := by
  intro faults
  have held := ensured faults
  cases ended : program.outcome state faults with
  | done value =>
    rw [ended] at held
    exact returned value _ held
  | failed error | crashed =>
    rw [ended] at held
    exact stopped _ held

/-- One program after another, both of which may stop in the same states. -/
theorem Ensures.bind {next : α → Program σ ε β} {results : β → σ → Prop}
    (first : Ensures program returns stops state)
    (second : ∀ value after, returns value after → Ensures (next value) results stops after) :
    Ensures (program >>= next) results stops state :=
  ensures_bind (first.weaken second fun _ => id)

theorem ensures_attempt {returns : Except ε α → σ → Prop}
    (inside : Ensures program (fun value => returns (.ok value))
      (fun after => stops after ∧ ∀ error, returns (.error error) after) state) :
    Ensures (attempt program) returns stops state := by
  intro faults
  have held := inside faults
  unfold outcome after at held ⊢
  unfold attempt
  rcases ended : program state faults with ⟨result, after, rest⟩
  rw [ended] at held
  cases result with
  | done value => exact held
  | failed error => exact held.2 error
  | crashed => exact held.1

theorem ensures_ite {condition : Prop} [Decidable condition] {first second : Program σ ε α}
    (yes : condition → Ensures first returns stops state)
    (no : ¬ condition → Ensures second returns stops state) :
    Ensures (if condition then first else second) returns stops state := by
  by_cases holds : condition
  · rw [if_pos holds]
    exact yes holds
  · rw [if_neg holds]
    exact no holds

/-- The program leaves the state as it is and finds something out. -/
abbrev Looks (program : Program σ ε α) (finds : α → Prop) (state : σ) : Prop :=
  Ensures program (fun value after => after = state ∧ finds value) (· = state) state

theorem Looks.bind {next : α → Program σ ε β} {finds : α → Prop}
    {returns : β → σ → Prop} (first : Looks program finds state) (stopped : stops state)
    (second : ∀ value, finds value → Ensures (next value) returns stops state) :
    Ensures (program >>= next) returns stops state := by
  refine ensures_bind (Ensures.weaken first ?_ fun _ same => same ▸ stopped)
  rintro value _ ⟨rfl, found⟩
  exact second value found

/-- A call whose failure is ignored. -/
theorem ensures_ignored {next : Program σ ε β} {returns : β → σ → Prop}
    (inside : Ensures program (fun _ => Ensures next returns stops)
      (fun after => stops after ∧ Ensures next returns stops after) state) :
    Ensures (attempt program >>= fun _ => next) returns stops state :=
  ensures_bind (ensures_attempt (inside.weaken (fun _ _ => id)
    fun _ held => ⟨held.1, fun _ => held.2⟩))

theorem ensures_relabel {words : ε → ε} (inside : Ensures program returns stops state) :
    Ensures (relabel words program) returns stops state := by
  refine ensures_bind (ensures_attempt (inside.weaken ?_ ?_))
  · intro value after held
    exact ensures_pure held
  · intro after held
    exact ⟨held, fun error => ensures_throw held⟩

theorem ensures_settle {result : Except ε α}
    (ok : ∀ value, result = .ok value → returns value state)
    (error : ∀ error, result = .error error → stops state) :
    Ensures (settle result : Program σ ε α) returns stops state := by
  cases result with
  | ok value => exact ensures_pure (ok value rfl)
  | error failure => exact ensures_throw (error failure rfl)

section Steps

variable [Reports ε]

theorem ensures_step {effect : σ → Except ε (α × σ)} (before : stops state)
    (ok : ∀ value after, effect state = .ok (value, after) → returns value after ∧ stops after) :
    Ensures (step effect) returns stops state := by
  intro faults
  unfold outcome Program.after step
  cases result : effect state with
  | error error => cases faults.headD .none <;> exact before
  | ok pair =>
    obtain ⟨value, after⟩ := pair
    obtain ⟨returned, stopped⟩ := ok value after result
    cases faults.headD .none with
    | none => exact returned
    | fail reason | crash => exact before
    | late reason => exact stopped

theorem ensures_read {view : σ → α} (before : stops state) (ok : returns (view state) state) :
    Ensures (read view : Program σ ε α) returns stops state :=
  ensures_step before fun value after same => by
    cases same
    exact ⟨ok, before⟩

theorem ensures_write {change : σ → σ} {returns : PUnit → σ → Prop} (before : stops state)
    (ok : returns ⟨⟩ (change state)) (stopped : stops (change state)) :
    Ensures (write change : Program σ ε PUnit) returns stops state :=
  ensures_step before fun value after same => by
    cases same
    exact ⟨ok, stopped⟩

end Steps

variable {holds : σ → Prop} {value : α} {items : List γ}

/-- What one pass through the body keeps, the whole loop keeps. -/
theorem ensures_loop {body : β → γ → Program σ ε β} (keeps : β → σ → Prop) {value : β}
    (initial : keeps value state)
    (kept : ∀ item ∈ items, ∀ value state, keeps value state →
      Ensures (body value item) keeps stops state) :
    Ensures (loop body value items) keeps stops state := by
  induction items generalizing value state with
  | nil => exact ensures_pure initial
  | cons item rest ih =>
    refine ensures_bind ?_
    refine (kept item List.mem_cons_self value state initial).weaken ?_ fun _ => id
    intro next after held
    exact ih held
      fun later member => kept later (List.mem_cons_of_mem item member)

/-- A loop whose invariant speaks of the items already taken. -/
theorem ensures_loop_taken {body : β → γ → Program σ ε β} (keeps : List γ → β → σ → Prop)
    {value : β} (initial : keeps [] value state)
    (kept : ∀ taken item rest, items = taken ++ item :: rest → ∀ value state,
      keeps taken value state → Ensures (body value item) (keeps (taken ++ [item])) stops state) :
    Ensures (loop body value items) (keeps items) stops state := by
  suffices general : ∀ rest taken value state, items = taken ++ rest → keeps taken value state →
      Ensures (loop body value rest) (keeps items) stops state from
    general items [] value state rfl initial
  intro rest
  induction rest with
  | nil =>
    intro taken value state split held
    rw [List.append_nil] at split
    subst split
    exact ensures_pure held
  | cons item rest ih =>
    intro taken value state split held
    refine ensures_bind ?_
    refine (kept taken item rest split value state held).weaken ?_ fun _ => id
    intro next after carried
    exact ih (taken ++ [item]) next after (by simp [split]) carried

/-- What is ensured holds in the state after a run, however it ended. -/
theorem Ensures.after (ensured : Keeps program holds state)
    (faults : List Fault) :
    holds (program.after state faults) := by
  have held := ensured faults
  cases ended : program.outcome state faults with
  | done value | failed error | crashed =>
    rw [ended] at held
    exact held

/-- What is ensured whenever a program returned, beside what always holds after it. -/
theorem Ensures.split {always : σ → Prop} (ensured : Ensures program (fun _ => holds) always state)
    (weaker : ∀ after, holds after → always after) (faults : List Fault) :
    always (program.after state faults) ∧
      ((program.outcome state faults).isDone = true → holds (program.after state faults)) := by
  have held := ensured faults
  cases ended : program.outcome state faults with
  | done value =>
    rw [ended] at held
    exact ⟨weaker _ held, fun _ => held⟩
  | failed error | crashed =>
    rw [ended] at held
    exact ⟨held, fun returned => by cases returned⟩

/-- What is ensured of a program that returned. -/
theorem Ensures.done (ensured : Ensures program returns stops state)
    {faults : List Fault} (ended : program.outcome state faults = .done value) :
    returns value (program.after state faults) := by
  have held := ensured faults
  rw [ended] at held
  exact held

end Program

end Synergos.Faults
