import Synergos.Faults

/-!
# The runs of a program whose steps may fail

Memory is read and changed without a step, and a program over a part of the state
runs as one over the whole. `Passes` is the run without faults.

`FailsIn` says in which states a program may fail. Read backwards it takes a
program apart: what the whole program leaves behind whenever it fails, its first
part leaves behind too, and so does its second part after any run of the first.
A single step can fail before its effect and after it, so that both states are
among those in which the program may fail.
-/

namespace Synergos.FaultRuns

open Faults Faults.Program

universe u

variable {σ τ ε α β γ : Type u}

/-! ### Memory and parts of the state -/

/-- Read the memory of the process. -/
def peek (view : σ → α) : Program σ ε α := fun state faults => (.done (view state), state, faults)

/-- Change the memory of the process. -/
def poke (change : σ → σ) : Program σ ε PUnit := fun state faults =>
  (.done ⟨⟩, change state, faults)

/-- Run a program on a part of the state. -/
def within (view : τ → σ) (put : σ → τ → τ) (program : Program σ ε α) : Program τ ε α :=
  fun state faults =>
    let ended := program (view state) faults
    (ended.1, put ended.2.1 state, ended.2.2)

/-- Report the errors of a program as errors of another kind. -/
def translate {δ : Type u} (words : ε → δ) (program : Program σ ε α) : Program σ δ α :=
  fun state faults =>
    match program state faults with
    | (.done value, after, rest) => (.done value, after, rest)
    | (.failed error, after, rest) => (.failed (words error), after, rest)
    | (.crashed, after, rest) => (.crashed, after, rest)

/-- One step of another party, which may change the state and answer with an error. -/
def consult [Reports ε] (answer : σ → Except ε α × σ) : Program σ ε α := do
  let result ← step fun state => .ok (answer state)
  settle result

section Rules

variable {returns : α → σ → Prop} {stops : σ → Prop} {state : σ}

theorem ensures_consult [Reports ε] {answer : σ → Except ε α × σ} (before : stops state)
    (stopped : stops (answer state).2)
    (ok : ∀ value, (answer state).1 = .ok value → returns value (answer state).2) :
    Ensures (consult answer) returns stops state := by
  refine ensures_bind (ensures_step before ?_)
  intro result after same
  have answered := Except.ok.inj same
  rw [answered] at stopped ok
  exact ⟨ensures_settle ok fun _ _ => stopped, stopped⟩

theorem ensures_within {view : τ → σ} {put : σ → τ → τ} {program : Program σ ε α} {state : τ}
    {returns : α → τ → Prop} {stops : τ → Prop}
    (inside : Ensures program (fun value part => returns value (put part state))
      (fun part => stops (put part state)) (view state)) :
    Ensures (within view put program) returns stops state :=
  inside

end Rules

variable {change : σ → σ} {words : ε → ε} {program : Program σ ε α} {next : α → Program σ ε β}
  {error : ε} {items : List γ} {middle : σ} {value : α}

/-! ### The run without faults -/

/-- Without faults the program returns the value in the state. -/
def Yields (program : Program σ ε α) (state : σ) (value : α) (after : σ) : Prop :=
  program state [] = (.done value, after, [])

/-- What comes after the first part is run where it has led. -/
theorem Yields.bind_eq {state : σ} (first : Yields program state value middle)
    (next : α → Program σ ε β) :
    (program >>= next) state [] = next value middle [] := by
  change Program.bind program next state [] = _
  rw [Program.bind, show program state [] = _ from first]

/-- A first part that fails is the end. -/
theorem bind_failed {state after : σ} (failed : program state [] = (.failed error, after, []))
    (next : α → Program σ ε β) :
    (program >>= next) state [] = (.failed error, after, []) := by
  change Program.bind program next state [] = _
  rw [Program.bind, failed]

/-- Without faults the program returns the value in the state, and it can do so with
any faults waiting for what comes after it. -/
structure Passes (program : Program σ ε α) (state : σ) (value : α) (after : σ) : Prop where
  yields : Yields program state value after
  again : ∃ used, ∀ rest, program state (used ++ rest) = (.done value, after, rest)

theorem passes_pure {state : σ} : Passes (pure value : Program σ ε α) state value state :=
  ⟨rfl, [], fun _ => rfl⟩

theorem passes_peek {view : σ → α} {state : σ} :
    Passes (peek view : Program σ ε α) state (view state) state :=
  ⟨rfl, [], fun _ => rfl⟩

theorem passes_poke {state : σ} :
    Passes (poke change : Program σ ε PUnit) state ⟨⟩ (change state) :=
  ⟨rfl, [], fun _ => rfl⟩

theorem passes_step [Reports ε] {effect : σ → Except ε (α × σ)} {state after : σ}
    (effective : effect state = .ok (value, after)) :
    Passes (step effect : Program σ ε α) state value after := by
  constructor
  · rw [Yields, step, effective]
    rfl
  · refine ⟨[.none], fun rest => ?_⟩
    rw [step, effective]
    rfl

theorem passes_read [Reports ε] {view : σ → α} {state : σ} :
    Passes (read view : Program σ ε α) state (view state) state :=
  passes_step rfl

theorem passes_settle {result : Except ε α} {state : σ} (accepted : result = .ok value) :
    Passes (settle result : Program σ ε α) state value state := by
  rw [accepted]
  exact passes_pure

theorem Passes.bind {state after : σ} {result : β} (first : Passes program state value middle)
    (second : Passes (next value) middle result after) :
    Passes (program >>= next) state result after := by
  refine ⟨(first.yields.bind_eq next).trans second.yields, ?_⟩
  obtain ⟨used, repeated⟩ := first.again
  obtain ⟨more, follows⟩ := second.again
  refine ⟨used ++ more, fun rest => ?_⟩
  change Program.bind program next state _ = _
  rw [Program.bind, List.append_assoc, repeated]
  exact follows rest

theorem Passes.attempt {state after : σ} (inside : Passes program state value after) :
    Passes (attempt program) state (.ok value) after := by
  obtain ⟨alone, used, repeated⟩ := inside
  refine ⟨?_, used, fun rest => ?_⟩
  · rw [Yields, Program.attempt, show program state [] = _ from alone]
  · rw [Program.attempt, repeated]

theorem Passes.relabel {state after : σ} (inside : Passes program state value after) :
    Passes (relabel words program) state value after :=
  inside.attempt.bind passes_pure

theorem Passes.within {view : τ → σ} {put : σ → τ → τ} {state : τ} {after : σ}
    (inside : Passes program (view state) value after) :
    Passes (within view put program) state value (put after state) := by
  obtain ⟨alone, used, repeated⟩ := inside
  refine ⟨?_, used, fun rest => ?_⟩
  · rw [Yields, FaultRuns.within, show program (view state) [] = _ from alone]
  · rw [FaultRuns.within, repeated]

/-- A loop whose body only computes is a fold. -/
theorem passes_loop {state : σ} {body : β → γ → Program σ ε β} {compute : β → γ → β}
    (computes : ∀ value item, Passes (body value item) state (compute value item) state)
    (value : β) : Passes (loop body value items) state (items.foldl compute value) state := by
  induction items generalizing value with
  | nil => exact passes_pure
  | cons item rest ih =>
    exact (computes value item).bind (ih (compute value item))

/-- No failure is passed over: a run that returns is the one without faults. -/
def Strict (program : Program σ ε α) : Prop :=
  ∀ state faults value, program.outcome state faults = .done value →
    Passes program state value (program.after state faults)

theorem Strict.bind (first : Strict program)
    (second : ∀ value, Strict (next value)) : Strict (program >>= next) := by
  intro state faults result returned
  have began := first state faults
  change (Program.bind program next state faults).1 = .done result at returned
  change Passes _ state result (Program.bind program next state faults).2.1
  unfold Program.bind at returned ⊢
  unfold Program.outcome Program.after at began
  rcases ended : program state faults with ⟨outcome, after, rest⟩
  rw [ended] at began returned
  cases outcome with
  | done value => exact (began value rfl).bind (second value after rest result returned)
  | failed error | crashed => cases returned

theorem Strict.relabel (inside : Strict program) :
    Strict (relabel words program) := by
  intro state faults value returned
  have began := inside state faults
  change (Program.bind (Program.attempt program) _ state faults).1 = .done value at returned
  change Passes _ state value (Program.bind (Program.attempt program) _ state faults).2.1
  unfold Program.bind Program.attempt at returned ⊢
  unfold Program.outcome Program.after at began
  rcases ended : program state faults with ⟨outcome, after, rest⟩
  rw [ended] at began returned
  cases outcome with
  | done result =>
    cases returned
    exact (began value rfl).relabel
  | failed error | crashed => cases returned

/-- What is ensured whenever a strict program returns, it returns without faults too. -/
theorem Strict.ensures (strict : Strict program) (state : σ) :
    Ensures program (Yields program state) (fun _ => True) state := by
  intro faults
  have returned := strict state faults
  cases ended : program.outcome state faults with
  | done value => exact (returned value ended).yields
  | failed error | crashed => trivial

theorem Strict.passes {state after : σ} (strict : Strict program)
    (yields : Yields program state value after) : Passes program state value after := by
  have passes := strict state [] value (congrArg Prod.fst yields)
  have left : program.after state [] = after := congrArg (fun ended => ended.2.1) yields
  rwa [left] at passes

/-! ### Where a program may fail -/

/-- Whenever the program fails it does so in a state with the property. -/
def FailsIn (holds : σ → Prop) (program : Program σ ε α) (state : σ) : Prop :=
  ∀ faults error, program.outcome state faults = .failed error → holds (program.after state faults)

section Taking

variable {holds : σ → Prop} {program : Program σ ε α} {next : α → Program σ ε β} {state : σ}

theorem FailsIn.weaken (fails : FailsIn holds program state) {weaker : σ → Prop}
    (implies : ∀ after, holds after → weaker after) : FailsIn weaker program state :=
  fun faults error failed => implies _ (fails faults error failed)

theorem FailsIn.first (fails : FailsIn holds (program >>= next) state) :
    FailsIn holds program state := by
  intro faults error failed
  have same : Program.bind program next state faults =
      (.failed error, program.after state faults, (program state faults).2.2) := by
    unfold Program.bind Program.after
    unfold Program.outcome at failed
    rcases ended : program state faults with ⟨result, after, rest⟩
    rw [ended] at failed
    simp only at failed
    rw [failed]
  have whole := fails faults error (congrArg Prod.fst same)
  have left : (program >>= next).after state faults = program.after state faults :=
    congrArg (fun ended => ended.2.1) same
  rwa [left] at whole

/-- After the run of the first part without faults. -/
theorem FailsIn.follow (fails : FailsIn holds (program >>= next) state)
    (passes : Passes program state value middle) : FailsIn holds (next value) middle := by
  intro later error failed
  obtain ⟨used, again⟩ := passes.again
  have same : Program.bind program next state (used ++ later) = next value middle later := by
    rw [Program.bind, again]
  have whole := fails (used ++ later) error ((congrArg Prod.fst same).trans failed)
  have left : (program >>= next).after state (used ++ later) = (next value).after middle later :=
    congrArg (fun ended => ended.2.1) same
  rwa [left] at whole

theorem FailsIn.relabel (fails : FailsIn holds (relabel words program) state) :
    FailsIn holds program state := by
  intro faults error failed
  have same : Program.relabel words program state faults =
      (.failed (words error), program.after state faults, (program state faults).2.2) := by
    change Program.bind (attempt program) _ state faults = _
    unfold Program.bind Program.attempt Program.after
    unfold Program.outcome at failed
    rcases ended : program state faults with ⟨result, after, rest⟩
    rw [ended] at failed
    simp only at failed
    rw [failed]
    rfl
  have whole := fails faults (words error) (congrArg Prod.fst same)
  have left : (Program.relabel words program).after state faults = program.after state faults :=
    congrArg (fun ended => ended.2.1) same
  rwa [left] at whole

theorem FailsIn.within {view : τ → σ} {put : σ → τ → τ} {whole : τ} {holds : τ → Prop}
    (fails : FailsIn holds (within view put program) whole) :
    FailsIn (fun part => holds (put part whole)) program (view whole) :=
  fails

variable [Reports ε] {effect : σ → Except ε (α × σ)}

/-- A step may fail before its effect. -/
theorem FailsIn.before (fails : FailsIn holds (step effect : Program σ ε α) state) :
    holds state := by
  have stopped := fails [.fail ""] (Reports.report "")
  unfold Program.outcome Program.after step at stopped
  exact stopped rfl

/-- A step may be reported as failed after its effect. -/
theorem FailsIn.behind (fails : FailsIn holds (step effect : Program σ ε α) state) {after : σ}
    (effective : effect state = .ok (value, after)) : holds after := by
  have stopped := fails [.late ""] (Reports.report "")
  rw [Program.outcome, Program.after, step, effective] at stopped
  exact stopped rfl

end Taking

section Showing

variable {holds : σ → Prop} {program : Program σ ε α} {next : α → Program σ ε β} {state : σ}

end Showing

end Synergos.FaultRuns
