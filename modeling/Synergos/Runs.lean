import Mathlib.Logic.Relation

/-!
# Runs of a guarded system

A system moves by actions: an action is enabled in some states and then leads to
one next state. What the environment chooses, the order of concurrent steps and
the outcome of each attempt included, is part of the action. A run may be held
to a condition on each action and the state it is taken in; what holds at the
start and is kept by every action under the condition holds in every state that
such a run reaches.
-/

namespace Synergos.Runs

universe u v

structure System (State : Type u) (Action : Type v) where
  enabled : State → Action → Prop
  apply : State → Action → State

variable {State : Type u} {Action : Type v}

/-- The states that runs reach whose actions all meet the condition. -/
inductive Run (system : System State Action) (condition : State → Action → Prop)
    (start : State) : State → Prop
  | start : Run system condition start start
  | next {state : State} (past : Run system condition start state) (action : Action)
      (enabled : system.enabled state action) (met : condition state action) :
      Run system condition start (system.apply state action)

/-- Runs without a condition. -/
def Reaches (system : System State Action) (start state : State) : Prop :=
  Run system (fun _ _ => True) start state

variable {system : System State Action} {condition : State → Action → Prop} {start : State}

/-- What holds at the start and is kept by every action holds in every state reached. -/
theorem Run.invariant (invariant : State → Prop) (initial : invariant start)
    (kept : ∀ state action, system.enabled state action → condition state action →
      invariant state → invariant (system.apply state action))
    {state : State} (run : Run system condition start state) : invariant state := by
  induction run with
  | start => exact initial
  | next past action enabled met ih =>
    exact kept _ action enabled met ih

/-- One more action, with the state it leads to. -/
theorem Run.to {state after : State} (past : Run system condition start state) (action : Action)
    (enabled : system.enabled state action) (met : condition state action)
    (leads : system.apply state action = after) : Run system condition start after := by
  subst leads
  exact .next past action enabled met

/-- A run under a condition is a run. -/
theorem Run.reaches {state : State} (run : Run system condition start state) :
    Reaches system start state := by
  induction run with
  | start => exact .start
  | next past action enabled met ih =>
    exact .next ih action enabled trivial

/-- What every step keeps, a chain of steps keeps. -/
theorem chain_keeps {step : State → State → Prop} (holds : State → Prop)
    (kept : ∀ state after, step state after → holds state → holds after) {state after : State}
    (chain : Relation.ReflTransGen step state after) (initial : holds state) : holds after := by
  induction chain with
  | refl => exact initial
  | tail _ next ih => exact kept _ _ next ih

/-- Every action of the list is enabled and meets the condition where it is taken. -/
def Admitted (system : System State Action) (condition : State → Action → Prop) :
    State → List Action → Prop
  | _, [] => True
  | state, action :: rest => system.enabled state action ∧ condition state action ∧
      Admitted system condition (system.apply state action) rest

/-- The actions of a list, one after another. -/
theorem Run.follow (actions : List Action) {state : State} (past : Run system condition start state)
    (admitted : Admitted system condition state actions) :
    Run system condition start (actions.foldl system.apply state) := by
  induction actions generalizing state with
  | nil => exact past
  | cons action rest ih =>
    obtain ⟨enabled, met, after⟩ := admitted
    exact ih (.next past action enabled met) after

end Synergos.Runs
