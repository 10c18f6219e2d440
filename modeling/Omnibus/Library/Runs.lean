import Mathlib.Data.List.Basic

/-!
# Runs of a transition system

Runs of a partial step function over a list of actions, and the invariant rule for runs
whose every step meets a condition on the state before it.
-/

namespace Omnibus.Library.Runs

variable {State Action : Type*} (step : State → Action → Option State)

/-- The state after the actions; none when one of them is not enabled. -/
def run (state : State) : List Action → Option State
  | [] => some state
  | action :: rest => (step state action).bind fun next => run next rest

/-- Every action of the run meets the condition in the state it is taken from. -/
def Meets (condition : State → Action → Prop) (state : State) : List Action → Prop
  | [] => True
  | action :: rest =>
      condition state action ∧
        match step state action with
        | none => True
        | some next => Meets condition next rest

instance Meets.decidable (condition : State → Action → Prop)
    [∀ state action, Decidable (condition state action)] :
    (state : State) → (actions : List Action) → Decidable (Meets step condition state actions)
  | _, [] => isTrue trivial
  | state, action :: rest =>
      match stepped : step state action with
      | none => decidable_of_iff (condition state action) (by simp [Meets, stepped])
      | some next =>
          have := Meets.decidable condition next rest
          decidable_of_iff (condition state action ∧ Meets step condition next rest)
            (by simp [Meets, stepped])

theorem Meets.tail {condition : State → Action → Prop} {state next : State} {action : Action}
    {rest : List Action} (meets : Meets step condition state (action :: rest))
    (stepped : step state action = some next) : Meets step condition next rest := by
  have later := meets.2
  rwa [stepped] at later

theorem Meets.of_forall {condition : State → Action → Prop} (state : State)
    (actions : List Action) (always : ∀ action ∈ actions, ∀ state, condition state action) :
    Meets step condition state actions := by
  induction actions generalizing state with
  | nil => exact trivial
  | cons action rest induction =>
      refine ⟨always action List.mem_cons_self state, ?_⟩
      split
      · trivial
      · exact induction _ fun other member => always other (List.mem_cons_of_mem _ member)

theorem Meets.concat {condition : State → Action → Prop} {state : State} {actions : List Action}
    {action : Action} (meets : Meets step condition state (actions ++ [action])) :
    Meets step condition state actions ∧
      ∀ last, run step state actions = some last → condition last action := by
  induction actions generalizing state with
  | nil =>
      refine ⟨trivial, fun last ran => ?_⟩
      rw [run, Option.some.injEq] at ran
      exact ran ▸ meets.1
  | cons first rest induction =>
      cases stepped : step state first with
      | none =>
          refine ⟨⟨meets.1, by rw [stepped]; trivial⟩, fun last ran => ?_⟩
          rw [run, stepped] at ran
          cases ran
      | some next =>
          obtain ⟨earlier, later⟩ := induction (meets.tail step stepped)
          refine ⟨⟨meets.1, by rw [stepped]; exact earlier⟩, fun last ran => later last ?_⟩
          rw [run, stepped] at ran
          exact ran

theorem Meets.and_all {condition : State → Action → Prop} {property : Action → Prop}
    {state : State} {actions : List Action} (meets : Meets step condition state actions)
    (all : ∀ action ∈ actions, property action) :
    Meets step (fun state action => property action ∧ condition state action) state actions := by
  induction actions generalizing state with
  | nil => exact trivial
  | cons action rest induction =>
      refine ⟨⟨all action List.mem_cons_self, meets.1⟩, ?_⟩
      split
      · trivial
      · rename_i next stepped
        exact induction (meets.tail step stepped) fun other member =>
          all other (List.mem_cons_of_mem _ member)

theorem run_keeps {condition : State → Action → Prop} {invariant : State → Prop}
    (keeps : ∀ state action next, invariant state → condition state action →
      step state action = some next → invariant next)
    {state last : State} (actions : List Action) (start : invariant state)
    (meets : Meets step condition state actions) (ran : run step state actions = some last) :
    invariant last := by
  induction actions generalizing state with
  | nil =>
      rw [run, Option.some.injEq] at ran
      exact ran ▸ start
  | cons action rest induction =>
      obtain ⟨next, stepped, later⟩ := Option.bind_eq_some_iff.mp ran
      exact induction (keeps state action next start meets.1 stepped) (meets.tail step stepped)
        later

theorem run_preserves {invariant : State → Prop}
    (keeps : ∀ state action next, invariant state → step state action = some next →
      invariant next)
    {state last : State} (actions : List Action) (start : invariant state)
    (ran : run step state actions = some last) : invariant last := by
  induction actions generalizing state with
  | nil =>
      rw [run, Option.some.injEq] at ran
      exact ran ▸ start
  | cons action rest induction =>
      obtain ⟨next, stepped, later⟩ := Option.bind_eq_some_iff.mp ran
      exact induction (keeps state action next start stepped) later

end Omnibus.Library.Runs
