import Mathlib.Logic.Relation

/-!
# Runs of a transition system

A state is reachable when some initial state leads to it by any number of
steps.  An invariant that the initial states have and that every step keeps holds
of every reachable state; each step may assume that it starts reachable, so that
invariants can be proved one after the other.
-/

namespace TransitionSystem

variable {σ : Type*} {initial : σ → Prop} {step : σ → σ → Prop}

def Reachable (initial : σ → Prop) (step : σ → σ → Prop) (state : σ) : Prop :=
  ∃ start, initial start ∧ Relation.ReflTransGen step start state

theorem Reachable.start {state : σ} (begins : initial state) :
    Reachable initial step state :=
  ⟨state, begins, .refl⟩

theorem Reachable.next {state after : σ} (reached : Reachable initial step state)
    (stepped : step state after) : Reachable initial step after := by
  obtain ⟨start, begins, path⟩ := reached
  exact ⟨start, begins, path.tail stepped⟩

/-- The invariant rule. -/
theorem Reachable.invariant {I : σ → Prop}
    (starts : ∀ state, initial state → I state)
    (keeps : ∀ state after, Reachable initial step state → I state →
      step state after → I after)
    {state : σ} (reached : Reachable initial step state) : I state := by
  obtain ⟨start, begins, path⟩ := reached
  induction path with
  | refl => exact starts start begins
  | tail path stepped ih => exact keeps _ _ ⟨start, begins, path⟩ ih stepped

end TransitionSystem
