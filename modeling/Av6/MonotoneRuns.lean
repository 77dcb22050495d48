import Av6.FallibleState
import Mathlib.Order.Defs.Unbundled
import Mathlib.Order.RelClasses

/-!
# Runs along a relation

A program moves along a relation when every run of it that ends leads from its first state to a
related one.  Along a reflexive and transitive relation programs can be put together, and
nothing has to be known about the states in between.
-/

namespace Av6

namespace FallibleState

variable {σ ε α β : Type} {R : σ → σ → Prop} {m : StateT σ (Except ε) α}
  {f : α → StateT σ (Except ε) β} {s t : σ} {a : α} {e : ε}

/-- If the program ends from `s`, it ends in a state that is related to `s`. -/
def Moves (R : σ → σ → Prop) (m : StateT σ (Except ε) α) (s : σ) : Prop :=
  ∀ a t, m s = .ok (a, t) → R s t

/-- What a run yields, it yields along the relation. -/
theorem Moves.yields {Q : α → σ → Prop} (moves : Moves R m s) (yields : Yields m s Q) :
    Yields m s fun a t => Q a t ∧ R s t := by
  obtain ⟨a, t, runs, holds⟩ := yields
  exact ⟨a, t, runs, holds, moves a t runs⟩

theorem Moves.update {g : σ → σ} (related : R s (g s)) :
    Moves R (modify g : StateT σ (Except ε) PUnit) s := by
  intro a t runs
  cases runs
  exact related

theorem Moves.write (related : R s t) : Moves R (set t : StateT σ (Except ε) PUnit) s := by
  intro a u runs
  cases runs
  exact related

theorem Moves.read_bind {f : σ → StateT σ (Except ε) β} (rest : Moves R (f s) s) :
    Moves R (get >>= f) s :=
  rest

/-- After a check that fails the program does not end. -/
theorem Moves.check_bind {condition : Prop} [Decidable condition]
    {f : Unit → StateT σ (Except ε) β} (rest : Moves R (f ()) s) :
    Moves R (check condition e >>= f) s := by
  unfold check
  split
  · exact rest
  · intro b t runs
    cases runs

/-- Each of two programs moves along a relation of its own. -/
theorem Moves.next {P : σ → σ → Prop} (first : Moves P m s)
    (rest : ∀ a t, P s t → Moves (fun _ u => R s u) (f a) t) : Moves R (m >>= f) s := by
  intro b u runs
  obtain ⟨a, t, runs, runs'⟩ := exists_of_bind runs
  exact rest a t (first a t runs) b u runs'

section

variable [IsPreorder σ R]

theorem Moves.ret : Moves R (pure a : StateT σ (Except ε) α) s := by
  intro b t runs
  cases runs
  exact refl_of R s

theorem Moves.bind (first : Moves R m s) (rest : ∀ a t, Moves R (f a) t) :
    Moves R (m >>= f) s := by
  refine Moves.next (R := R) first fun a t here => ?_
  intro b u runs
  exact trans_of R here (rest a t b u runs)

theorem Moves.forM {ι : Type} {b : ι → StateT σ (Except ε) Unit} (step : ∀ i s, Moves R (b i) s)
    (l : List ι) (s : σ) : Moves R (l.forM b) s := by
  induction l generalizing s with
  | nil => exact .ret
  | cons i rest ih => exact (step i s).bind fun _ t => ih t

end

/-- A program on a part of the state moves along a relation of the parts. -/
theorem Moves.onPart {τ ε' : Type} {R : τ → τ → Prop} {part : σ → τ} {put : σ → τ → σ}
    {wrap : ε' → ε} {m : StateT τ (Except ε') α} (moves : Moves R m (part s))
    (puts : ∀ s t, part (put s t) = t) :
    Moves (Order.Preimage part R) (FallibleState.onPart part put wrap m) s := by
  intro a u runs
  unfold FallibleState.onPart at runs
  cases outcome : m (part s) with
  | error e =>
      rw [outcome] at runs
      cases runs
  | ok result =>
      obtain ⟨b, t⟩ := result
      rw [outcome] at runs
      cases runs
      show R (part s) (part (put s t))
      rw [puts]
      exact moves a t outcome

end FallibleState

end Av6
