import Mathlib.Logic.Basic
import Mathlib.Data.List.Basic

/-!
# Programs that read and may stop

A program that only reads has a result, or an error it stopped with, and the list of what it
read until then.  `Runs` bounds all three at once: what is read, the errors, and the results.
-/

namespace Av6

/-- What a program returned or stopped with, and what it read, the first read first. -/
structure Traced (ε ρ α : Type) where
  result : Except ε α
  reads : List ρ
  deriving DecidableEq

namespace Traced

variable {ε ρ α β : Type}

/-- Go on with the result, unless the program has stopped. -/
protected def bind (x : Traced ε ρ α) (f : α → Traced ε ρ β) : Traced ε ρ β :=
  match x.result with
  | .ok a => ⟨(f a).result, x.reads ++ (f a).reads⟩
  | .error e => ⟨.error e, x.reads⟩

instance : Monad (Traced ε ρ) where
  pure a := ⟨.ok a, []⟩
  bind := Traced.bind

/-- Stop with an error. -/
def stop (e : ε) : Traced ε ρ α := ⟨.error e, []⟩

/-- One read, and the value found there. -/
def load (r : ρ) (a : α) : Traced ε ρ α := ⟨.ok a, [r]⟩

@[simp]
theorem result_pure (a : α) : (pure a : Traced ε ρ α).result = .ok a := rfl

@[simp]
theorem reads_pure (a : α) : (pure a : Traced ε ρ α).reads = [] := rfl

@[simp]
theorem result_stop (e : ε) : (stop e : Traced ε ρ α).result = .error e := rfl

@[simp]
theorem reads_stop (e : ε) : (stop e : Traced ε ρ α).reads = [] := rfl

@[simp]
theorem result_load (r : ρ) (a : α) : (load r a : Traced ε ρ α).result = .ok a := rfl

@[simp]
theorem reads_load (r : ρ) (a : α) : (load r a : Traced ε ρ α).reads = [r] := rfl

theorem bind_of_ok {x : Traced ε ρ α} {f : α → Traced ε ρ β} {a : α}
    (returns : x.result = .ok a) :
    x >>= f = ⟨(f a).result, x.reads ++ (f a).reads⟩ := by
  show (match x.result with
    | .ok a => (⟨(f a).result, x.reads ++ (f a).reads⟩ : Traced ε ρ β)
    | .error e => ⟨.error e, x.reads⟩) = _
  rw [returns]

theorem bind_of_error {x : Traced ε ρ α} {f : α → Traced ε ρ β} {e : ε}
    (stops : x.result = .error e) : x >>= f = ⟨.error e, x.reads⟩ := by
  show (match x.result with
    | .ok a => (⟨(f a).result, x.reads ++ (f a).reads⟩ : Traced ε ρ β)
    | .error e => ⟨.error e, x.reads⟩) = _
  rw [stops]

theorem bind_congr_of_ok {x : Traced ε ρ α} {f g : α → Traced ε ρ β} {a : α}
    (returns : x.result = .ok a) (same : f a = g a) : x >>= f = x >>= g := by
  rw [bind_of_ok returns, bind_of_ok returns, same]

@[simp]
theorem pure_bind (a : α) (f : α → Traced ε ρ β) : pure a >>= f = f a := rfl

@[simp]
theorem stop_bind (e : ε) (f : α → Traced ε ρ β) : stop e >>= f = stop e := rfl

theorem bind_assoc {γ : Type} (x : Traced ε ρ α) (f : α → Traced ε ρ β)
    (g : β → Traced ε ρ γ) : x >>= f >>= g = x >>= fun a => f a >>= g := by
  cases returned : x.result with
  | error e =>
      rw [bind_of_error (f := f) returned, bind_of_error returned]
      exact bind_of_error rfl
  | ok a =>
      rw [bind_of_ok (f := f) returned, bind_of_ok (f := fun a => f a >>= g) returned]
      cases returned' : (f a).result with
      | error e => rw [bind_of_error (x := f a) returned', bind_of_error rfl]
      | ok b =>
          rw [bind_of_ok (x := f a) returned', bind_of_ok rfl]
          simp

theorem result_bind_of_ok {x : Traced ε ρ α} {f : α → Traced ε ρ β} {a : α}
    (returns : x.result = .ok a) : (x >>= f).result = (f a).result := by
  rw [bind_of_ok returns]

/-- Without what is read, a program is one that may fail. -/
theorem result_bind {x : Traced ε ρ α} {f : α → Traced ε ρ β} :
    (x >>= f).result = x.result >>= fun a => (f a).result := by
  cases returned : x.result with
  | ok a => exact result_bind_of_ok returned
  | error e =>
      rw [bind_of_error returned]
      rfl

theorem result_bind_eq_ok {x : Traced ε ρ α} {f : α → Traced ε ρ β} {b : β} :
    (x >>= f).result = .ok b ↔ ∃ a, x.result = .ok a ∧ (f a).result = .ok b := by
  cases returned : x.result with
  | ok a => simp [bind_of_ok returned]
  | error e => simp [bind_of_error returned]

theorem result_bind_eq_error {x : Traced ε ρ α} {f : α → Traced ε ρ β} {e : ε} :
    (x >>= f).result = .error e ↔
      x.result = .error e ∨ ∃ a, x.result = .ok a ∧ (f a).result = .error e := by
  cases returned : x.result with
  | ok a => simp [bind_of_ok returned]
  | error e' => simp [bind_of_error returned]

theorem mem_reads_bind {x : Traced ε ρ α} {f : α → Traced ε ρ β} {r : ρ} :
    r ∈ (x >>= f).reads ↔ r ∈ x.reads ∨ ∃ a, x.result = .ok a ∧ r ∈ (f a).reads := by
  cases returned : x.result with
  | ok a => simp [bind_of_ok returned]
  | error e => simp [bind_of_error returned]

/-- Every read satisfies `P`, an error satisfies `E`, and a result satisfies `Q`. -/
structure Runs (P : ρ → Prop) (E : ε → Prop) (Q : α → Prop) (x : Traced ε ρ α) : Prop where
  reads : ∀ r ∈ x.reads, P r
  error : ∀ e, x.result = .error e → E e
  ok : ∀ a, x.result = .ok a → Q a

variable {P : ρ → Prop} {E : ε → Prop} {Q : α → Prop} {R : β → Prop}
  {x : Traced ε ρ α} {f : α → Traced ε ρ β}

theorem Runs.ret {a : α} (holds : Q a) : Runs P E Q (pure a : Traced ε ρ α) := by
  refine ⟨by simp, by simp, ?_⟩
  simpa using holds

theorem Runs.stop {e : ε} (allowed : E e) : Runs P E Q (Traced.stop e : Traced ε ρ α) := by
  refine ⟨by simp, ?_, by simp⟩
  simpa using allowed

theorem Runs.load {r : ρ} {a : α} (allowed : P r) (holds : Q a) :
    Runs P E Q (Traced.load r a : Traced ε ρ α) := by
  refine ⟨?_, by simp, ?_⟩
  · simpa using allowed
  · simpa using holds

theorem Runs.mono {P' : ρ → Prop} {E' : ε → Prop} {Q' : α → Prop} (runs : Runs P E Q x)
    (reads : ∀ r, P r → P' r) (errors : ∀ e, E e → E' e) (results : ∀ a, Q a → Q' a) :
    Runs P' E' Q' x :=
  ⟨fun r mem => reads r (runs.reads r mem), fun e stops => errors e (runs.error e stops),
    fun a returns => results a (runs.ok a returns)⟩

theorem Runs.post {Q' : α → Prop} (runs : Runs P E Q x) (results : ∀ a, Q a → Q' a) :
    Runs P E Q' x :=
  runs.mono (fun _ => id) (fun _ => id) results

theorem Runs.bind (first : Runs P E Q x) (rest : ∀ a, Q a → Runs P E R (f a)) :
    Runs P E R (x >>= f) := by
  refine ⟨?_, ?_, ?_⟩
  · intro r mem
    rcases mem_reads_bind.mp mem with mem | ⟨a, returns, mem⟩
    · exact first.reads r mem
    · exact (rest a (first.ok a returns)).reads r mem
  · intro e stops
    rcases result_bind_eq_error.mp stops with stops | ⟨a, returns, stops⟩
    · exact first.error e stops
    · exact (rest a (first.ok a returns)).error e stops
  · intro b returns
    obtain ⟨a, returnsFirst, returns⟩ := result_bind_eq_ok.mp returns
    exact (rest a (first.ok a returnsFirst)).ok b returns

/-- The result that a run is known to have may be used as a postcondition. -/
theorem Runs.and_result (runs : Runs P E Q x) :
    Runs P E (fun a => Q a ∧ x.result = .ok a) x :=
  ⟨runs.reads, runs.error, fun a returns => ⟨runs.ok a returns, returns⟩⟩

/-- A run that cannot stop and has one result returns it. -/
theorem Runs.returns {a : α} (runs : Runs P (fun _ => False) (· = a) x) : x.result = .ok a := by
  cases returned : x.result with
  | error e => exact (runs.error e returned).elim
  | ok b => rw [runs.ok b returned]

end Traced

end Av6
