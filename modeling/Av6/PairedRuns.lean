import Av6.ForkMemory

/-!
# Two runs of the kernel

A program of the kernel from two states that differ in the memory only.  Unless it stops, it ends
with one result, in two states that again differ in the memory only.
-/

namespace Av6

namespace Fork

open FallibleState Kmem Pmap Exec

variable {s t : Kernel} {w w' : VmState} {α β : Type} {m : Kern α} {E : Pmap.Panic → Prop} {a : α}

/-- From `s` the program stops with an error that is allowed.  Or from `s`, and from `s` with the
memory `w`, it ends with `Q`. -/
def Paired (E : Pmap.Panic → Prop) (m : Kern α) (s : Kernel) (w : VmState)
    (Q : α → Kernel → VmState → Prop) : Prop :=
  (∃ e, E e ∧ Fails m s e) ∨ ∃ a t w', m s = .ok (a, t) ∧
    m { s with vm := w } = .ok (a, { t with vm := w' }) ∧ Q a t w'

theorem Paired.ret {Q : α → Kernel → VmState → Prop} (holds : Q a s w) : Paired E (pure a) s w Q :=
  .inr ⟨a, s, w, rfl, rfl, holds⟩

theorem Paired.mono {Q Q' : α → Kernel → VmState → Prop} (paired : Paired E m s w Q)
    (weaker : ∀ a t w', Q a t w' → Q' a t w') : Paired E m s w Q' := by
  rcases paired with fails | ⟨a, t, w', runs, runs', holds⟩
  · exact .inl fails
  · exact .inr ⟨a, t, w', runs, runs', weaker a t w' holds⟩

/-- The result is one of the first run. -/
theorem Paired.post {Q : α → Kernel → VmState → Prop} (paired : Paired E m s w Q) :
    Paired E m s w fun a t w' => m s = .ok (a, t) ∧ Q a t w' := by
  rcases paired with fails | ⟨a, t, w', runs, runs', holds⟩
  · exact .inl fails
  · exact .inr ⟨a, t, w', runs, runs', runs, holds⟩

theorem Paired.allow {E' : Pmap.Panic → Prop} {Q : α → Kernel → VmState → Prop}
    (paired : Paired E m s w Q) (more : ∀ e, E e → E' e) : Paired E' m s w Q := by
  rcases paired with ⟨e, allowed, fails⟩ | ends
  · exact .inl ⟨e, more e allowed, fails⟩
  · exact .inr ends

theorem Paired.bind {f : α → Kern β} {P : α → Kernel → VmState → Prop}
    {Q : β → Kernel → VmState → Prop} (first : Paired E m s w P)
    (rest : ∀ a t w', P a t w' → Paired E (f a) t w' Q) : Paired E (m >>= f) s w Q := by
  rcases first with ⟨e, allowed, fails⟩ | ⟨a, t, w', runs, runs', holds⟩
  · exact .inl ⟨e, allowed, fails.bind⟩
  · rcases rest a t w' holds with ⟨e, allowed, fails⟩ | ⟨b, u, w'', next, next', holds'⟩
    · exact .inl ⟨e, allowed, (bind_eq_of_ok runs).trans fails⟩
    · exact .inr ⟨b, u, w'', (bind_eq_of_ok runs).trans next,
        (bind_eq_of_ok runs').trans next', holds'⟩

/-- What is read and used is no memory. -/
theorem Paired.read_bind {f : Kernel → Kern β} {Q : β → Kernel → VmState → Prop}
    (same : f { s with vm := w } = f s) (rest : Paired E (f s) s w Q) :
    Paired E (get >>= f) s w Q := by
  have read : (get : Kern Kernel) s = .ok (s, s) := rfl
  have read' : (get : Kern Kernel) { s with vm := w } = .ok ({ s with vm := w }, { s with vm := w }) :=
    rfl
  unfold Paired Fails
  rw [bind_eq_of_ok read, bind_eq_of_ok read', same]
  exact rest

theorem Paired.update {g : Kernel → Kernel} {Q : Unit → Kernel → VmState → Prop}
    (same : g { s with vm := w } = { g s with vm := w }) (holds : Q () (g s) w) :
    Paired E (modify g) s w Q := by
  refine .inr ⟨(), g s, w, rfl, ?_, holds⟩
  rw [← same]
  rfl

theorem Paired.update_bind {g : Kernel → Kernel} {f : Unit → Kern β}
    {Q : β → Kernel → VmState → Prop} (same : g { s with vm := w } = { g s with vm := w })
    (rest : Paired E (f ()) (g s) w Q) : Paired E (modify g >>= f) s w Q := by
  apply Paired.bind (Paired.update (Q := fun _ t w' => t = g s ∧ w' = w) same ⟨rfl, rfl⟩)
  rintro _ _ _ ⟨rfl, rfl⟩
  exact rest

/-- A program on the memory. -/
theorem Paired.vm {m : Vm α} {Q : α → VmState → VmState → Prop} (twin : TwinOr E m s.vm w Q) :
    Paired E (onVm m) s w fun r t w' => ∃ vm, t = { s with vm } ∧ Q r vm w' := by
  rcases twin with ⟨e, allowed, fails, -⟩ | ⟨a, vm, w', runs, runs', holds⟩
  · refine .inl ⟨e, allowed, ?_⟩
    unfold Fails onVm onPart
    rw [fails]
    rfl
  · refine .inr ⟨a, { s with vm }, w', ?_, ?_, vm, rfl, holds⟩
    · unfold onVm onPart
      rw [runs]
    · unfold onVm onPart
      dsimp only
      rw [runs']

/-- A program on the memory that makes no slab. -/
theorem Paired.onVm {m : Vm α} {Q : α → VmState → VmState → Prop} (twin : TwinOr E m s.vm w Q)
    (moves : Moves KeepsSlabs m s.vm) : Paired E (onVm m) s w fun r t w' =>
      ∃ vm, t = { s with vm } ∧ Q r vm w' ∧ KeepsCaches s.vm vm := by
  rcases twin with fails | ⟨a, vm, w', runs, runs', holds⟩
  · exact Paired.vm (.inl fails)
  · apply Paired.vm (.inr ⟨a, vm, w', runs, runs', holds, keepsCaches_of_slabs (moves _ _ runs)⟩)

/-- The first of the two runs. -/
theorem Paired.self {Q : α → Kernel → VmState → Prop} (paired : Paired E m s s.vm Q) :
    YieldsOr E m s fun a t => Q a t t.vm := by
  rcases paired with fails | ⟨a, t, w', runs, runs', holds⟩
  · exact .inl fails
  · have same : ({ t with vm := w' } : Kernel) = t := by
      replace runs' : m s = .ok (a, { t with vm := w' }) := runs'
      rw [runs] at runs'
      injection runs' with pair
      injection pair with _ after
      exact after.symm
    have vm : w' = t.vm := by
      conv_rhs => rw [← same]
    subst vm
    exact .inr ⟨a, t, runs, holds⟩

theorem Paired.yields {Q : α → Kernel → VmState → Prop}
    (paired : Paired (fun _ => False) m s s.vm Q) : Yields m s fun a t => Q a t t.vm := by
  rcases paired.self with ⟨e, allowed, -⟩ | yields
  · exact allowed.elim
  · exact yields

/-- The second run ends where the first does. -/
theorem Paired.second {Q : α → Kernel → VmState → Prop} (paired : Paired E m s w Q)
    (runs : m s = .ok (a, t)) :
    ∃ w', m { s with vm := w } = .ok (a, { t with vm := w' }) ∧ Q a t w' := by
  rcases paired with ⟨e, -, fails⟩ | ⟨b, u, w', runs', runs'', holds⟩
  · rw [Fails, runs] at fails
    cases fails
  · rw [runs] at runs'
    cases runs'
    exact ⟨w', runs'', holds⟩

end Fork

end Av6
