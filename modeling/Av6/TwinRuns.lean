import Av6.FallibleState

/-!
# Two runs of one program

`Twin` says that a program runs to its end from two states, with the same result, and what
holds of the two states then.  A single run is the twin of itself, so that a rule about two
runs is also one about total correctness.  `TwinOr` and, for a single run, `YieldsOr` allow some
errors to stop the program.
-/

namespace Av6

namespace FallibleState

variable {σ ε α β : Type} {m : StateT σ (Except ε) α}
  {f : α → StateT σ (Except ε) β} {s s' t t' : σ} {a : α} {e : ε}

/-- From `s` and from `s'` the program ends with one result, and states that satisfy `Q`. -/
def Twin (m : StateT σ (Except ε) α) (s s' : σ) (Q : α → σ → σ → Prop) : Prop :=
  ∃ a t t', m s = .ok (a, t) ∧ m s' = .ok (a, t') ∧ Q a t t'

theorem Twin.mono {Q Q' : α → σ → σ → Prop} (twin : Twin m s s' Q)
    (weaker : ∀ a t t', Q a t t' → Q' a t t') : Twin m s s' Q' := by
  obtain ⟨a, t, t', runs, runs', holds⟩ := twin
  exact ⟨a, t, t', runs, runs', weaker a t t' holds⟩

theorem Twin.ret {Q : α → σ → σ → Prop} (holds : Q a s s') :
    Twin (pure a : StateT σ (Except ε) α) s s' Q :=
  ⟨a, s, s', rfl, rfl, holds⟩

theorem Twin.bind {P : α → σ → σ → Prop} {Q : β → σ → σ → Prop} (first : Twin m s s' P)
    (rest : ∀ a t t', P a t t' → Twin (f a) t t' Q) : Twin (m >>= f) s s' Q := by
  obtain ⟨a, t, t', runs, runs', holds⟩ := first
  obtain ⟨b, r, r', next, next', holds'⟩ := rest a t t' holds
  exact ⟨b, r, r', (bind_eq_of_ok runs).trans next, (bind_eq_of_ok runs').trans next', holds'⟩

theorem Twin.update {g : σ → σ} {Q : PUnit → σ → σ → Prop} (holds : Q ⟨⟩ (g s) (g s')) :
    Twin (modify g : StateT σ (Except ε) PUnit) s s' Q :=
  ⟨⟨⟩, g s, g s', rfl, rfl, holds⟩

theorem Twin.update_bind {g : σ → σ} {f : PUnit → StateT σ (Except ε) β}
    {Q : β → σ → σ → Prop} (rest : Twin (f ⟨⟩) (g s) (g s') Q) :
    Twin (modify g >>= f) s s' Q :=
  rest

theorem Twin.check_bind {condition : Prop} [Decidable condition]
    {f : Unit → StateT σ (Except ε) β} {Q : β → σ → σ → Prop} (met : condition)
    (rest : Twin (f ()) s s' Q) : Twin (check condition e >>= f) s s' Q := by
  unfold check
  rw [if_pos met]
  exact rest

/-- A loop over the numbers below `n`, with an invariant for what has been done. -/
theorem Twin.forM_range {b : Nat → StateT σ (Except ε) PUnit} {I : Nat → σ → σ → Prop} (n : Nat)
    (step : ∀ i < n, ∀ t t', I i t t' → Twin (b i) t t' fun _ u u' => I (i + 1) u u')
    (start : I 0 s s') : Twin ((List.range n).forM b) s s' fun _ t t' => I n t t' := by
  induction n with
  | zero => exact .ret start
  | succ n ih =>
      have split : (List.range (n + 1)).forM b = (do (List.range n).forM b; b n) := by
        rw [List.range_succ]
        show forM (List.range n ++ [n]) b = _
        rw [List.forM_append]
        simp
      rw [split]
      refine (ih fun i less => step i (by omega)).bind ?_
      intro _ t t' done
      exact step n (Nat.lt_succ_self n) t t' done

/-- What is known of the first run alone, under some condition, holds too. -/
theorem Twin.and_first {Q : α → σ → σ → Prop} {P : α → σ → Prop} {C : Prop} (twin : Twin m s s' Q)
    (yields : C → Yields m s P) : Twin m s s' fun a t t' => Q a t t' ∧ (C → P a t) := by
  obtain ⟨a, t, t', runs, runs', holds⟩ := twin
  exact ⟨a, t, t', runs, runs', holds, fun known => (yields known).post_of_eq runs⟩

/-- The first of the two runs. -/
theorem Twin.yields {Q : α → σ → σ → Prop} (twin : Twin m s s' Q) :
    Yields m s fun a t => ∃ t', m s' = .ok (a, t') ∧ Q a t t' := by
  obtain ⟨a, t, t', runs, runs', holds⟩ := twin
  exact ⟨a, t, runs, t', runs', holds⟩

/-- A run is its own twin. -/
theorem Twin.self {Q : α → σ → σ → Prop} (twin : Twin m s s Q) :
    Yields m s fun a t => Q a t t := by
  obtain ⟨a, t, t', runs, runs', holds⟩ := twin
  rw [runs] at runs'
  cases runs'
  exact ⟨a, t, runs, holds⟩

theorem Twin.bind_fails {P : α → σ → σ → Prop} (first : Twin m s s P)
    (rest : ∀ a t, P a t t → Fails (f a) t e) : Fails (m >>= f) s e :=
  first.self.bind_fails rest

/-- Two runs that stop with the same error, one of those allowed, or end with one result. -/
def TwinOr (E : ε → Prop) (m : StateT σ (Except ε) α) (s s' : σ) (Q : α → σ → σ → Prop) : Prop :=
  (∃ e, E e ∧ Fails m s e ∧ Fails m s' e) ∨ Twin m s s' Q

section

variable {E : ε → Prop}

theorem Twin.orFails {Q : α → σ → σ → Prop} (twin : Twin m s s' Q) : TwinOr E m s s' Q := .inr twin

theorem TwinOr.fails {Q : α → σ → σ → Prop} (allowed : E e) (fails : Fails m s e)
    (fails' : Fails m s' e) : TwinOr E m s s' Q :=
  .inl ⟨e, allowed, fails, fails'⟩

theorem TwinOr.ret {Q : α → σ → σ → Prop} (holds : Q a s s') :
    TwinOr E (pure a : StateT σ (Except ε) α) s s' Q :=
  (Twin.ret holds).orFails

theorem TwinOr.mono {Q Q' : α → σ → σ → Prop} (twin : TwinOr E m s s' Q)
    (weaker : ∀ a t t', Q a t t' → Q' a t t') : TwinOr E m s s' Q' := by
  rcases twin with fails | twin
  · exact .inl fails
  · exact .inr (twin.mono weaker)

theorem TwinOr.bind {P : α → σ → σ → Prop} {Q : β → σ → σ → Prop} (first : TwinOr E m s s' P)
    (rest : ∀ a t t', P a t t' → TwinOr E (f a) t t' Q) : TwinOr E (m >>= f) s s' Q := by
  rcases first with ⟨e, allowed, fails, fails'⟩ | ⟨a, t, t', runs, runs', holds⟩
  · exact .inl ⟨e, allowed, fails.bind, fails'.bind⟩
  · have same : (m >>= f) s = f a t := bind_eq_of_ok runs
    have same' : (m >>= f) s' = f a t' := bind_eq_of_ok runs'
    rcases rest a t t' holds with ⟨e, allowed, fails, fails'⟩ | ⟨b, r, r', next, next', holds'⟩
    · exact .inl ⟨e, allowed, same.trans fails, same'.trans fails'⟩
    · exact .inr ⟨b, r, r', same.trans next, same'.trans next', holds'⟩

/-- No error is allowed. -/
theorem TwinOr.twin {Q : α → σ → σ → Prop} (twin : TwinOr (fun _ => False) m s s' Q) :
    Twin m s s' Q := by
  rcases twin with ⟨e, allowed, -⟩ | twin
  · exact allowed.elim
  · exact twin

theorem Twin.bindOr {P : α → σ → σ → Prop} {Q : β → σ → σ → Prop} (first : Twin m s s' P)
    (rest : ∀ a t t', P a t t' → TwinOr E (f a) t t' Q) : TwinOr E (m >>= f) s s' Q :=
  first.orFails.bind rest

end

/-- From `s` the program stops with one of the errors that are allowed, or ends with `Q`. -/
def YieldsOr (E : ε → Prop) (m : StateT σ (Except ε) α) (s : σ) (Q : α → σ → Prop) : Prop :=
  (∃ e, E e ∧ Fails m s e) ∨ Yields m s Q

section

variable {E : ε → Prop}

theorem TwinOr.self {Q : α → σ → σ → Prop} (twin : TwinOr E m s s Q) :
    YieldsOr E m s fun a t => Q a t t := by
  rcases twin with ⟨e, allowed, fails, -⟩ | twin
  · exact .inl ⟨e, allowed, fails⟩
  · exact .inr twin.self

theorem Yields.orFails {Q : α → σ → Prop} (yields : Yields m s Q) : YieldsOr E m s Q := .inr yields

theorem YieldsOr.ret {Q : α → σ → Prop} (holds : Q a s) :
    YieldsOr E (pure a : StateT σ (Except ε) α) s Q :=
  (Yields.ret holds).orFails

theorem YieldsOr.fails {Q : α → σ → Prop} (allowed : E e) (fails : Fails m s e) :
    YieldsOr E m s Q :=
  .inl ⟨e, allowed, fails⟩

theorem YieldsOr.mono {E' : ε → Prop} {Q Q' : α → σ → Prop} (yields : YieldsOr E m s Q)
    (more : ∀ e, E e → E' e) (weaker : ∀ a t, Q a t → Q' a t) : YieldsOr E' m s Q' := by
  rcases yields with ⟨e, allowed, fails⟩ | yields
  · exact .inl ⟨e, more e allowed, fails⟩
  · exact .inr (yields.mono weaker)

theorem YieldsOr.bind {P : α → σ → Prop} {Q : β → σ → Prop} (first : YieldsOr E m s P)
    (rest : ∀ a t, P a t → YieldsOr E (f a) t Q) : YieldsOr E (m >>= f) s Q := by
  rcases first with ⟨e, allowed, fails⟩ | ⟨a, t, runs, holds⟩
  · exact .inl ⟨e, allowed, fails.bind⟩
  · have same : (m >>= f) s = f a t := bind_eq_of_ok runs
    rcases rest a t holds with ⟨e, allowed, fails⟩ | ⟨b, r, next, holds'⟩
    · exact .inl ⟨e, allowed, same.trans fails⟩
    · exact .inr ⟨b, r, same.trans next, holds'⟩

theorem YieldsOr.read_bind {f : σ → StateT σ (Except ε) β} {Q : β → σ → Prop}
    (rest : YieldsOr E (f s) s Q) : YieldsOr E (get >>= f) s Q :=
  rest

theorem YieldsOr.update_bind {g : σ → σ} {f : PUnit → StateT σ (Except ε) β} {Q : β → σ → Prop}
    (rest : YieldsOr E (f ⟨⟩) (g s) Q) : YieldsOr E (modify g >>= f) s Q :=
  rest

/-- If the program ends, it ends with `Q`. -/
theorem YieldsOr.post_of_eq {Q : α → σ → Prop} (yields : YieldsOr E m s Q)
    (runs : m s = .ok (a, t)) : Q a t := by
  rcases yields with ⟨e, -, fails⟩ | yields
  · rw [Fails, runs] at fails
    cases fails
  · exact yields.post_of_eq runs

/-- If the program stops, the error is allowed. -/
theorem YieldsOr.allowed {Q : α → σ → Prop} (yields : YieldsOr E m s Q) (fails : Fails m s e) :
    E e := by
  rcases yields with ⟨e', allowed, fails'⟩ | yields
  · rw [Fails, fails] at fails'
    cases fails'
    exact allowed
  · exact absurd fails yields.not_fails

theorem YieldsOr.onPart {τ ε' : Type} {E : ε' → Prop} {part : σ → τ} {put : σ → τ → σ}
    {wrap : ε' → ε} {m : StateT τ (Except ε') α} {Q : α → τ → Prop}
    (yields : YieldsOr E m (part s) Q) :
    YieldsOr (fun e => ∃ e', E e' ∧ e = wrap e') (onPart part put wrap m) s fun a t =>
      ∃ r, t = put s r ∧ Q a r := by
  rcases yields with ⟨e, allowed, fails⟩ | yields
  · refine .inl ⟨wrap e, ⟨e, allowed, rfl⟩, ?_⟩
    unfold Fails FallibleState.onPart
    rw [fails]
  · exact .inr yields.onPart

end

section

variable {τ ε' : Type}

/-- Two runs on parts of the states that are equal. -/
theorem Twin.of_part {part : σ → τ} {put : σ → τ → σ} {wrap : ε' → ε}
    {m : StateT τ (Except ε') α} {Q : α → τ → Prop} (yields : Yields m (part s) Q)
    (same : part s' = part s) :
    Twin (onPart part put wrap m) s s' fun a t t' => ∃ r, t = put s r ∧ t' = put s' r ∧ Q a r := by
  obtain ⟨a, r, runs, holds⟩ := yields
  refine ⟨a, put s r, put s' r, ?_, ?_, r, rfl, rfl, holds⟩
  · unfold onPart
    rw [runs]
  · unfold onPart
    rw [same, runs]

end

end FallibleState

end Av6
