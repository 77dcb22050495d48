import Av6.IrqMaskModel

/-!
# The discipline of masking

The code that a context has to run fits a depth and a level: the level is whether IRQs are on
outside its critical sections.  While the context is inside one, `noff` of its CPU is its
depth and `intena` its level; `sched` carries the level over to the CPU where the thread
resumes.
-/

namespace Av6

namespace IrqMask

variable {P X C : Type*}

/-- Code that runs from depth `d` with IRQs at level `level` outside critical sections. -/
def Fits : List (Op P X) → Nat → Bool → Prop
  | [], _, _ => True
  | .body base :: rest, d, level => base ≤ d ∧ Fits rest base level
  | .pushGet :: rest, d, level => Fits rest (d + 1) level
  | .pushCount old :: rest, d, level => (d = 0 → old = level) ∧ Fits rest (d + 1) level
  | .swap _ :: rest, d, level => 1 ≤ d ∧ Fits rest d level
  | .trySwap _ :: rest, d, level => 1 ≤ d ∧ Fits rest d level ∧ Fits rest (d - 1) level
  | .unlock _ :: rest, d, level => 1 ≤ d ∧ Fits rest d level
  | .pop :: rest, d, level => 1 ≤ d ∧ Fits rest (d - 1) level
  | .sched :: rest, d, level => d = 1 ∧ Fits rest 1 level
  | .schedRet intena :: rest, d, level => d = 1 ∧ intena = level ∧ Fits rest 1 level
  | .exited :: _, d, _ => d = 1
  | .disable :: rest, d, _ => d = 0 ∧ Fits rest 0 false
  | .eret irq :: rest, d, level =>
      (irq = true → d = 0) ∧ Fits rest d (if d = 0 then irq else level)
  | .resched :: rest, d, level => d = 0 ∧ Fits rest 0 level
  | .loop :: _, d, _ => d = 0
  | .enable :: rest, d, _ => d = 0 ∧ Fits rest 0 true
  | .dequeued :: _, d, level => d = 0 ∧ level = true
  | .check _ :: _, d, level => d = 1 ∧ level = true
  -- The scheduler comes back with the level of the thread that switched to it.
  | .swtch _ :: rest, d, level => d = 1 ∧ level = true ∧ ∀ after, Fits rest 1 after

/-- A CPU and the code that it runs. -/
structure Fit (cpu : Cpu) (ctx : Ctx P X) (level : Bool) : Prop where
  fits : Fits ctx.code ctx.depth level
  noff : cpu.noff = ctx.depth
  masked : 0 < ctx.depth → cpu.irq = false
  outside : ctx.depth = 0 → cpu.irq = level
  intena : 0 < ctx.depth → cpu.intena = level ∨ ctx.code.head? = some (.schedRet level)

section Fit

variable {cpu : Cpu} {ctx : Ctx P X} {level : Bool} {op : Op P X} {rest : List (Op P X)}

theorem Fit.at (fit : Fit cpu ctx level) (at_ : ctx.code = op :: rest) :
    Fits (op :: rest) ctx.depth level :=
  at_ ▸ fit.fits

/-- `intena` is the level, except right after a `swtch`. -/
theorem Fit.synced (fit : Fit cpu ctx level) (at_ : ctx.code = op :: rest)
    (other : op ≠ .schedRet level) : 0 < ctx.depth → cpu.intena = level := by
  intro inside
  rcases fit.intena inside with same | head
  · exact same
  · rw [at_, List.head?_cons, Option.some.injEq] at head
    exact absurd head other

/-- The code changes, and nothing else. -/
theorem Fit.goto (fit : Fit cpu ctx level) (synced : 0 < ctx.depth → cpu.intena = level)
    {code : List (Op P X)} (fits : Fits code ctx.depth level) :
    Fit cpu { ctx with code := code } level where
  fits := fits
  noff := fit.noff
  masked := fit.masked
  outside := fit.outside
  intena inside := Or.inl (synced inside)

/-- The mask bit changes with the level. -/
theorem Fit.mask (fit : Fit cpu ctx level) (synced : 0 < ctx.depth → cpu.intena = level)
    {code : List (Op P X)} {irq : Bool} (shallow : irq = true → ctx.depth = 0)
    (fits : Fits code ctx.depth (if ctx.depth = 0 then irq else level)) :
    Fit { cpu with irq := irq } { ctx with code := code }
      (if ctx.depth = 0 then irq else level) where
  fits := fits
  noff := fit.noff
  masked inside := by
    cases irq with
    | false => rfl
    | true => exact absurd (shallow rfl) (Nat.ne_of_gt inside)
  outside free := by
    dsimp only at free ⊢
    rw [if_pos free]
  intena inside := by
    dsimp only at inside ⊢
    rw [if_neg (Nat.ne_of_gt inside)]
    exact Or.inl (synced inside)

theorem Fit.enabled (fit : Fit cpu ctx level) (irq : cpu.irq = true) :
    ctx.depth = 0 ∧ level = true := by
  have outside : ctx.depth = 0 := by
    by_contra inside
    rw [fit.masked (Nat.pos_of_ne_zero inside)] at irq
    cases irq
  exact ⟨outside, (fit.outside outside).symm.trans irq⟩

theorem Fit.push {old : Bool} (fit : Fit cpu ctx level)
    (at_ : ctx.code = .pushCount old :: rest) (before : Bool) :
    Fit (cpu.push old) ⟨rest, ctx.depth + 1, before⟩ level := by
  have synced := fit.synced at_ (by simp)
  obtain ⟨same, fits⟩ := fit.at at_
  constructor
  · exact fits
  · exact congrArg (· + 1) fit.noff
  · intro _
    rfl
  · intro zero
    cases zero
  · intro _
    left
    simp only [Cpu.push, fit.noff]
    split
    next outside => exact same outside
    next inside => exact synced (Nat.pos_of_ne_zero inside)

theorem Fit.pop (fit : Fit cpu ctx level) (at_ : ctx.code = .pop :: rest) :
    Fit cpu.pop { ctx with code := rest, depth := ctx.depth - 1 } level := by
  have synced := fit.synced at_ (by simp)
  obtain ⟨some_, fits⟩ := fit.at at_
  have masked := fit.masked some_
  constructor
  · exact fits
  · exact congrArg (· - 1) fit.noff
  · intro inside
    simp only [Cpu.pop, fit.noff] at inside ⊢
    rw [if_neg (by omega)]
    exact masked
  · intro outside
    simp only [Cpu.pop, fit.noff, synced some_, masked] at outside ⊢
    cases level <;> simp [outside]
  · intro _
    exact Or.inl (synced some_)

end Fit

section Code

variable {d : Nat} {level : Bool} {rest : List (Op P X)}

/-- `acquire_spinlock` goes one level down. -/
theorem fits_acquire (lk : Lock P X) :
    Fits (acquire lk ++ rest) d level ↔ Fits rest (d + 1) level := by
  simp [acquire, pushOff, Fits]

theorem fits_release (lk : Lock P X) :
    Fits (release lk ++ rest) d level ↔ 1 ≤ d ∧ Fits rest (d - 1) level := by
  simp [release, popOff, Fits]

theorem fits_myproc : Fits (myproc ++ rest) d level ↔ Fits rest d level := by
  simp [myproc, pushOff, popOff, Fits]

theorem fits_body (base : Nat) :
    Fits ([.body base] ++ rest) d level ↔ base ≤ d ∧ Fits rest base level :=
  Iff.rfl

theorem fits_sched : Fits (schedCode ++ rest) d level ↔ d = 1 ∧ Fits rest 1 level := by
  simp only [schedCode, List.append_assoc, fits_myproc]
  rfl

/-- `yield` can be called with nothing held. -/
theorem fits_yield (p : P) (fits : Fits rest 0 level) : Fits (yieldCode p ++ rest) 0 level := by
  simp only [yieldCode, List.append_assoc, fits_myproc, fits_acquire, fits_sched, fits_release]
  exact ⟨trivial, Nat.le_refl 1, fits⟩

/-- `sleep` can be called with nothing held but its lock, and takes it again. -/
theorem fits_sleep (p : P) (lk : Lock P X) (fits : Fits rest 1 level) :
    Fits (sleepCode p lk ++ rest) 1 level := by
  simp only [sleepCode, List.append_assoc, fits_myproc, fits_acquire, fits_sched, fits_release]
  exact ⟨by omega, trivial, Nat.le_refl 1, fits⟩

theorem fits_exit (p : P) : Fits (exitCode p : List (Op P X)) 0 level := by
  simp only [exitCode, List.append_assoc, fits_body, fits_acquire, fits_release, fits_sched]
  exact ⟨Nat.le_refl 0, Nat.le_refl 1, by omega, Nat.le_refl 1, trivial, rfl⟩

theorem fits_forkret (p : P) : Fits (forkretCode p : List (Op P X)) 1 true := by
  simp only [forkretCode, List.append_assoc, fits_myproc, fits_release]
  exact ⟨Nat.le_refl 1, Nat.le_refl 0, trivial⟩

theorem fits_dispatch (p : P) : Fits (dispatchCode p : List (Op P X)) 1 true := by
  refine ⟨Nat.le_refl 1, rfl, rfl, ?_⟩
  intro after
  exact ⟨Nat.le_refl 1, (fits_release (.proc p)).mpr ⟨Nat.le_refl 1, rfl⟩⟩

end Code

/-- The invariant. -/
structure IrqOk (s : IrqState P X C) : Prop where
  alone : ∀ c d p, s.proc c = some p → s.proc d = some p → c = d
  running : ∀ c, ∃ level, Fit (s.cpu c) (s.here c) level ∧
    ∀ p, s.proc c = some p → 0 < (s.here c).depth → (s.here c).before = level
  parked : ∀ p, (∀ d, s.proc d ≠ some p) → (s.ctx (.thread p)).depth = 1 ∧
    Fits (s.ctx (.thread p)).code 1 (s.ctx (.thread p)).before ∧
    ((s.ctx (.thread p)).before = true ∨
      (s.ctx (.thread p)).code.head? = some (.schedRet (s.ctx (.thread p)).before))
  waiting : ∀ c p, s.proc c = some p → (s.ctx (.scheduler c)).depth = 1 ∧
    ∀ level, Fits (s.ctx (.scheduler c)).code 1 level

theorem irqInit_ok : IrqOk (irqInit : IrqState P X C) where
  alone c d p on := by cases on
  running c := by
    refine ⟨false, ⟨rfl, rfl, fun _ => rfl, fun _ => rfl, fun inside => ?_⟩, fun p on => by cases on⟩
    exact absurd inside (Nat.lt_irrefl 0)
  parked p _ := ⟨rfl, fits_forkret p, Or.inl rfl⟩
  waiting c p on := by cases on

section Steps

variable {s : IrqState P X C} {c : C}

theorem running_of_proc {p : P} (on : s.proc c = some p) : s.running c = .thread p := by
  simp [IrqState.running, on]

theorem running_of_none (on : s.proc c = none) : s.running c = .scheduler c := by
  simp [IrqState.running, on]

theorem thread_ne_running {p : P} (away : s.proc c ≠ some p) : .thread p ≠ s.running c := by
  intro same
  cases on : s.proc c with
  | none => simp [running_of_none on] at same
  | some q =>
      rw [running_of_proc on, Context.thread.injEq] at same
      exact away (same ▸ on)

theorem scheduler_ne_running {d : C} (away : d = c → s.proc c ≠ none) :
    .scheduler d ≠ s.running c := by
  intro same
  cases on : s.proc c with
  | none =>
      rw [running_of_none on, Context.scheduler.injEq] at same
      exact away same on
  | some q => simp [running_of_proc on] at same

theorem IrqOk.running_ne (ok : IrqOk s) {d : C} (other : d ≠ c) : s.running d ≠ s.running c := by
  cases on : s.proc d with
  | none =>
      rw [running_of_none on]
      exact scheduler_ne_running fun same => absurd same other
  | some p =>
      rw [running_of_proc on]
      exact thread_ne_running fun onC => other (ok.alone d c p on onC)

variable [DecidableEq P] [DecidableEq C]

theorem here_put (cpu : Cpu) (ctx : Ctx P X) : (s.put c cpu ctx).here c = ctx := by
  change Function.update s.ctx (s.running c) ctx (s.running c) = ctx
  rw [Function.update_self]

/-- The code of one CPU moves on. -/
theorem IrqOk.put (ok : IrqOk s) {cpu : Cpu} {ctx : Ctx P X} {b : Bool} (fit : Fit cpu ctx b)
    (before : ∀ p, s.proc c = some p → 0 < ctx.depth → ctx.before = b) :
    IrqOk (s.put c cpu ctx) where
  alone := ok.alone
  running d := by
    by_cases here : d = c
    · subst here
      rw [here_put]
      simp only [IrqState.put, Function.update_self]
      exact ⟨b, fit, before⟩
    · have same : (s.put c cpu ctx).here d = s.here d :=
        Function.update_of_ne (ok.running_ne here) _ _
      rw [same]
      simp only [IrqState.put, Function.update_of_ne here]
      exact ok.running d
  parked p away := by
    have other : Context.thread p ≠ s.running c := thread_ne_running (away c)
    simp only [IrqState.put, Function.update_of_ne other]
    exact ok.parked p away
  waiting d p on := by
    have other : Context.scheduler d ≠ s.running c := by
      apply scheduler_ne_running
      intro same none_
      subst same
      cases none_.symm.trans on
    simp only [IrqState.put, Function.update_of_ne other]
    exact ok.waiting d p on

/-- An operation that changes nothing but the code. -/
theorem IrqOk.goto (ok : IrqOk s) {op : Op P X} {rest code : List (Op P X)}
    (at_ : (s.here c).code = op :: rest) (other : ∀ level, op ≠ .schedRet level)
    (fits : ∀ level, Fits (op :: rest) (s.here c).depth level → ((s.here c).depth = 0 →
      (s.cpu c).irq = level) → Fits code (s.here c).depth level) :
    IrqOk (s.goto c code) := by
  obtain ⟨level, fit, before⟩ := ok.running c
  exact ok.put (fit.goto (fit.synced at_ (other level)) (fits level (fit.at at_) fit.outside)) before

/-- An operation that changes the mask bit. -/
theorem IrqOk.mask (ok : IrqOk s) {op : Op P X} {rest code : List (Op P X)} {irq : Bool}
    (at_ : (s.here c).code = op :: rest) (other : ∀ level, op ≠ .schedRet level)
    (fits : ∀ level, Fits (op :: rest) (s.here c).depth level →
      ((s.here c).depth = 0 → (s.cpu c).irq = level) →
      (irq = true → (s.here c).depth = 0) ∧
        Fits code (s.here c).depth (if (s.here c).depth = 0 then irq else level)) :
    IrqOk (s.mask c irq code) := by
  obtain ⟨level, fit, before⟩ := ok.running c
  obtain ⟨shallow, after⟩ := fits level (fit.at at_) fit.outside
  refine ok.put (fit.mask (fit.synced at_ (other level)) shallow after) ?_
  intro p on inside
  rw [if_neg (Nat.ne_of_gt inside)]
  exact before p on inside

/-- CPU `c` changes over from the context `x` to the context of `proc`. -/
theorem IrqOk.switch (ok : IrqOk s) {ctx : Context P C → Ctx P X} {proc : Option P}
    (alone : ∀ p, proc = some p → ∀ d, d ≠ c → s.proc d ≠ some p)
    (same : ∀ x, x ≠ s.running c → ctx x = s.ctx x)
    (next : ∃ level,
      Fit (s.cpu c) ({ s with ctx := ctx, proc := Function.update s.proc c proc }.here c) level ∧
        ∀ p, proc = some p → (ctx (.thread p)).before = level)
    (left : ∀ p, s.proc c = some p → (ctx (.thread p)).depth = 1 ∧
      Fits (ctx (.thread p)).code 1 (ctx (.thread p)).before ∧
        (ctx (.thread p)).code.head? = some (.schedRet (ctx (.thread p)).before))
    (waits : s.proc c = none → (ctx (.scheduler c)).depth = 1 ∧
      ∀ level, Fits (ctx (.scheduler c)).code 1 level)
    (changes : proc ≠ none → s.proc c = none) :
    IrqOk { s with ctx := ctx, proc := Function.update s.proc c proc } where
  alone d e p onD onE := by
    by_cases hereD : d = c <;> by_cases hereE : e = c
    · rw [hereD, hereE]
    · subst hereD
      simp only [Function.update_self, Function.update_of_ne hereE] at onD onE
      exact absurd onE (alone p onD e hereE)
    · subst hereE
      simp only [Function.update_self, Function.update_of_ne hereD] at onD onE
      exact absurd onD (alone p onE d hereD)
    · simp only [Function.update_of_ne hereD, Function.update_of_ne hereE] at onD onE
      exact ok.alone d e p onD onE
  running d := by
    by_cases here : d = c
    · subst here
      obtain ⟨level, fit, before⟩ := next
      refine ⟨level, fit, fun p on _ => ?_⟩
      simp only [Function.update_self] at on
      rw [← before p on]
      simp [IrqState.here, IrqState.running, on]
    · have unchanged : ({ s with ctx := ctx, proc := Function.update s.proc c proc } :
          IrqState P X C).here d = s.here d := by
        simp only [IrqState.here, IrqState.running, Function.update_of_ne here]
        exact same _ (ok.running_ne here)
      rw [unchanged]
      simp only [Function.update_of_ne here]
      exact ok.running d
  parked p away := by
    dsimp only at away ⊢
    by_cases on : s.proc c = some p
    · obtain ⟨deep, fits, head⟩ := left p on
      exact ⟨deep, fits, Or.inr head⟩
    · have before : ∀ d, s.proc d ≠ some p := by
        intro d
        by_cases here : d = c
        · exact here ▸ on
        · have elsewhere := away d
          rwa [Function.update_of_ne here] at elsewhere
      rw [same _ (thread_ne_running on)]
      exact ok.parked p before
  waiting d p on := by
    dsimp only at on ⊢
    by_cases here : d = c
    · subst here
      rw [Function.update_self] at on
      exact waits (changes (by simp [on]))
    · rw [Function.update_of_ne here] at on
      rw [same _ (scheduler_ne_running fun isHere => absurd isHere here)]
      exact ok.waiting d p on

/-- A thread gives up its CPU in `sched`. -/
theorem IrqOk.sched (ok : IrqOk s) {rest : List (Op P X)} {p : P} (on : s.proc c = some p)
    (at_ : (s.here c).code = .sched :: rest) :
    IrqOk { s.goto c (.schedRet (s.cpu c).intena :: rest) with
      proc := Function.update s.proc c none } := by
  obtain ⟨level, fit, before⟩ := ok.running c
  obtain ⟨one, fits⟩ := fit.at at_
  have running := running_of_proc on
  have inside : 0 < (s.here c).depth := by omega
  have synced := fit.synced at_ (by simp) inside
  obtain ⟨deep, waits⟩ := ok.waiting c p on
  have cpu : Function.update s.cpu c (s.cpu c) = s.cpu := Function.update_eq_self c s.cpu
  simp only [IrqState.goto, IrqState.put, cpu, running]
  apply ok.switch
  · intro q none_
    cases none_
  · intro x other
    rw [running] at other
    exact Function.update_of_ne other _ _
  · refine ⟨(s.cpu c).intena, ?_, fun q none_ => by cases none_⟩
    have here : ({ s with
        ctx := Function.update s.ctx (.thread p)
          { s.here c with code := .schedRet (s.cpu c).intena :: rest }
        proc := Function.update s.proc c none } : IrqState P X C).here c =
          s.ctx (.scheduler c) := by
      simp [IrqState.here, IrqState.running]
    rw [here]
    refine ⟨deep ▸ waits _, by rw [deep, fit.noff, one], fun _ => fit.masked inside,
      fun zero => by omega, fun _ => Or.inl rfl⟩
  · intro q same
    obtain rfl : p = q := Option.some.inj (on.symm.trans same)
    simp only [Function.update_self, List.head?_cons, before p on inside, synced]
    exact ⟨one, ⟨rfl, rfl, fits⟩, trivial⟩
  · intro none_
    cases on.symm.trans none_
  · simp

/-- The scheduler switches to a thread. -/
theorem IrqOk.swtch (ok : IrqOk s) {rest : List (Op P X)} {p : P} (on : s.proc c = none)
    (at_ : (s.here c).code = .swtch p :: rest) (away : ∀ d, s.proc d ≠ some p) :
    IrqOk { s.goto c rest with proc := Function.update s.proc c (some p) } := by
  obtain ⟨level, fit, before⟩ := ok.running c
  obtain ⟨one, rfl, fits⟩ := fit.at at_
  have running := running_of_none on
  have inside : 0 < (s.here c).depth := by omega
  have synced := fit.synced at_ (by simp) inside
  obtain ⟨deep, ready, level⟩ := ok.parked p away
  have cpu : Function.update s.cpu c (s.cpu c) = s.cpu := Function.update_eq_self c s.cpu
  simp only [IrqState.goto, IrqState.put, cpu, running]
  apply ok.switch
  · intro q same d _
    cases same
    exact away d
  · intro x other
    rw [running] at other
    exact Function.update_of_ne other _ _
  · refine ⟨(s.ctx (.thread p)).before, ?_, ?_⟩
    · have here : ({ s with
          ctx := Function.update s.ctx (.scheduler c) { s.here c with code := rest }
          proc := Function.update s.proc c (some p) } : IrqState P X C).here c =
            s.ctx (.thread p) := by
        simp [IrqState.here, IrqState.running]
      rw [here]
      refine ⟨deep ▸ ready, by rw [deep, fit.noff, one], fun _ => fit.masked inside,
        fun zero => by omega, fun _ => ?_⟩
      rcases level with new | resumes
      · exact Or.inl (synced.trans new.symm)
      · exact Or.inr resumes
    · intro q same
      cases same
      simp
  · intro q same
    cases on.symm.trans same
  · intro _
    simp only [Function.update_self]
    exact ⟨one, fits⟩
  · exact fun _ => on

variable [DecidableEq X]

omit [DecidableEq C] in
theorem IrqOk.setLock (ok : IrqOk s) (lk : Lock P X) (owner : Option C) :
    IrqOk (s.setLock lk owner) :=
  ⟨ok.alone, ok.running, ok.parked, ok.waiting⟩

theorem IrqOk.step {s' : IrqState P X C} (ok : IrqOk s) (step : IrqStep s c s') : IrqOk s' := by
  cases step with
  | irq enabled =>
      obtain ⟨level, fit, before⟩ := ok.running c
      obtain ⟨outside, rfl⟩ := fit.enabled enabled
      have synced : 0 < (s.here c).depth → (s.cpu c).intena = true := by
        intro inside
        omega
      refine ok.put (fit.mask synced (fun on => by cases on) ?_) ?_
      · have fits := fit.fits
        rw [outside] at fits ⊢
        exact ⟨Nat.le_refl 0, rfl, fun _ => rfl, fits⟩
      · intro p on inside
        dsimp only at inside
        omega
  | @exception base rest at_ =>
      obtain ⟨_, fit, _⟩ := ok.running c
      refine ok.mask at_ (by simp) fun level fits outside => ?_
      have shallow : (s.cpu c).irq = true → (s.here c).depth = 0 := fun on => (fit.enabled on).1
      refine ⟨fun on => (by cases on), Nat.le_refl _, shallow, ?_⟩
      split
      next zero =>
        rw [outside zero]
        exact fits
      next => exact fits
  | bodyPush at_ => exact ok.goto at_ (by simp) fun level fits _ => ⟨Nat.le_succ_of_le fits.1, fits.2⟩
  | bodyPop at_ paired =>
      exact ok.goto at_ (by simp) fun level fits _ => ⟨by omega, by omega, fits.2⟩
  | bodyAcquire at_ lk paired =>
      exact ok.goto at_ (by simp) fun level fits _ =>
        (fits_acquire lk).mpr ⟨Nat.le_succ_of_le fits.1, fits.2⟩
  | bodyTry at_ lk paired =>
      exact ok.goto at_ (by simp) fun level fits _ =>
        ⟨by omega, ⟨Nat.le_succ_of_le fits.1, fits.2⟩, fits⟩
  | bodyRelease at_ lk holding paired =>
      exact ok.goto at_ (by simp) fun level fits _ =>
        (fits_release lk).mpr ⟨by omega, by omega, fits.2⟩
  | bodyYield on at_ paired =>
      refine ok.goto at_ (by simp) fun level fits _ => ?_
      rw [paired] at fits ⊢
      exact fits_yield _ fits
  | bodySleep on at_ lk holding paired =>
      refine ok.goto at_ (by simp) fun level fits _ => ?_
      rw [paired] at fits ⊢
      exact fits_sleep _ lk fits
  | bodyExit on at_ paired =>
      refine ok.goto at_ (by simp) fun level fits _ => ?_
      rw [paired]
      exact fits_exit _
  | bodyUser on at_ paired =>
      refine ok.goto at_ (by simp) fun level fits _ => ?_
      rw [paired]
      exact ⟨rfl, fun _ => rfl, Nat.le_refl 0, trivial⟩
  | bodyEnd at_ inner paired =>
      refine ok.goto at_ (by simp) fun level fits _ => ?_
      rw [paired]
      exact fits.2
  | pushGet at_ =>
      exact ok.goto at_ (by simp) fun level fits outside => ⟨outside, fits⟩
  | @pushCount old rest at_ =>
      obtain ⟨level, fit, before⟩ := ok.running c
      refine ok.put (fit.push at_ _) ?_
      intro p on _
      dsimp only
      split
      next outside => exact (fit.at at_).1 outside
      next inside => exact before p on (Nat.pos_of_ne_zero inside)
  | swap at_ free => exact (ok.goto at_ (by simp) fun level fits _ => fits.2).setLock _ _
  | trySwap at_ free => exact (ok.goto at_ (by simp) fun level fits _ => fits.2.1).setLock _ _
  | tryFail at_ taken =>
      exact ok.goto at_ (by simp) fun level fits _ => ⟨fits.1, fits.2.2⟩
  | unlock at_ => exact (ok.goto at_ (by simp) fun level fits _ => fits.2).setLock _ _
  | pop at_ =>
      obtain ⟨level, fit, before⟩ := ok.running c
      refine ok.put (fit.pop at_) ?_
      intro p on inside
      exact before p on (by dsimp only at inside; omega)
  | sched on at_ => exact ok.sched on at_
  | @schedRet intena rest at_ =>
      obtain ⟨level, fit, before⟩ := ok.running c
      obtain ⟨one, rfl, fits⟩ := fit.at at_
      refine ok.put (b := intena) ⟨?_, fit.noff, fit.masked, fit.outside, fun _ => Or.inl rfl⟩ before
      rw [one]
      exact fits
  | disable at_ =>
      refine ok.mask at_ (by simp) fun level fits _ => ⟨fun on => (by cases on), ?_⟩
      rw [fits.1, if_pos rfl]
      exact fits.2
  | eret at_ => exact ok.mask at_ (by simp) fun level fits _ => fits
  | noResched at_ =>
      refine ok.goto at_ (by simp) fun level fits _ => ?_
      rw [fits.1]
      exact fits.2
  | resched on at_ =>
      refine ok.goto at_ (by simp) fun level fits _ => ?_
      rw [fits.1]
      exact fits_yield _ fits.2
  | loop at_ =>
      refine ok.goto at_ (by simp) fun level fits _ => ?_
      rw [show (s.here c).depth = 0 from fits]
      exact ⟨rfl, Nat.le_refl 0, rfl, rfl⟩
  | enable at_ =>
      refine ok.mask at_ (by simp) fun level fits _ => ⟨fun _ => fits.1, ?_⟩
      rw [fits.1, if_pos rfl]
      exact fits.2
  | idle at_ => exact ok.goto at_ (by simp) fun level fits _ => fits.1
  | dequeued at_ p =>
      refine ok.goto at_ (by simp) fun level fits _ => ?_
      rw [fits_acquire, fits.1]
      exact ⟨rfl, fits.2⟩
  | notRunnable at_ =>
      refine ok.goto at_ (by simp) fun level fits _ => ?_
      rw [fits_release, fits.1]
      exact ⟨Nat.le_refl 1, rfl⟩
  | runnable at_ =>
      refine ok.goto at_ (by simp) fun level fits _ => ?_
      obtain ⟨one, rfl⟩ := fits
      rw [one]
      exact fits_dispatch _
  | swtch on at_ parked alive => exact ok.swtch on at_ parked
  | @create p intena parked at_ =>
      constructor
      · exact ok.alone
      · intro d
        have unchanged : ({ s with
            ctx := Function.update s.ctx (.thread p) ⟨forkretCode p, 1, true⟩ } :
              IrqState P X C).here d = s.here d :=
          Function.update_of_ne (thread_ne_running (parked d)).symm _ _
        rw [unchanged]
        exact ok.running d
      · intro q away
        by_cases same : q = p
        · subst same
          simp only [Function.update_self]
          exact ⟨trivial, fits_forkret q, Or.inl trivial⟩
        · have differs : (Context.thread q : Context P C) ≠ .thread p := by simpa using same
          simp only [Function.update_of_ne differs]
          exact ok.parked q away
      · intro d q on
        have differs : (Context.scheduler d : Context P C) ≠ .thread p := by simp
        simp only [Function.update_of_ne differs]
        exact ok.waiting d q on

end Steps

variable [DecidableEq P] [DecidableEq X] [DecidableEq C]

theorem irqOk_of_reachable {s : IrqState P X C} (reached : IrqReachable s) : IrqOk s := by
  apply TransitionSystem.Reachable.invariant (I := IrqOk) ?_ ?_ reached
  · intro s start
    rw [start]
    exact irqInit_ok
  · intro s s' _ ok stepped
    obtain ⟨c, step⟩ := stepped
    exact ok.step step

/-- IRQs are on only outside of critical sections; `noff` counts the outstanding `push_off`s of
the code on the CPU, and is one at every switch; the assertions of `pop_off` hold; and the
`pop_off` with which a thread drops its last lock, on whatever CPU, leaves IRQs as its
outermost `push_off` found them. -/
theorem irq_mask_discipline {s : IrqState P X C} (reached : IrqReachable s) (c : C) :
    ((s.cpu c).irq = true → (s.cpu c).noff = 0) ∧
      (s.cpu c).noff = (s.here c).depth ∧
      (∀ rest, ((s.here c).code = .sched :: rest ∨ ∃ p, (s.here c).code = .swtch p :: rest) →
        (s.cpu c).noff = 1 ∧ (s.cpu c).irq = false) ∧
      (∀ rest, (s.here c).code = .pop :: rest → (s.cpu c).irq = false ∧ 1 ≤ (s.cpu c).noff) ∧
      ∀ rest p, s.proc c = some p → (s.here c).code = .pop :: rest → (s.here c).depth = 1 →
        (s.cpu c).pop.irq = (s.here c).before := by
  have ok := irqOk_of_reachable reached
  obtain ⟨level, fit, before⟩ := ok.running c
  refine ⟨?_, fit.noff, ?_, ?_, ?_⟩
  · intro on
    rw [fit.noff]
    exact (fit.enabled on).1
  · intro rest switches
    have one : (s.here c).depth = 1 := by
      rcases switches with at_ | ⟨p, at_⟩
      · exact (fit.at at_).1
      · exact (fit.at at_).1
    exact ⟨fit.noff.trans one, fit.masked (by omega)⟩
  · intro rest at_
    have some_ := (fit.at at_).1
    exact ⟨fit.masked some_, fit.noff ▸ some_⟩
  · intro rest p on at_ one
    have popped := fit.pop at_
    rw [popped.outside (by dsimp only; omega)]
    exact (before p on (by omega)).symm

/-- A machine with one CPU and one thread. -/
def single (cpu : Cpu) (proc : Option Unit) (thread scheduler : Ctx Unit Unit)
    (lock : Lock Unit Unit → Option Unit) : IrqState Unit Unit Unit where
  cpu _ := cpu
  proc _ := proc
  ctx x :=
    match x with
    | .thread _ => thread
    | .scheduler _ => scheduler
  lock := lock

theorem single_put_scheduler (cpu cpu' : Cpu) (thread scheduler ctx : Ctx Unit Unit)
    (lock : Lock Unit Unit → Option Unit) :
    (single cpu none thread scheduler lock).put () cpu' ctx =
      single cpu' none thread ctx lock := by
  simp only [IrqState.put, single, IrqState.running, IrqState.mk.injEq, true_and, and_true]
  constructor
  · funext c
    exact Function.update_self ..
  · funext x
    cases x <;> simp

theorem single_put_thread (cpu cpu' : Cpu) (thread scheduler ctx : Ctx Unit Unit)
    (lock : Lock Unit Unit → Option Unit) :
    (single cpu (some ()) thread scheduler lock).put () cpu' ctx =
      single cpu' (some ()) ctx scheduler lock := by
  simp only [IrqState.put, single, IrqState.running, IrqState.mk.injEq, true_and, and_true]
  constructor
  · funext c
    exact Function.update_self ..
  · funext x
    cases x <;> simp

section Single

variable {cpu cpu' : Cpu} {thread scheduler ctx : Ctx Unit Unit}
  {lock : Lock Unit Unit → Option Unit}

theorem reachable_scheduler (reached : IrqReachable (single cpu none thread scheduler lock))
    (step : IrqStep (single cpu none thread scheduler lock) ()
      ((single cpu none thread scheduler lock).put () cpu' ctx)) :
    IrqReachable (single cpu' none thread ctx lock) := by
  rw [← single_put_scheduler cpu cpu' thread scheduler ctx lock]
  exact reached.next ⟨(), step⟩

theorem reachable_thread (reached : IrqReachable (single cpu (some ()) thread scheduler lock))
    (step : IrqStep (single cpu (some ()) thread scheduler lock) ()
      ((single cpu (some ()) thread scheduler lock).put () cpu' ctx)) :
    IrqReachable (single cpu' (some ()) ctx scheduler lock) := by
  rw [← single_put_thread cpu cpu' thread scheduler ctx lock]
  exact reached.next ⟨(), step⟩

end Single

/-- A new thread is about to drop the lock that the scheduler handed over to it. -/
theorem exists_last_pop : ∃ s : IrqState Unit Unit Unit, IrqReachable s ∧ s.proc () = some () ∧
    (s.here ()).code = [.pop, .body 0] ∧ (s.here ()).depth = 1 ∧
      (s.here ()).before = true := by
  let new : Ctx Unit Unit := ⟨forkretCode (), 1, true⟩
  let free : Lock Unit Unit → Option Unit := fun _ => none
  have boot : IrqReachable (single ⟨0, false, false⟩ none new ⟨[.loop], 0, false⟩ free) := by
    apply TransitionSystem.Reachable.start
    simp only [single, irqInit, IrqState.mk.injEq, true_and]
    refine ⟨?_, rfl⟩
    funext x
    cases x <;> rfl
  have top : IrqReachable (single ⟨0, false, false⟩ none new ⟨loopCode, 0, false⟩ free) :=
    reachable_scheduler boot (.loop rfl)
  have enabled : IrqReachable (single ⟨0, false, true⟩ none new
      ⟨[.body 0, .dequeued], 0, false⟩ free) := reachable_scheduler top (.enable rfl)
  have dequeues : IrqReachable (single ⟨0, false, true⟩ none new ⟨[.dequeued], 0, false⟩ free) :=
    reachable_scheduler enabled (.bodyEnd rfl (by simp) rfl)
  have found : IrqReachable (single ⟨0, false, true⟩ none new
      ⟨[.pushGet, .swap (.proc ()), .check ()], 0, false⟩ free) :=
    reachable_scheduler dequeues (.dequeued rfl ())
  have gets : IrqReachable (single ⟨0, false, true⟩ none new
      ⟨[.pushCount true, .swap (.proc ()), .check ()], 0, false⟩ free) :=
    reachable_scheduler found (.pushGet rfl)
  have counts : IrqReachable (single ⟨1, true, false⟩ none new
      ⟨[.swap (.proc ()), .check ()], 1, true⟩ free) :=
    reachable_scheduler gets (.pushCount rfl)
  let held : Lock Unit Unit → Option Unit := Function.update free (.proc ()) (some ())
  have locked : IrqReachable (single ⟨1, true, false⟩ none new ⟨[.check ()], 1, true⟩ held) := by
    have swapped := counts.next ⟨(), .swap rfl rfl⟩
    rw [IrqState.goto, single_put_scheduler] at swapped
    exact swapped
  have runs : IrqReachable (single ⟨1, true, false⟩ none new ⟨dispatchCode (), 1, true⟩ held) :=
    reachable_scheduler locked (.runnable rfl)
  have switches : IrqReachable (single ⟨1, true, false⟩ none new
      ⟨.swtch () :: .body 1 :: (release (.proc ()) ++ [.loop]), 1, true⟩ held) :=
    reachable_scheduler runs (.bodyEnd rfl (by simp) rfl)
  have thread : IrqReachable (single ⟨1, true, false⟩ (some ()) new
      ⟨.body 1 :: (release (.proc ()) ++ [.loop]), 1, true⟩ held) := by
    have switched := switches.next ⟨(), .swtch rfl rfl (fun d on => by cases on)
      (fun intena same => by cases same)⟩
    rw [IrqState.goto, single_put_scheduler] at switched
    have on : Function.update (fun _ : Unit => none) () (some ()) = fun _ => some () :=
      funext fun _ => rfl
    simp only [single, on] at switched
    exact switched
  have gets : IrqReachable (single ⟨1, true, false⟩ (some ())
      ⟨.pushCount false :: .pop :: (release (.proc ()) ++ [.body 0]), 1, true⟩
      ⟨.body 1 :: (release (.proc ()) ++ [.loop]), 1, true⟩ held) :=
    reachable_thread thread (.pushGet rfl)
  have counts : IrqReachable (single ⟨2, true, false⟩ (some ())
      ⟨.pop :: (release (.proc ()) ++ [.body 0]), 2, true⟩
      ⟨.body 1 :: (release (.proc ()) ++ [.loop]), 1, true⟩ held) :=
    reachable_thread gets (.pushCount rfl)
  have pops : IrqReachable (single ⟨1, true, false⟩ (some ())
      ⟨release (.proc ()) ++ [.body 0], 1, true⟩
      ⟨.body 1 :: (release (.proc ()) ++ [.loop]), 1, true⟩ held) :=
    reachable_thread counts (.pop rfl)
  have unlocked := pops.next ⟨(), .unlock rfl⟩
  rw [IrqState.goto, single_put_thread] at unlocked
  exact ⟨_, unlocked, rfl, rfl, rfl, rfl⟩

theorem irq_mask_discipline_forkret : ∃ s : IrqState Unit Unit Unit, IrqReachable s ∧
    (s.cpu ()).noff = 1 ∧ (s.cpu ()).pop.irq = true := by
  obtain ⟨s, reached, on, at_, one, before⟩ := exists_last_pop
  obtain ⟨-, noff, -, -, restores⟩ := irq_mask_discipline reached ()
  exact ⟨s, reached, noff.trans one, (restores _ () on at_ one).trans before⟩

end IrqMask

end Av6
