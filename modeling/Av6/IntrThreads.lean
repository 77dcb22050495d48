import Av6.IntrModel

/-!
# Where the CPUs and the interrupt threads stand

A CPU in `trap_irq` keeps the code that it has interrupted; the thread of a source is outside
`proc.c`, but for its `sleep`, and is interrupted only where it has no lock.
-/

namespace Av6

namespace Intr

open HandoffCycle Proc

variable {ncpus nslots : Nat} {P I : Type*} {addr : I → Nat}

/-- The positions of `wakeup(a)` called from `k`. -/
inductive InWakeup (a : Nat) (k : Code P) : Code P → Prop
  | enter : InWakeup a k (.wakeEnter (.other a) k)
  | scan {todo} : InWakeup a k (.wakeScan (.other a) todo k)
  | locked {q todo} : InWakeup a k (.wakeLocked (.other a) q todo k)
  | done {q todo} : InWakeup a k (.wakeDone (.other a) q todo k)

/-- The code that a CPU has interrupted. -/
def IrqPc.Fits (addr : I → Nat) : IrqPc P I → Code P → Prop
  | .none, _ => True
  | .waking i k, k' => k.interruptible = true ∧ (k' = k ∨ InWakeup (addr i) k k')
  | _, k => k.interruptible = true

/-- The positions of `proc.c` that go with a position in `ithread_loop`. -/
def LoopPc.Fits (a : Nat) : LoopPc → Code P → Prop
  | .enter, k => k.atBody = true ∨ k = .forkret
  | .test, k | .claimed, k => k = .body
  | .sleepLocked, k => k = .sleepReleased (.other a) .body
  | .asleep, k => k.atBody = true ∨ k = .sleepReleased (.other a) .body ∨ k = .slept .body
  | .released, k | .handling, k | .handled, k => k.atBody = true

/-- What holds of the thread `p` of a source at the address `a`. -/
structure ThreadOk (s : SchedState ncpus P) (a : Nat) (pc : LoopPc) (p : P) : Prop where
  fits : pc.Fits a (s.code (.thread p))
  alive : Alive (s.proc p).state
  chan : (s.proc p).state = .sleeping → (s.proc p).chan = some (.other a)

structure PlaceOk (addr : I → Nat) (s : IntrState ncpus P I) : Prop where
  sched : SchedOk s.sched
  isrc : ∀ p q i, s.isrc p = some i → s.isrc q = some i → p = q
  thread : ∀ p i, s.isrc p = some i → ThreadOk s.sched (addr i) (s.loop p) p
  irq : ∀ c, s.irq c ≠ .none → ∃ x, s.sched.context c = some x ∧
    (s.irq c).Fits addr (s.sched.code x) ∧
      ∀ p i, x = .thread p → s.isrc p = some i → (s.loop p).locked = false

/-- `wakeup` on its way. -/
theorem InWakeup.wakes {s t : SchedState ncpus P} {x : Context ncpus P} {a : Nat} {k k' k'' : Code P}
    (inside : InWakeup a k k') (next : Wakes s t x k' k'') (masked : ¬ Interrupts k' k'') :
    k'' = k ∨ InWakeup a k k'' := by
  cases inside with
  | enter =>
      cases next with
      | scan => exact Or.inr .scan
      | interrupt interrupts => exact (masked interrupts).elim
  | scan =>
      cases next with
      | lock => exact Or.inr .locked
      | self => exact Or.inr .scan
      | done => exact Or.inl rfl
      | interrupt interrupts => exact (masked interrupts).elim
  | locked =>
      cases next with
      | rouse => exact Or.inr .done
      | pass => exact Or.inr .done
      | interrupt interrupts => exact (masked interrupts).elim
  | done =>
      cases next with
      | unlock => exact Or.inr .scan
      | interrupt interrupts => exact (masked interrupts).elim

theorem InWakeup.inWakeup {a : Nat} {k k' : Code P} (inside : InWakeup a k k') :
    k'.inWakeup = true := by
  cases inside <;> rfl

theorem LoopPc.Fits.elim {a : Nat} {pc : LoopPc} {k : Code P} (fits : pc.Fits a k) :
    k.atBody = true ∨ (k = .forkret ∧ pc = .enter) ∨
      (k = .sleepReleased (.other a) .body ∧ (pc = .sleepLocked ∨ pc = .asleep)) ∨
      (k = .slept .body ∧ pc = .asleep) := by
  cases pc with
  | enter => exact fits.imp_right fun new => Or.inl ⟨new, rfl⟩
  | test => exact Or.inl (by rw [show k = .body from fits]; rfl)
  | claimed => exact Or.inl (by rw [show k = .body from fits]; rfl)
  | sleepLocked => exact Or.inr (Or.inr (Or.inl ⟨fits, Or.inl rfl⟩))
  | asleep =>
      rcases fits with body | dozing | slept
      · exact Or.inl body
      · exact Or.inr (Or.inr (Or.inl ⟨dozing, Or.inr rfl⟩))
      · exact Or.inr (Or.inr (Or.inr ⟨slept, rfl⟩))
  | _ => exact Or.inl fits

theorem LoopPc.fits_of_atBody {a : Nat} {pc : LoopPc} {k : Code P} (unlocked : pc.locked = false)
    (body : k.atBody = true) : pc.Fits a k := by
  cases pc with
  | enter => exact Or.inl body
  | asleep => exact Or.inl body
  | released => exact body
  | handling => exact body
  | handled => exact body
  | _ => cases unlocked

theorem LoopPc.Lets.elim {pc : LoopPc} {k k' : Code P} (lets : pc.Lets k k') :
    pc.locked = false ∧ (k = .body → Interrupts k k') := by
  cases pc with
  | enter | asleep | released | handled => exact ⟨rfl, fun body => (lets body).elim⟩
  | handling =>
      refine ⟨rfl, fun body => ?_⟩
      obtain ⟨a, rfl⟩ := lets body
      exact .wakeup a
  | test | sleepLocked | claimed => exact False.elim lets

/-- The thread of a source across a step of `proc.c`. -/
theorem threadOk_effect {s t : SchedState ncpus P} {c : Fin ncpus} {p : P} {a : Nat} {pc : LoopPc}
    (ok : SchedOk s) (effect : Effect s t c p) (here : ThreadOk s a pc p)
    (lets : s.cpu c = .running p → pc.locked = false ∧
      (s.code (.thread p) = .body → Interrupts (s.code (.thread p)) (t.code (.thread p)))) :
    ThreadOk t a pc p := by
  have alive := here.alive
  have fits := here.fits.elim
  cases effect with
  | none code data =>
      refine ⟨by rw [code]; exact here.fits, by rw [data.state]; exact alive, ?_⟩
      rw [data.state, data.chan]
      exact here.chan
  | follows on code data =>
      obtain ⟨unlocked, lets⟩ := lets on
      refine ⟨LoopPc.fits_of_atBody unlocked ?_, by rw [data.state]; exact alive, ?_⟩
      · rcases fits with body | ⟨new, -⟩ | ⟨dozing, -⟩ | ⟨slept, -⟩
        · exact code.atBody lets body
        · rw [new] at code
          rw [code.of_forkret]
          rfl
        · exact ((code.not_asleep _).1 dozing).elim
        · exact ((code.not_asleep (.other a)).2 slept).elim
      · rw [data.state, data.chan]
        exact here.chan
  | switches on off code =>
      obtain ⟨unlocked, -⟩ := lets on
      rcases code.elim with ⟨k, before, after, data⟩ | ⟨chan, k, before, after, data⟩ |
        ⟨before, -, -⟩ <;> rw [before] at fits
      · refine ⟨LoopPc.fits_of_atBody unlocked ?_, Or.inr (Or.inl (by rw [data])), ?_⟩
        · rcases fits with body | ⟨new, -⟩ | ⟨dozing, -⟩ | ⟨slept, -⟩
          · rw [after]
            exact body
          · cases new
          · cases dozing
          · cases slept
        · rw [data]
          rintro ⟨⟩
      · rcases fits with body | ⟨new, -⟩ | ⟨dozing, place⟩ | ⟨slept, -⟩
        · cases body
        · cases new
        · cases dozing
          have place : pc = .asleep := by
            rcases place with rfl | rfl
            · cases unlocked
            · rfl
          subst place
          exact ⟨Or.inr (Or.inr after), Or.inr (Or.inr (by rw [data])), fun _ => by rw [data]⟩
        · cases slept
      · rcases fits with body | ⟨new, -⟩ | ⟨dozing, -⟩ | ⟨slept, -⟩
        · cases body
        · cases new
        · cases dozing
        · cases slept
  | awakes on code data =>
      obtain ⟨unlocked, -⟩ := lets on
      have running := data.state.trans (ok.running_state on (by rw [code]; rfl))
      rw [code] at fits
      rcases fits with body | ⟨new, -⟩ | ⟨dozing, -⟩ | ⟨slept, -⟩
      · cases body
      · cases new
      · cases dozing
      · injection slept with back
        refine ⟨LoopPc.fits_of_atBody unlocked (by rw [back]; rfl), Or.inl running, ?_⟩
        rw [running]
        rintro ⟨⟩
  | zombie on code code' data =>
      rw [code] at fits
      rcases fits with body | ⟨new, -⟩ | ⟨dozing, -⟩ | ⟨slept, -⟩
      · cases body
      · cases new
      · cases dozing
      · cases slept
  | dispatched on on' code ready data =>
      refine ⟨by rw [code]; exact here.fits, Or.inl data.state, ?_⟩
      rw [data.state]
      rintro ⟨⟩
  | roused on at_ code asleep onChan data =>
      refine ⟨by rw [code]; exact here.fits, Or.inr (Or.inl data.state), ?_⟩
      rw [data.state]
      rintro ⟨⟩
  | @marked r on at_ code data =>
      have same : t.code (.thread p) = s.code (.thread p) := by
        rcases code with code | ⟨rfl, -⟩
        · exact code
        · rw [at_] at fits
          rcases fits with body | ⟨new, -⟩ | ⟨dozing, -⟩ | ⟨slept, -⟩
          · cases body
          · cases new
          · cases dozing
          · cases slept
      have state := data.state
      dsimp only at state
      refine ⟨by rw [same]; exact here.fits, ?_, ?_⟩
      · rw [state]
        split
        · exact Or.inr (Or.inl rfl)
        · exact alive
      · rw [state, data.chan]
        split
        · rintro ⟨⟩
        · exact here.chan
  | allocated free =>
      rw [alive.allocated ok] at free
      cases free
  | activated code private_ data =>
      rw [private_] at alive
      rcases alive with same | same | same <;> cases same

section Steps

variable {s t : IntrState ncpus P I} {c : Fin ncpus} {p : P} {i : I}

/-- The position of one CPU in `trap_irq` changes, and no process moves. -/
theorem PlaceOk.setIrq (ok : PlaceOk addr s) (sched : t.sched = s.sched) (isrc : t.isrc = s.isrc)
    (loop : t.loop = s.loop) (irq : ∀ d, d ≠ c → t.irq d = s.irq d)
    (here : t.irq c ≠ .none → ∃ x, s.sched.context c = some x ∧
      (t.irq c).Fits addr (s.sched.code x) ∧
        ∀ p i, x = .thread p → s.isrc p = some i → (s.loop p).locked = false) :
    PlaceOk addr t := by
  refine ⟨by rw [sched]; exact ok.sched, by rw [isrc]; exact ok.isrc, ?_, ?_⟩
  · rw [sched, isrc, loop]
    exact ok.thread
  · intro d
    rw [sched, isrc, loop]
    by_cases same : d = c
    · subst same
      exact here
    · rw [irq d same]
      exact ok.irq d

/-- What an IRQ has interrupted stays as it is until `wakeup` and the preemption. -/
theorem PlaceOk.interrupted (ok : PlaceOk addr s) (busy : s.irq c ≠ .none)
    (masked : ∀ i k, s.irq c ≠ .waking i k) : ∃ x, s.sched.context c = some x ∧
      (s.sched.code x).interruptible = true ∧
        ∀ p i, x = .thread p → s.isrc p = some i → (s.loop p).locked = false := by
  obtain ⟨x, on, fits, unlocked⟩ := ok.irq c busy
  refine ⟨x, on, ?_, unlocked⟩
  cases at_ : s.irq c with
  | none => exact (busy at_).elim
  | waking i k => exact (masked i k at_).elim
  | _ =>
      rw [at_] at fits
      exact fits

/-- The context of a CPU that runs the thread of `p`. -/
theorem context_of_running {s : SchedState ncpus P} (on : s.cpu c = .running p) :
    s.context c = some (.thread p) := by
  simp [SchedState.context, on]

/-- The thread of a source is at a position where it can be outside `proc.c`. -/
theorem PlaceOk.at_body (ok : PlaceOk addr s) {pc : LoopPc} (at_ : s.At c p i pc) (pc' : LoopPc)
    (fits : ∀ a, pc'.Fits a (.body : Code P)) (j : I) : ThreadOk s.sched (addr j) pc' p := by
  have running := ok.sched.running_state at_.on (by rw [at_.body]; rfl)
  refine ⟨by rw [at_.body]; exact fits _, Or.inl running, ?_⟩
  rw [running]
  rintro ⟨⟩

variable [DecidableEq P]

/-- Only the thread of a source moves, on a CPU that is not in `trap_irq`. -/
theorem PlaceOk.goto (ok : PlaceOk addr s) (on : s.sched.cpu c = .running p)
    (clear : s.irq c = .none) {pc : LoopPc} (sched : t.sched = s.sched)
    (isrc : t.isrc = s.isrc) (loop : t.loop = Function.update s.loop p pc) (irq : t.irq = s.irq)
    (here : ∀ i, s.isrc p = some i → ThreadOk s.sched (addr i) pc p) : PlaceOk addr t := by
  refine ⟨by rw [sched]; exact ok.sched, by rw [isrc]; exact ok.isrc, ?_, ?_⟩
  · intro q j own
    rw [isrc] at own
    rw [sched, loop]
    by_cases same : q = p
    · subst same
      rw [Function.update_self]
      exact here j own
    · rw [Function.update_of_ne same]
      exact ok.thread q j own
  · intro d busy
    rw [irq] at busy ⊢
    rw [sched, isrc, loop]
    obtain ⟨x, there, fits, unlocked⟩ := ok.irq d busy
    refine ⟨x, there, fits, ?_⟩
    rintro q j rfl own
    have other : q ≠ p := by
      rintro rfl
      have same := ok.sched.context_inj there (context_of_running on)
      rw [same] at busy
      exact busy clear
    rw [Function.update_of_ne other]
    exact unlocked q j rfl own

/-- A step of `proc.c` on the CPU `c`. -/
theorem PlaceOk.proc (ok : PlaceOk addr s) (stepped : SchedStep nslots s.sched c t.sched)
    (sched : SchedOk t.sched) (isrc : t.isrc = s.isrc)
    (loop : ∀ q, s.sched.cpu c ≠ .running q → t.loop q = s.loop q)
    (irq : ∀ d, d ≠ c → t.irq d = s.irq d)
    (own : ∀ p i, s.sched.cpu c = .running p → s.isrc p = some i →
      ThreadOk t.sched (addr i) (t.loop p) p)
    (here : t.irq c ≠ .none → ∃ x, t.sched.context c = some x ∧
      (t.irq c).Fits addr (t.sched.code x) ∧
        ∀ p i, x = .thread p → t.isrc p = some i → (t.loop p).locked = false) :
    PlaceOk addr t := by
  refine ⟨sched, by rw [isrc]; exact ok.isrc, ?_, ?_⟩
  · intro q j mine
    rw [isrc] at mine
    by_cases running : s.sched.cpu c = .running q
    · exact own q j running mine
    · rw [loop q running]
      exact threadOk_effect ok.sched (stepped.effect ok.sched q) (ok.thread q j mine)
        fun on => (running on).elim
  · intro d busy
    by_cases same : d = c
    · subst same
      exact here busy
    · rw [irq d same] at busy ⊢
      obtain ⟨x, there, fits, unlocked⟩ := ok.irq d busy
      obtain ⟨cpu, code⟩ := stepped.elsewhere ok.sched same
      refine ⟨x, ?_, ?_, ?_⟩
      · rw [← there]
        unfold SchedState.context
        rw [cpu]
      · rw [code x there]
        exact fits
      · rintro q j rfl mine
        rw [isrc] at mine
        rw [loop q ?_]
        · exact unlocked q j rfl mine
        · intro running
          exact same (ok.sched.context_inj there (context_of_running running))

/-- `wakeup(src)` is called from the code that has been interrupted. -/
theorem PlaceOk.wakeup_step (ok : PlaceOk addr s) {x : Context ncpus P} (nslots a : Nat)
    (on : s.sched.context c = some x) (at_ : s.irq c = .marked i) :
    SchedStep nslots s.sched c (s.sched.goto x (.wakeEnter (.other a) (s.sched.code x))) ∧
      (s.sched.code x).interruptible = true ∧
        ∀ p i, x = .thread p → s.isrc p = some i → (s.loop p).locked = false := by
  obtain ⟨y, there, open_, unlocked⟩ := ok.interrupted (c := c) (by rw [at_]; rintro ⟨⟩)
    (by rw [at_]; rintro i k ⟨⟩)
  rw [on] at there
  cases there
  exact ⟨.jump on rfl (.callWakeup _ open_), open_, unlocked⟩

theorem PlaceOk.yield_step (ok : PlaceOk addr s) (nslots : Nat) (at_ : s.irq c = .resched)
    (on : s.sched.cpu c = .running p) (free : s.sched.locks (.proc p) = none) :
    SchedStep nslots s.sched c ((s.sched.setLock (.proc p) (some c)).goto (.thread p)
      (.yieldLocked (s.sched.code (.thread p)))) ∧
        ∀ i, s.isrc p = some i → (s.loop p).locked = false := by
  obtain ⟨x, there, open_, unlocked⟩ := ok.interrupted (c := c) (by rw [at_]; rintro ⟨⟩)
    (by rw [at_]; rintro i k ⟨⟩)
  have context := context_of_running on
  rw [context] at there
  cases there
  refine ⟨.acquire context rfl ?_ free, fun i => unlocked p i rfl⟩
  rw [ok.sched.control.self_of_context context]
  exact .yield rfl open_

theorem PlaceOk.sleep_step (ok : PlaceOk addr s) {pc : LoopPc} (nslots a : Nat) (at_ : s.At c p i pc)
    (free : s.sched.locks (.proc p) = none) :
    SchedStep nslots s.sched c ((s.sched.setLock (.proc p) (some c)).goto (.thread p)
      (.sleepReleased (.other a) .body)) := by
  have context := context_of_running at_.on
  refine .acquire context at_.body ?_ free
  rw [ok.sched.control.self_of_context context]
  exact .sleep _ rfl

/-- The thread that runs on the CPU is interrupted, or goes on in `wakeup`. -/
theorem PlaceOk.own (ok : PlaceOk addr s) {t : SchedState ncpus P}
    (stepped : SchedStep nslots s.sched c t) (isrc : s.isrc p = some i)
    (unlocked : (s.loop p).locked = false)
    (lets : s.sched.code (.thread p) = .body →
      Interrupts (s.sched.code (.thread p)) (t.code (.thread p))) :
    ThreadOk t (addr i) (s.loop p) p :=
  threadOk_effect ok.sched (stepped.effect ok.sched p) (ok.thread p i isrc)
    fun _ => ⟨unlocked, lets⟩

variable [DecidableEq I]

/-- The processes of a run of the whole system run as `proc.c` says. -/
theorem IntrStep.sched (ok : PlaceOk addr s) (step : IntrStep nslots addr s c t) :
    t.sched = s.sched ∨ SchedStep nslots s.sched c t.sched := by
  cases step with
  | proc stepped => exact Or.inr stepped
  | waking on at_ inside stepped => exact Or.inr stepped
  | wakeup on at_ => exact Or.inr (ok.wakeup_step _ _ on at_).1
  | yield at_ on free => exact Or.inr (ok.yield_step _ at_ on free).1
  | sleep at_ nothing free => exact Or.inr (ok.sleep_step _ _ at_ free)
  | _ => exact Or.inl rfl

theorem PlaceOk.step (ok : PlaceOk addr s) (step : IntrStep nslots addr s c t)
    (sched : SchedOk t.sched) : PlaceOk addr t := by
  -- The positions of `trap_irq` between which nothing else moves.
  have irq : ∀ {pc : IrqPc P I} {t : IntrState ncpus P I}, s.irq c ≠ .none →
      (∀ i k, s.irq c ≠ .waking i k) → t.sched = s.sched → t.isrc = s.isrc → t.loop = s.loop →
      t.irq = Function.update s.irq c pc →
      (∀ k : Code P, k.interruptible = true → pc.Fits addr k) → PlaceOk addr t := by
    intro pc t busy masked sched isrc loop irq fits
    obtain ⟨x, on, open_, unlocked⟩ := ok.interrupted busy masked
    refine ok.setIrq (c := c) sched isrc loop (fun d other => ?_) fun _ => ⟨x, on, ?_, unlocked⟩
    · rw [irq, Function.update_of_ne other]
    · rw [irq, Function.update_self]
      exact fits _ open_
  cases step with
  | @proc u stepped clear lets =>
      refine ok.proc stepped sched rfl (fun _ _ => rfl) (fun _ _ => rfl) ?_
        fun busy => (busy clear).elim
      intro p i on mine
      obtain ⟨unlocked, lets⟩ := (lets p i on mine).elim
      exact ok.own (s := s) stepped mine unlocked lets
  | @ack x i on open_ clear unlocked inactive =>
      refine ok.setIrq (c := c) rfl rfl rfl ?_ fun _ => ⟨x, on, ?_, ?_⟩
      · intro d other
        simp [IntrState.setIrq, IntrState.setSrc, other]
      · simp only [IntrState.setIrq, Function.update_self]
        exact open_
      · rintro p j rfl mine
        exact unlocked p rfl (by rw [mine]; rintro ⟨⟩)
  | unexpected at_ | filter res at_ | handled at_ | stray at_ | lock at_ | mark at_
  | deactivate at_ | handedOver at_ =>
      exact irq (by rw [at_]; rintro ⟨⟩) (by rw [at_]; rintro i k ⟨⟩) rfl rfl rfl rfl
        fun k open_ => open_
  | irqReturn at_ =>
      exact irq (by rw [at_]; rintro ⟨⟩) (by rw [at_]; rintro i k ⟨⟩) rfl rfl rfl rfl
        fun k open_ => trivial
  | @wakeup x i on at_ =>
      obtain ⟨stepped, open_, unlocked⟩ := ok.wakeup_step nslots (addr i) on at_
      refine ok.proc stepped sched rfl (fun _ _ => rfl) ?_ ?_ fun _ => ⟨x, on, ?_, unlocked⟩
      · intro d other
        simp [IntrState.setIrq, other]
      · intro p j running mine
        have same : x = .thread p := by
          rw [context_of_running running] at on
          exact (Option.some.inj on).symm
        subst same
        refine ok.own stepped mine (unlocked p j rfl mine) fun body => ?_
        simp only [IntrState.setIrq, SchedState.goto, Function.update_self]
        exact .wakeup _
      · simp only [IntrState.setIrq, Function.update_self, SchedState.goto]
        exact ⟨open_, Or.inr .enter⟩
  | @waking x i k u on at_ inside stepped masked =>
      obtain ⟨y, there, fits, unlocked⟩ := ok.irq c (by rw [at_]; rintro ⟨⟩)
      rw [on] at there
      cases there
      rw [at_] at fits
      obtain ⟨open_, within⟩ := fits
      have within := within.resolve_left inside
      obtain ⟨cpu, next⟩ := stepped.wakes ok.sched on within.inWakeup
      refine ok.proc stepped sched rfl (fun _ _ => rfl) (fun _ _ => rfl) ?_
        fun _ => ⟨x, ?_, ?_, unlocked⟩
      · intro p j running mine
        have same : x = .thread p := by
          rw [context_of_running running] at on
          exact (Option.some.inj on).symm
        subst same
        refine ok.own (s := s) stepped mine (unlocked p j rfl mine) fun body => ?_
        rw [body] at within
        cases within
      · rw [← on]
        unfold SchedState.context
        rw [cpu]
      · simp only [at_]
        exact ⟨open_, within.wakes next masked⟩
  | @woken x i k on at_ back =>
      obtain ⟨y, there, fits, unlocked⟩ := ok.irq c (by rw [at_]; rintro ⟨⟩)
      rw [on] at there
      cases there
      rw [at_] at fits
      refine ok.setIrq (c := c) rfl rfl rfl ?_ fun _ => ⟨x, on, ?_, unlocked⟩
      · intro d other
        simp [IntrState.setIrq, other]
      · simp only [IntrState.setIrq, Function.update_self]
        rw [back]
        exact fits.1
  | @yield p at_ on free =>
      obtain ⟨stepped, unlocked⟩ := ok.yield_step nslots at_ on free
      refine ok.proc stepped sched rfl (fun _ _ => rfl) ?_ ?_ fun busy => ?_
      · intro d other
        simp [IntrState.setIrq, other]
      · intro q j running mine
        rw [on] at running
        cases running
        refine ok.own stepped mine (unlocked j mine) fun body => ?_
        simp only [IntrState.setIrq, SchedState.goto, Function.update_self]
        exact .preempt
      · simp [IntrState.setIrq] at busy
  | @sleep p i at_ nothing free =>
      have stepped := ok.sleep_step nslots (addr i) at_ free
      have running := ok.sched.running_state at_.on (by rw [at_.body]; rfl)
      refine ok.proc stepped sched rfl ?_ (fun _ _ => rfl) ?_ fun busy => (busy at_.clear).elim
      · intro q away
        have other : q ≠ p := by
          rintro rfl
          exact away at_.on
        simp [IntrState.goto, other]
      · intro q j on mine
        rw [at_.on] at on
        cases on
        rw [at_.isrc] at mine
        cases mine
        simp only [IntrState.goto, Function.update_self]
        refine ⟨by simp [LoopPc.Fits, SchedState.goto], Or.inl running, ?_⟩
        intro asleep
        rw [show (s.sched.proc p).state = .sleeping from asleep] at running
        cases running
  | @sleepUnlock p i on clear isrc at_ =>
      refine ok.goto on clear rfl rfl rfl rfl fun j mine => ?_
      have here := ok.thread p j mine
      rw [at_] at here
      exact ⟨Or.inr (Or.inl here.fits), here.alive, here.chan⟩
  | loopLock at_ free =>
      rcases at_ with at_ | at_ <;>
        exact ok.goto at_.on at_.clear rfl rfl rfl rfl fun j _ =>
          ok.at_body at_ .test (fun _ => rfl) j
  | claim at_ work =>
      exact ok.goto at_.on at_.clear rfl rfl rfl rfl fun j _ =>
        ok.at_body at_ .claimed (fun _ => rfl) j
  | loopUnlock at_ =>
      exact ok.goto at_.on at_.clear rfl rfl rfl rfl fun j _ =>
        ok.at_body at_ .released (fun _ => rfl) j
  | start at_ =>
      exact ok.goto at_.on at_.clear rfl rfl rfl rfl fun j _ =>
        ok.at_body at_ .handling (fun _ => rfl) j
  | finish at_ =>
      exact ok.goto at_.on at_.clear rfl rfl rfl rfl fun j _ =>
        ok.at_body at_ .handled (fun _ => rfl) j
  | gicDeactivate at_ =>
      exact ok.goto at_.on at_.clear rfl rfl rfl rfl fun j _ =>
        ok.at_body at_ .enter (fun _ => Or.inl rfl) j

end Steps

end Intr

end Av6
