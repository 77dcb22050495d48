import Av6.IntrPhases

/-!
# No interrupt is lost on the way to its thread

`pending` is set under `ithread_lock`, and the thread tests it under that lock and keeps the lock
until it has `p->lock`.  Whoever has set `pending` can therefore find the thread running, which
will test again, or asleep, and then its `wakeup` is still to come.
-/

namespace Av6

namespace Intr

open HandoffCycle Proc

variable {ncpus nslots : Nat} {P I : Type*} {addr : I → Nat}

/-- The owner of `ithread_lock`. -/
structure LockOk (s : IntrState ncpus P I) : Prop where
  thread : ∀ p i, s.isrc p = some i → (s.loop p).locked = true → s.ithreadLock = some (.thread p)
  locked : ∀ c i, s.irq c = .locked i → s.ithreadLock = some (.irq c)
  marked : ∀ c i, s.irq c = .marked i → s.ithreadLock = some (.irq c)

/-- The process sleeps, or has `p->lock` and is about to. -/
def Dozes (s : SchedState ncpus P) (p : P) : Prop :=
  (∃ chan, s.code (.thread p) = .sleepReleased chan .body) ∨ (s.proc p).state = .sleeping

/-- `wakeup` has not looked at the process yet. -/
def Visits (p : P) : Code P → Prop
  | .wakeEnter _ _ => True
  | .wakeScan _ todo _ | .wakeDone _ _ todo _ => p ∈ todo
  | .wakeLocked _ q todo _ => p = q ∨ p ∈ todo
  | _ => False

/-- The CPU is going to wake the thread `p` of the source `i`. -/
def Covers (addr : I → Nat) (s : IntrState ncpus P I) (c : Fin ncpus) (i : I) (p : P) : Prop :=
  s.irq c = .marked i ∨
    ∃ k x, s.irq c = .waking i k ∧ s.sched.context c = some x ∧
      InWakeup (addr i) k (s.sched.code x) ∧ Visits p (s.sched.code x)

structure HandoffOk (addr : I → Nat) (s : IntrState ncpus P I) : Prop where
  unset : ∀ p i, s.isrc p = some i → s.loop p = .sleepLocked → (s.src i).pending = false
  covered : ∀ p i, s.isrc p = some i → (s.src i).pending = true → Dozes s.sched p →
    ∃ c, Covers addr s c i p

section Locks

variable [DecidableEq P] [DecidableEq I] {s t : IntrState ncpus P I} {c : Fin ncpus}

theorem LockOk.step (ok : LockOk s) (step : IntrStep nslots addr s c t) : LockOk t := by
  obtain ⟨thread, locked, marked⟩ := ok
  cases step with
  | proc | waking => exact ⟨thread, locked, marked⟩
  | _ =>
      constructor <;>
        simp only [IntrState.setIrq, IntrState.setSrc, IntrState.goto, Function.update_apply] <;>
        grind [LoopPc.locked, IntrState.At]

end Locks

section Sched

variable {s t : SchedState ncpus P} {c : Fin ncpus} {p : P} {a : Nat} {pc : LoopPc}

/-- A thread that is on a CPU, outside `sleep`, does not doze. -/
theorem not_dozes_of_running (ok : SchedOk s) (on : s.cpu c = .running p)
    (awake : ∀ chan, s.code (.thread p) ≠ .sleepReleased chan .body) : ¬ Dozes s p := by
  rintro (⟨chan, dozing⟩ | asleep)
  · exact awake chan dozing
  · rw [ok.token.running c p on] at asleep
    split at asleep <;> cases asleep

/-- No step of `proc.c` but that of the thread itself puts it to sleep. -/
theorem dozes_effect (ok : SchedOk s) (effect : Effect s t c p) (here : ThreadOk s a pc p)
    (lets : s.cpu c = .running p → pc.locked = false ∧
      (s.code (.thread p) = .body → Interrupts (s.code (.thread p)) (t.code (.thread p))))
    (dozes : Dozes t p) : Dozes s p := by
  have same : t.code (.thread p) = s.code (.thread p) →
      (t.proc p).state ≠ .sleeping → Dozes s p := by
    intro code awake
    rcases dozes with ⟨chan, dozing⟩ | asleep
    · exact Or.inl ⟨chan, by rw [← code, dozing]⟩
    · exact (awake asleep).elim
  cases effect with
  | none code data =>
      rcases dozes with ⟨chan, dozing⟩ | asleep
      · exact Or.inl ⟨chan, by rw [← code, dozing]⟩
      · exact Or.inr (by rw [← data.state, asleep])
  | follows on code data =>
      exfalso
      rcases dozes with ⟨chan, dozing⟩ | asleep
      · rcases here.fits.elim with body | ⟨new, -⟩ | ⟨dozing', -⟩ | ⟨slept, -⟩
        · have still := code.atBody (lets on).2 body
          rw [dozing] at still
          cases still
        · rw [new] at code
          rw [code.of_forkret] at dozing
          cases dozing
        · exact (code.not_asleep _).1 dozing'
        · exact (code.not_asleep (.other a)).2 slept
      · rw [data.state, ok.token.running c p on] at asleep
        split at asleep <;> cases asleep
  | switches on off code =>
      rcases code.elim with ⟨k, before, after, data⟩ | ⟨chan, k, before, -, -⟩ | ⟨before, -, -⟩
      · rw [Dozes, after, data] at dozes
        rcases dozes with ⟨chan, dozing⟩ | asleep
        · cases dozing
        · cases asleep
      · rcases here.fits.elim with body | ⟨new, -⟩ | ⟨dozing, -⟩ | ⟨slept, -⟩
        · rw [before] at body
          cases body
        · rw [before] at new
          cases new
        · exact Or.inl ⟨_, dozing⟩
        · rw [before] at slept
          cases slept
      · rcases here.fits.elim with body | ⟨new, -⟩ | ⟨dozing, -⟩ | ⟨slept, -⟩
        · rw [before] at body
          cases body
        · rw [before] at new
          cases new
        · exact Or.inl ⟨_, dozing⟩
        · rw [before] at slept
          cases slept
  | awakes on code data =>
      have running := data.state.trans (ok.running_state on (by rw [code]; rfl))
      have nested := ok.control.nested (.thread p)
      rw [code] at nested
      rcases dozes with ⟨chan, dozing⟩ | asleep
      · rw [dozing] at nested
        rcases nested with back | ⟨x, back⟩ <;> cases back
      · rw [running] at asleep
        cases asleep
  | zombie on code code' data =>
      rw [Dozes, code', data.state] at dozes
      rcases dozes with ⟨chan, dozing⟩ | asleep
      · cases dozing
      · cases asleep
  | dispatched on on' code ready data => exact same code (by rw [data.state]; rintro ⟨⟩)
  | roused on at_ code asleep onChan data => exact same code (by rw [data.state]; rintro ⟨⟩)
  | marked on at_ code data =>
      have awake : (t.proc p).state ≠ .sleeping := by
        rw [data.state]
        dsimp only
        split <;> simp_all
      rcases code with code | ⟨-, code⟩
      · exact same code awake
      · rw [Dozes, code] at dozes
        rcases dozes with ⟨chan, dozing⟩ | asleep
        · cases dozing
        · exact (awake asleep).elim
  | allocated free =>
      rw [here.alive.allocated ok] at free
      cases free
  | activated code private_ data => exact same code (by rw [data.state]; rintro ⟨⟩)

/-- Whoever has `p->lock` for `wakeup` finds the process asleep or not about to sleep. -/
theorem not_dozing_of_locked (ok : SchedOk s) {x : Context ncpus P} {chan chan' : Chan P}
    {todo : List P} {k : Code P} (on : s.context c = some x)
    (at_ : s.code x = .wakeLocked chan p todo k) :
    s.code (.thread p) ≠ .sleepReleased chan' .body := by
  intro dozing
  have mine : s.locks (.proc p) = some c :=
    (ok.control.locks c _).mpr (by rw [s.heldBy_of_context on, at_]; simp [Code.held])
  rcases ok.control.resting p with ⟨d, there⟩ | suspended | dead
  · have theirs : s.locks (.proc p) = some d :=
      (ok.control.locks d _).mpr (by simp [SchedState.heldBy, there, dozing, Code.held])
    rw [mine] at theirs
    cases theirs
    rw [context_of_running there] at on
    cases on
    rw [dozing] at at_
    cases at_
  · rw [dozing] at suspended
    cases suspended
  · rw [dozing] at dead
    cases dead

/-- `wakeup` does not miss a thread that sleeps. -/
theorem visits_wakes (ok : SchedOk s) {x : Context ncpus P} {k k' : Code P}
    (on : s.context c = some x) (inside : InWakeup a k (s.code x))
    (next : Wakes s t x (s.code x) k') (masked : ¬ Interrupts (s.code x) k')
    (here : ThreadOk s a pc p) (same : t.code (.thread p) = s.code (.thread p))
    (before : Dozes s p) (dozes : Dozes t p) (visits : Visits p (s.code x)) :
    InWakeup a k k' ∧ Visits p k' := by
  -- Once `wakeup` has the lock of `p`, a sleeping `p` is woken.
  have unseen : ∀ {todo}, s.code x = .wakeLocked (.other a) p todo k →
      ((t.proc p).state = .runnable ∨ t.proc = s.proc ∧
        ¬ ((s.proc p).state = .sleeping ∧ (s.proc p).chan = some (.other a))) → False := by
    intro todo at_ awake
    rcases dozes with ⟨chan, dozing⟩ | asleep
    · rw [same] at dozing
      exact not_dozing_of_locked ok on at_ dozing
    · rcases awake with runnable | ⟨data, awake⟩
      · rw [runnable] at asleep
        cases asleep
      · rw [data] at asleep
        exact awake ⟨asleep, here.chan asleep⟩
  generalize at_ : s.code x = code at inside next masked visits unseen
  cases inside with
  | enter =>
      cases next with
      | scan =>
          refine ⟨.scan, ok.table.alive p ?_⟩
          rcases here.alive with running | runnable | asleep
          · exact Or.inr (Or.inr running)
          · exact Or.inl runnable
          · exact Or.inr (Or.inl asleep)
      | interrupt interrupts => exact (masked interrupts).elim
  | scan =>
      cases next with
      | lock => exact ⟨.locked, List.mem_cons.mp visits⟩
      | @self chan q todo k mine =>
          refine ⟨.scan, (List.mem_cons.mp visits).resolve_left ?_⟩
          rintro rfl
          subst mine
          rcases s.context_eq_some on with ⟨r, running, same⟩ | ⟨-, same⟩
          · cases same
            refine not_dozes_of_running ok running ?_ before
            rw [at_]
            rintro chan ⟨⟩
          · cases same
      | done => cases visits
      | interrupt interrupts => exact (masked interrupts).elim
  | @locked q todo =>
      have other : p ≠ q → p ∈ todo := visits.resolve_left
      cases next with
      | rouse awake =>
          refine ⟨.done, other ?_⟩
          rintro rfl
          exact unseen rfl (Or.inl awake)
      | pass data awake =>
          refine ⟨.done, other ?_⟩
          rintro rfl
          exact unseen rfl (Or.inr ⟨data, awake⟩)
      | interrupt interrupts => exact (masked interrupts).elim
  | done =>
      cases next with
      | unlock => exact ⟨.scan, visits⟩
      | interrupt interrupts => exact (masked interrupts).elim

end Sched

theorem InWakeup.ne {a : Nat} {k k' : Code P} (inside : InWakeup a k k') : k' ≠ k := by
  intro same
  have size := congrArg sizeOf same
  cases inside <;> simp at size

section Steps

variable {s t : IntrState ncpus P I} {c d : Fin ncpus} {p : P} {i : I}

/-- A CPU that is neither at the mark nor in `wakeup` covers nothing. -/
theorem Covers.ne (covers : Covers addr s d i p) (quiet : ∀ i, s.irq c ≠ .marked i)
    (masked : ∀ i k, s.irq c ≠ .waking i k) : d ≠ c := by
  rintro rfl
  rcases covers with marked | ⟨k, x, waking, -⟩
  · exact quiet i marked
  · exact masked i k waking

variable [DecidableEq P]

/-- Another CPU moves. -/
theorem Covers.elsewhere (covers : Covers addr s d i p) (ok : SchedOk s.sched)
    (stepped : t.sched = s.sched ∨ SchedStep nslots s.sched c t.sched) (other : d ≠ c)
    (irq : t.irq d = s.irq d) : Covers addr t d i p := by
  have kept : ∀ x, s.sched.context d = some x →
      t.sched.context d = some x ∧ t.sched.code x = s.sched.code x := by
    intro x there
    rcases stepped with same | stepped
    · rw [same]
      exact ⟨there, rfl⟩
    · obtain ⟨cpu, code⟩ := stepped.elsewhere ok other
      refine ⟨?_, code x there⟩
      rw [← there]
      unfold SchedState.context
      rw [cpu]
  rcases covers with marked | ⟨k, x, waking, there, inside, visits⟩
  · exact Or.inl (by rw [irq, marked])
  · obtain ⟨context, code⟩ := kept x there
    exact Or.inr ⟨k, x, by rw [irq, waking], context, by rw [code]; exact inside,
      by rw [code]; exact visits⟩

/-- `covered` across a step of a CPU that covers nothing. -/
theorem HandoffOk.quiet (ok : HandoffOk addr s) (place : PlaceOk addr s)
    (stepped : t.sched = s.sched ∨ SchedStep nslots s.sched c t.sched)
    (irq : ∀ d, d ≠ c → t.irq d = s.irq d) (quiet : ∀ i, s.irq c ≠ .marked i)
    (masked : ∀ i k, s.irq c ≠ .waking i k) (own : s.isrc p = some i)
    (pending : (s.src i).pending = true) (dozes : Dozes s.sched p) : ∃ d, Covers addr t d i p := by
  obtain ⟨d, covers⟩ := ok.covered p i own pending dozes
  have other := covers.ne quiet masked
  exact ⟨d, covers.elsewhere place.sched stepped other (irq d other)⟩

/-- The thread that a step of `proc.c` finds dozing has dozed before. -/
theorem PlaceOk.dozes (place : PlaceOk addr s) {t : SchedState ncpus P}
    (stepped : SchedStep nslots s.sched c t) (own : s.isrc p = some i)
    (lets : s.sched.cpu c = .running p → (s.loop p).locked = false ∧
      (s.sched.code (.thread p) = .body →
        Interrupts (s.sched.code (.thread p)) (t.code (.thread p))))
    (dozes : Dozes t p) : Dozes s.sched p :=
  dozes_effect place.sched (stepped.effect place.sched p) (place.thread p i own) lets dozes

variable [DecidableEq I]

theorem HandoffOk.unset_step (ok : HandoffOk addr s) (lock : LockOk s)
    (step : IntrStep nslots addr s c t) (own : t.isrc p = some i)
    (at_ : t.loop p = .sleepLocked) : (t.src i).pending = false := by
  have unset := ok.unset
  obtain ⟨thread, locked, marked⟩ := lock
  cases step <;>
    simp only [IntrState.setIrq, IntrState.setSrc, IntrState.goto, Source.log,
      Function.update_apply] at own at_ ⊢ <;>
    grind [LoopPc.locked, IntrState.At]

theorem HandoffOk.covered_step (ok : HandoffOk addr s) (place : PlaceOk addr s)
    (step : IntrStep nslots addr s c t) (own : t.isrc p = some i)
    (pending : (t.src i).pending = true) (dozes : Dozes t.sched p) :
    ∃ d, Covers addr t d i p := by
  have stepped := step.sched place
  cases step with
  | @proc u moved clear lets =>
      refine ok.quiet place stepped (fun _ _ => rfl) (by rw [clear]; rintro i ⟨⟩)
        (by rw [clear]; rintro i k ⟨⟩) own pending ?_
      exact place.dozes moved own (fun on => (lets p i on own).elim) dozes
  | @ack x j on open_ clear unlocked inactive =>
      refine ok.quiet place stepped ?_ (by rw [clear]; rintro i ⟨⟩) (by rw [clear]; rintro i k ⟨⟩)
        own ?_ dozes
      · intro d other
        simp [IntrState.setIrq, IntrState.setSrc, other]
      · by_cases same : i = j <;>
          simpa [IntrState.setIrq, IntrState.setSrc, Source.log, same] using pending
  | @filter j res at_ _ | @stray j at_ | @deactivate j res at_ _ =>
      refine ok.quiet place stepped ?_ (by rw [at_]; rintro i ⟨⟩) (by rw [at_]; rintro i k ⟨⟩)
        own ?_ dozes
      · intro d other
        simp [IntrState.setIrq, IntrState.setSrc, other]
      · by_cases same : i = j <;>
          simpa [IntrState.setIrq, IntrState.setSrc, Source.log, same] using pending
  | unexpected at_ | handled at_ | lock at_ | handedOver at_ | irqReturn at_ =>
      refine ok.quiet place stepped ?_ (by rw [at_]; rintro i ⟨⟩) (by rw [at_]; rintro i k ⟨⟩)
        own pending dozes
      intro d other
      simp [IntrState.setIrq, other]
  | @mark j at_ =>
      by_cases same : i = j
      · subst same
        exact ⟨c, Or.inl (by simp [IntrState.setIrq])⟩
      · refine ok.quiet place stepped ?_ (by rw [at_]; rintro i ⟨⟩) (by rw [at_]; rintro i k ⟨⟩)
          own ?_ dozes
        · intro d other
          simp [IntrState.setIrq, IntrState.setSrc, other]
        · simpa [IntrState.setIrq, IntrState.setSrc, same] using pending
  | @wakeup x j on at_ =>
      obtain ⟨moved, open_, unlocked⟩ := place.wakeup_step nslots (addr j) on at_
      have before : Dozes s.sched p := by
        refine place.dozes moved own (fun running => ?_) dozes
        have same : x = .thread p := by
          rw [context_of_running running] at on
          exact (Option.some.inj on).symm
        subst same
        refine ⟨unlocked p i rfl own, fun _ => ?_⟩
        simp only [SchedState.goto, Function.update_self]
        exact .wakeup _
      obtain ⟨d, covers⟩ := ok.covered p i own pending before
      refine ⟨d, ?_⟩
      by_cases here : d = c
      · subst here
        rcases covers with marked | ⟨k, y, waking, -⟩
        · rw [at_] at marked
          cases marked
          refine Or.inr ⟨s.sched.code x, x, by simp [IntrState.setIrq], on, ?_, ?_⟩ <;>
            simp only [IntrState.setIrq, SchedState.goto, Function.update_self]
          · exact .enter
          · trivial
        · rw [at_] at waking
          cases waking
      · exact covers.elsewhere place.sched stepped here (by simp [IntrState.setIrq, here])
  | @waking x j k u on at_ inside moved masked =>
      obtain ⟨y, there, fits, unlocked⟩ := place.irq c (by rw [at_]; rintro ⟨⟩)
      rw [on] at there
      cases there
      rw [at_] at fits
      have within := fits.2.resolve_left inside
      have away : ∀ {q}, s.sched.cpu c = .running q → x = .thread q := by
        intro q running
        rw [context_of_running running] at on
        exact (Option.some.inj on).symm
      have before : Dozes s.sched p := by
        refine place.dozes moved own (fun running => ?_) dozes
        refine ⟨unlocked p i (away running) own, fun body => ?_⟩
        rw [away running, body] at within
        cases within
      obtain ⟨d, covers⟩ := ok.covered p i own pending before
      refine ⟨d, ?_⟩
      by_cases here : d = c
      · subst here
        rcases covers with marked | ⟨k', y, waking, there, within', visits⟩
        · rw [at_] at marked
          cases marked
        · rw [at_] at waking
          cases waking
          rw [on] at there
          cases there
          have thread := place.thread p i own
          obtain ⟨cpu, next⟩ := moved.wakes place.sched on within.inWakeup
          have same : u.code (.thread p) = s.sched.code (.thread p) := by
            refine (moved.effect place.sched p).code_same place.sched thread.alive fun running => ?_
            refine not_dozes_of_running place.sched running ?_ before
            rw [away running] at within
            rintro chan dozing
            rw [dozing] at within
            cases within
          obtain ⟨within, visits⟩ := visits_wakes place.sched on within' next masked thread same
            before dozes visits
          refine Or.inr ⟨k, x, at_, ?_, within, visits⟩
          rw [← on]
          unfold SchedState.context
          rw [cpu]
      · exact covers.elsewhere place.sched stepped here rfl
  | @woken x j k on at_ back =>
      obtain ⟨d, covers⟩ := ok.covered p i own pending dozes
      refine ⟨d, ?_⟩
      by_cases here : d = c
      · subst here
        rcases covers with marked | ⟨k', y, waking, there, within, -⟩
        · rw [at_] at marked
          cases marked
        · rw [at_] at waking
          cases waking
          rw [on] at there
          cases there
          exact (within.ne back).elim
      · exact covers.elsewhere place.sched stepped here (by simp [IntrState.setIrq, here])
  | @yield q at_ on free =>
      obtain ⟨moved, unlocked⟩ := place.yield_step nslots at_ on free
      refine ok.quiet place stepped ?_ (by rw [at_]; rintro i ⟨⟩) (by rw [at_]; rintro i k ⟨⟩)
        own pending ?_
      · intro d other
        simp [IntrState.setIrq, other]
      · refine place.dozes moved own (fun running => ?_) dozes
        rw [on] at running
        cases running
        refine ⟨unlocked i own, fun _ => ?_⟩
        simp only [SchedState.goto, Function.update_self]
        exact .preempt
  | @loopLock q j at_ free =>
      have clear : s.irq c = .none := at_.elim (·.clear) (·.clear)
      exact ok.quiet place stepped (fun _ _ => rfl) (by rw [clear]; rintro i ⟨⟩)
        (by rw [clear]; rintro i k ⟨⟩) own pending dozes
  | @sleep q j at_ nothing free =>
      have moved := place.sleep_step nslots (addr j) at_ free
      have other : p ≠ q := by
        rintro rfl
        have same := at_.isrc
        rw [show s.isrc p = some i from own] at same
        cases same
        rw [show (s.src i).pending = true from pending] at nothing
        cases nothing
      refine ok.quiet place stepped (fun _ _ => rfl) (by rw [at_.clear]; rintro i ⟨⟩)
        (by rw [at_.clear]; rintro i k ⟨⟩) own pending ?_
      refine place.dozes moved own (fun running => ?_) dozes
      rw [at_.on] at running
      cases running
      exact (other rfl).elim
  | @sleepUnlock q j on clear isrc at_ =>
      exact ok.quiet place stepped (fun _ _ => rfl) (by rw [clear]; rintro i ⟨⟩)
        (by rw [clear]; rintro i k ⟨⟩) own pending dozes
  | @loopUnlock q j at_ =>
      exact ok.quiet place stepped (fun _ _ => rfl) (by rw [at_.clear]; rintro i ⟨⟩)
        (by rw [at_.clear]; rintro i k ⟨⟩) own pending dozes
  | @claim q j at_ _ | @start q j at_ | @finish q j at_ | @gicDeactivate q j at_ =>
      refine ok.quiet place stepped (fun _ _ => rfl) (by rw [at_.clear]; rintro i ⟨⟩)
        (by rw [at_.clear]; rintro i k ⟨⟩) own ?_ dozes
      by_cases same : i = j
      · subst same
        simp_all [IntrState.goto, IntrState.setSrc, Source.log]
      · simpa [IntrState.goto, IntrState.setSrc, same] using pending

end Steps

section Runs

variable {s t : IntrState ncpus P I}

structure IntrOk (addr : I → Nat) (s : IntrState ncpus P I) : Prop where
  place : PlaceOk addr s
  lock : LockOk s
  handoff : HandoffOk addr s
  phase : ∀ i, PhaseOk s i

/-- A source whose thread sleeps can fire again, unless some CPU has just taken it. -/
theorem IntrOk.idle_of_sleeping (ok : IntrOk addr s) {p : P} {i : I} (own : s.isrc p = some i)
    (asleep : (s.sched.proc p).state = .sleeping) (none : ∀ c, ¬ (s.irq c).handles i) :
    (s.src i).pending = false ∧ (s.src i).active = false := by
  have idle : (s.src i).pending = false := by
    cases pending : (s.src i).pending with
    | false => rfl
    | true =>
        obtain ⟨c, marked | ⟨k, x, waking, -⟩⟩ := ok.handoff.covered p i own pending (Or.inr asleep)
        · exact (none c (by rw [marked]; rfl)).elim
        · exact (none c (by rw [waking]; rfl)).elim
  -- A thread that sleeps is in the `sleep` of `ithread_loop`, so it is not at work.
  have free : (s.loop p).stage = .free := by
    obtain ⟨k, slept⟩ := ok.place.sched.token.sleeping p asleep
    rcases (ok.place.thread p i own).fits.elim with body | ⟨new, -⟩ | ⟨dozing, -⟩ | ⟨-, at_⟩
    · rw [slept] at body
      cases body
    · rw [slept] at new
      cases new
    · rw [slept] at dozing
      cases dozing
    · rw [at_]
      rfl
  have away : ∀ {stage}, ThreadAt s i stage → stage = .free := by
    rintro stage ⟨q, own', here⟩
    rw [← here, ok.place.isrc q p i own' own, free]
  refine ⟨idle, ?_⟩
  obtain ⟨phase, -, holds⟩ := ok.phase i
  cases phase with
  | idle => exact holds.1
  | dispatched =>
      obtain ⟨-, -, ⟨c, only⟩, -⟩ := holds
      have raw := (only c).mpr rfl
      refine (none c ?_).elim
      cases at_ : s.irq c <;> rw [at_] at raw <;>
        first | exact raw | exact raw.1 | exact raw.elim
  | scheduled =>
      obtain ⟨-, -, ⟨waiting, -⟩ | ⟨-, here⟩⟩ := holds
      · rw [idle] at waiting
        cases waiting
      · cases away here
  | handling => cases away holds.2.2.2
  | handled => cases away holds.2.2.2

variable [DecidableEq P]

theorem intrOk_of_booted (booted : Booted nslots s) : IntrOk addr s := by
  have enter : ∀ p i, s.isrc p = some i → s.loop p = .enter := fun p i own =>
    (booted.ithread p i own).1
  have notRaw : ∀ i, NotRaw s i := by
    intro i c
    rw [booted.irq c]
    exact id
  refine ⟨⟨schedOk_of_reachable booted.sched, booted.isrc, ?_, ?_⟩, ⟨?_, ?_, ?_⟩, ⟨?_, ?_⟩, ?_⟩
  · intro p i own
    obtain ⟨loop, code, alive⟩ := booted.ithread p i own
    refine ⟨by rw [loop, code]; exact Or.inr rfl, alive, fun asleep => ?_⟩
    obtain ⟨k, slept⟩ := (schedOk_of_reachable booted.sched).token.sleeping p asleep
    rw [code] at slept
    cases slept
  · intro c busy
    exact (busy (booted.irq c)).elim
  · intro p i own locked
    rw [enter p i own] at locked
    cases locked
  · intro c i at_
    rw [booted.irq c] at at_
    cases at_
  · intro c i at_
    rw [booted.irq c] at at_
    cases at_
  · intro p i own at_
    rw [enter p i own] at at_
    cases at_
  · intro p i own pending
    rw [(booted.src i).1] at pending
    cases pending
  · intro i
    obtain ⟨pending, active, trace⟩ := booted.src i
    refine ⟨.idle, by rw [trace]; rfl, active, pending, notRaw i, ?_⟩
    intro p own
    rw [enter p i own]
    rfl

variable [DecidableEq I]

theorem IntrOk.step {c : Fin ncpus} (ok : IntrOk addr s) (step : IntrStep nslots addr s c t)
    (sched : SchedOk t.sched) : IntrOk addr t := by
  have place := ok.place.step step sched
  refine ⟨place, ok.lock.step step, ⟨?_, ?_⟩, PhaseOk.step ok.place.isrc ok.phase step⟩
  · intro p i
    exact ok.handoff.unset_step ok.lock step
  · intro p i
    exact ok.handoff.covered_step ok.place step

theorem intrOk_of_reachable (reached : IntrReachable nslots addr s) :
    SchedReachable nslots s.sched ∧ IntrOk addr s := by
  refine TransitionSystem.Reachable.invariant (I := fun s : IntrState ncpus P I =>
    SchedReachable nslots s.sched ∧ IntrOk addr s) ?_ ?_ reached
  · intro s booted
    exact ⟨booted.sched, intrOk_of_booted booted⟩
  · rintro s t - ⟨before, ok⟩ ⟨c, step⟩
    have after : SchedReachable nslots t.sched := by
      rcases step.sched ok.place with same | stepped
      · rwa [same]
      · exact before.next ⟨c, stepped⟩
    exact ⟨after, ok.step step (schedOk_of_reachable after)⟩

/-- Threaded interrupts are neither lost nor deactivated twice. -/
theorem threaded_interrupts (reached : IntrReachable nslots addr s) (i : I) :
    (∀ p, s.isrc p = some i → (s.sched.proc p).state = .sleeping →
        (∀ c, ¬ (s.irq c).handles i) → (s.src i).pending = false ∧ (s.src i).active = false) ∧
      (∀ before between after,
        (s.src i).trace = before ++ .schedule :: (between ++ .deactivate :: after) →
        .deactivate ∉ between → between = [.start, .finish]) ∧
      (s.src i).trace.count .deactivate ≤ (s.src i).trace.count .dispatch ∧
      ∀ before after, (s.src i).trace = before ++ after →
        before.count .finish ≤ before.count .start ∧
          before.count .start ≤ before.count .finish + 1 := by
  have ok := (intrOk_of_reachable reached).2
  obtain ⟨phase, ran, -⟩ := ok.phase i
  refine ⟨fun p own asleep none => ok.idle_of_sleeping own asleep none, ?_, ?_, ?_⟩
  · intro before between after trace first
    rw [trace] at ran
    exact eq_start_finish_of_run ran first
  · have balance := (balance_of_run ran).1
    simp only [Phase.open] at balance
    omega
  · intro before after trace
    rw [trace] at ran
    obtain ⟨middle, ran, -⟩ := run_of_append ran
    have balance := (balance_of_run ran).2
    cases middle <;> simp only [Phase.serving] at balance <;> omega

end Runs

/-- The thread of a source goes to sleep; an interrupt comes while the CPU is idle, and the thread
handles it and sleeps again. -/
theorem exists_interrupt_handled : ∃ s : IntrState 1 Unit Unit, IntrReachable 8 (fun _ => 7) s ∧
    s.isrc () = some () ∧ (s.sched.proc ()).state = .sleeping ∧ s.irq 0 = .none ∧
      (s.src ()).trace = [.dispatch, .schedule, .start, .finish, .deactivate] := by
  have boot : SchedReachable 8 (procInit 1 Unit) := .start rfl
  have built : SchedReachable 8
      ((allocproc (procInit 1 Unit) () 1).goto (.sched 0) (.build ())) :=
    boot.next ⟨0, .allocproc rfl rfl (Or.inl rfl) rfl rfl⟩
  have named := built.next ⟨0, .jump rfl rfl .kthreadBuilt⟩
  have listing := named.next ⟨0, .acquire rfl rfl .activate rfl⟩
  have locked := listing.next ⟨0, .acquire rfl rfl .activatePtable rfl⟩
  have published := locked.next ⟨0, .procActivate rfl rfl⟩
  have unlocked := published.next ⟨0, .release rfl rfl .activated⟩
  have listed := unlocked.next ⟨0, .release rfl rfl .activateDone⟩
  have looping := listed.next ⟨0, .enterScheduler rfl rfl⟩
  have booted : IntrReachable 8 (fun _ => 7) (⟨_, fun _ => ⟨true, 0, 0, false, false, []⟩, none,
      fun _ => .none, fun _ => some (), fun _ => .enter⟩ : IntrState 1 Unit Unit) :=
    .start ⟨looping, fun _ => ⟨rfl, rfl, rfl⟩, rfl, fun _ => rfl, fun _ _ _ _ _ => rfl,
      fun _ _ _ => ⟨rfl, rfl, Or.inr (Or.inl rfl)⟩⟩
  have dequeued := booted.next ⟨0, .proc (.dequeue rfl rfl rfl) rfl (by rintro p i ⟨⟩)⟩
  have dispatching := dequeued.next ⟨0, .proc (.lockProc rfl rfl rfl) rfl (by rintro p i ⟨⟩)⟩
  have running := dispatching.next ⟨0, .proc (.dispatch rfl rfl) rfl (by rintro p i ⟨⟩)⟩
  have started := running.next ⟨0, .proc (.release rfl rfl (.forkret rfl)) rfl
    (by rintro p i - - ⟨⟩)⟩
  -- There is nothing to do, and the thread sleeps.
  have testing := started.next ⟨0, .loopLock (p := ()) (i := ()) (Or.inl ⟨rfl, rfl, rfl, rfl, rfl⟩)
    rfl⟩
  have dozing := testing.next ⟨0, .sleep (p := ()) (i := ()) ⟨rfl, rfl, rfl, rfl, rfl⟩ rfl rfl⟩
  have released := dozing.next ⟨0, .sleepUnlock (p := ()) (i := ()) rfl rfl rfl rfl⟩
  have asleep := released.next ⟨0, .proc (.swtchSleep rfl rfl) rfl (by rintro p i - - ⟨⟩)⟩
  have requeued := asleep.next ⟨0, .proc (.requeue rfl) rfl (by rintro p i ⟨⟩)⟩
  have idle := requeued.next ⟨0, .proc (.unlockProc rfl) rfl (by rintro p i ⟨⟩)⟩
  -- The interrupt.
  have acked := idle.next ⟨0, .ack (x := .sched 0) () rfl rfl rfl (by rintro p ⟨⟩) rfl⟩
  have filtered := acked.next ⟨0, .filter (i := ()) .scheduleThread rfl rfl⟩
  have irqLocked := filtered.next ⟨0, .lock (i := ()) rfl rfl⟩
  have marked := irqLocked.next ⟨0, .mark (i := ()) rfl⟩
  have waking := marked.next ⟨0, .wakeup (x := .sched 0) (i := ()) rfl rfl⟩
  have scanning := waking.next ⟨0, .waking (x := .sched 0) (i := ()) rfl rfl (by rintro ⟨⟩)
    (.acquire rfl rfl .wakeEnter rfl) (by rintro ⟨⟩)⟩
  have found := scanning.next ⟨0, .waking (x := .sched 0) (i := ()) rfl rfl (by rintro ⟨⟩)
    (.acquire rfl rfl (.wakeScan (by rintro ⟨⟩)) rfl) (by rintro ⟨⟩)⟩
  have roused := found.next ⟨0, .waking (x := .sched 0) (i := ()) rfl rfl (by rintro ⟨⟩)
    (.rouse rfl rfl ⟨rfl, rfl⟩) (by rintro ⟨⟩)⟩
  have passed := roused.next ⟨0, .waking (x := .sched 0) (i := ()) rfl rfl (by rintro ⟨⟩)
    (.release rfl rfl .wakeDone) (by rintro ⟨⟩)⟩
  have scanned := passed.next ⟨0, .waking (x := .sched 0) (i := ()) rfl rfl (by rintro ⟨⟩)
    (.release rfl rfl .wakeScan) (by rintro ⟨⟩)⟩
  have woken := scanned.next ⟨0, .woken (x := .sched 0) (i := ()) rfl rfl rfl⟩
  have handed := woken.next ⟨0, .handedOver (i := ()) rfl⟩
  have returned := handed.next ⟨0, .irqReturn rfl⟩
  -- The thread runs the handler, deactivates the source and sleeps again.
  have dequeued' := returned.next ⟨0, .proc (.dequeue rfl rfl rfl) rfl (by rintro p i ⟨⟩)⟩
  have dispatching' := dequeued'.next ⟨0, .proc (.lockProc rfl rfl rfl) rfl (by rintro p i ⟨⟩)⟩
  have running' := dispatching'.next ⟨0, .proc (.dispatch rfl rfl) rfl (by rintro p i ⟨⟩)⟩
  have awake := running'.next ⟨0, .proc (.awake rfl rfl) rfl (by rintro p i - - ⟨⟩)⟩
  have retesting := awake.next ⟨0, .loopLock (p := ()) (i := ())
    (Or.inr ⟨rfl, rfl, rfl, rfl, rfl⟩) rfl⟩
  have claimed := retesting.next ⟨0, .claim (p := ()) (i := ()) ⟨rfl, rfl, rfl, rfl, rfl⟩ rfl⟩
  have free := claimed.next ⟨0, .loopUnlock (p := ()) (i := ()) ⟨rfl, rfl, rfl, rfl, rfl⟩⟩
  have handling := free.next ⟨0, .start (p := ()) (i := ()) ⟨rfl, rfl, rfl, rfl, rfl⟩⟩
  have handled := handling.next ⟨0, .finish (p := ()) (i := ()) ⟨rfl, rfl, rfl, rfl, rfl⟩⟩
  have inactive := handled.next ⟨0, .gicDeactivate (p := ()) (i := ()) ⟨rfl, rfl, rfl, rfl, rfl⟩⟩
  have again := inactive.next ⟨0, .loopLock (p := ()) (i := ())
    (Or.inl ⟨rfl, rfl, rfl, rfl, rfl⟩) rfl⟩
  have dozing' := again.next ⟨0, .sleep (p := ()) (i := ()) ⟨rfl, rfl, rfl, rfl, rfl⟩ rfl rfl⟩
  have released' := dozing'.next ⟨0, .sleepUnlock (p := ()) (i := ()) rfl rfl rfl rfl⟩
  have asleep' := released'.next ⟨0, .proc (.swtchSleep rfl rfl) rfl (by rintro p i - - ⟨⟩)⟩
  exact ⟨_, asleep', rfl, rfl, rfl, rfl⟩

theorem threaded_interrupts_handled : ∃ s : IntrState 1 Unit Unit, IntrReachable 8 (fun _ => 7) s ∧
    s.isrc () = some () ∧ (s.sched.proc ()).state = .sleeping ∧
      (s.src ()).trace = [.dispatch, .schedule, .start, .finish, .deactivate] ∧
        (s.src ()).pending = false ∧ (s.src ()).active = false := by
  obtain ⟨s, reached, own, asleep, clear, trace⟩ := exists_interrupt_handled
  refine ⟨s, reached, own, asleep, trace, ?_⟩
  apply (threaded_interrupts reached ()).1 () own asleep
  intro c
  rw [Subsingleton.elim c 0, clear]
  exact id

end Intr

end Av6
