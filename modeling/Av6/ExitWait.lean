import Av6.WaitHistory

/-!
# The rendezvous of `exit` and `wait`

No zombie is lost, every exit is returned to the parent once and with its own status, a
`wait` that cannot copy the status out changes nothing, and an object is given back only
when no CPU is on its stack and its lock is free.
-/

namespace Av6

namespace Proc

variable {ncpus nslots : Nat} {P : Type*} [DecidableEq P] {s t : SchedState ncpus P}
  {c : Fin ncpus} {x : Context ncpus P} {p q np : P} {k k' : Code P}

/-- Sleeping inside `wait`. -/
def SleepsInWait (s : SchedState ncpus P) (p : P) : Prop :=
  (s.proc p).state = .sleeping ∧ ∃ xstatus, s.code (.thread p) = .slept (.waitEnter xstatus)

/-- The object is in `allproc` and in the bucket of its pid. -/
def InTables (s : SchedState ncpus P) (p : P) : Prop :=
  p ∈ s.allproc ∧ p ∈ s.pidhash ((s.proc p).pid % pidhashBuckets)

/-- No process and no table has changed. -/
structure SameTables (s t : SchedState ncpus P) : Prop where
  proc : t.proc = s.proc
  allocated : t.allocated = s.allocated
  allproc : t.allproc = s.allproc
  pidhash : t.pidhash = s.pidhash
  pidmap : t.pidmap = s.pidmap

omit [DecidableEq P] in
/-- A context that holds `wait_lock` keeps it from being free. -/
theorem ControlOk.wait_taken (ok : ControlOk s) (held : .wait ∈ (s.code x).held x.self) :
    s.locks .wait ≠ none := by
  obtain ⟨c, on⟩ := ok.active (by simp) held
  rw [(ok.locks c .wait).mpr (by rwa [s.heldBy_of_context on])]
  rintro ⟨⟩

omit [DecidableEq P] in
/-- A zombie is listed while `wait_lock` is free. -/
theorem LedgerOk.listed_of_zombie (ok : LedgerOk s) (sched : SchedOk s)
    (free : s.locks .wait = none) (used : s.allocated q = true)
    (exited : (s.proc q).state = .zombie) : q ∈ s.allproc := by
  rcases ok.accounted _ (ok.zombie q used exited) with
    ⟨r, listed, -, same⟩ | ⟨x, r, returning, -⟩ | ⟨r, returned, same⟩
  · have birth := congrArg ExitRecord.birth same
    rwa [ok.birth_inj q r used (sched.table.published r listed).1 birth.symm]
  · exact (sched.control.wait_taken (Code.held_of_result x.self returning) free).elim
  · exact ((ok.returns r returned).2.2 q used (congrArg ExitRecord.birth same).symm).elim

omit [DecidableEq P] in
theorem no_lost_zombie (sched : SchedOk s) (wait : WaitOk s) (ledger : LedgerOk s)
    (free : s.locks .wait = none) (sleeps : SleepsInWait s p) (used : s.allocated q = true)
    (child : (s.proc q).parent = some p) : (s.proc q).state ≠ .zombie := by
  intro exited
  obtain ⟨state, xstatus, at_⟩ := sleeps
  have asleep : Asleep s p := Or.inr ⟨by rw [at_]; rfl, state⟩
  have listed := ledger.listed_of_zombie sched free used exited
  obtain ⟨-, x, waking⟩ := wait.missed p q asleep ⟨listed, child, exited⟩
  obtain ⟨todo, waking⟩ := Option.isSome_iff_exists.mp waking
  exact sched.control.wait_taken (Code.held_of_toInit x.self waking) free

omit [DecidableEq P] in
theorem TableOk.inTables (ok : TableOk s) (listed : p ∈ s.allproc) : InTables s p :=
  ⟨listed, (ok.hashed _ p).mpr ⟨listed, rfl⟩⟩

omit [DecidableEq P] in
/-- The lock of a process is held by the process itself, by a context that has it from
a table, by the `wait` that reaps it, or by the one that publishes it. -/
theorem Code.proc_of_held {self : Option P} (nested : k.Nested)
    (held : .proc q ∈ k.held self) :
    self = some q ∨ q ∈ k.scanned ∨ (∃ r, k = .waitUnlinked q r) ∨ k.owns = some q := by
  have own : .proc q ∈ ownLock self → self = some q := by
    cases self <;> simp [ownLock]
    exact Eq.symm
  have wakes : ∀ {k : Code P}, k.CallsWakeup → .proc q ∉ k.held self := by
    intro k back
    rcases back.held self with none_ | one <;> simp [*]
  have publishes : ∀ {k : Code P}, k.CallsActivate → .proc q ∉ k.held self := by
    intro k back
    rcases back.held self with none_ | one <;> simp [*]
  cases k with
  | wakeEnter chan k => exact (wakes nested held).elim
  | wakeScan chan todo k =>
      simp only [Code.held, List.mem_cons, reduceCtorEq, false_or] at held
      exact (wakes nested held).elim
  | wakeLocked chan r todo k =>
      simp only [Code.held, List.mem_cons, Lock.proc.injEq, reduceCtorEq, false_or] at held
      rcases held with rfl | held
      · exact Or.inr (Or.inl (by simp [Code.scanned]))
      · exact (wakes nested held).elim
  | wakeDone chan r todo k =>
      simp only [Code.held, List.mem_cons, Lock.proc.injEq, reduceCtorEq, false_or] at held
      rcases held with rfl | held
      · exact Or.inr (Or.inl (by simp [Code.scanned]))
      · exact (wakes nested held).elim
  | activate np parent k => exact (publishes nested held).elim
  | activatePtable np parent k =>
      simp only [Code.held, List.mem_cons, reduceCtorEq, false_or] at held
      exact (publishes nested held).elim
  | activateLocked np parent k =>
      simp only [Code.held, List.mem_cons, Lock.proc.injEq, reduceCtorEq, false_or] at held
      rcases held with rfl | held
      · exact Or.inr (Or.inr (Or.inr rfl))
      · exact (publishes nested held).elim
  | activated np k =>
      simp only [Code.held, List.mem_cons, Lock.proc.injEq, reduceCtorEq, false_or] at held
      rcases held with rfl | held
      · exact Or.inr (Or.inl (by simp [Code.scanned]))
      · exact (publishes nested held).elim
  | activateDone k =>
      simp only [Code.held, List.mem_cons, reduceCtorEq, false_or] at held
      exact (publishes nested held).elim
  | _ => simp_all [Code.held, Code.scanned]

omit [DecidableEq P] in
/-- Nobody holds the lock of an object that is in no table and on no CPU. -/
theorem SchedOk.unlocked (ok : SchedOk s) (unlisted : np ∉ s.allproc)
    (idle : ∀ d, (s.cpu d).token ≠ some np ∧ s.cpu d ≠ .requeued np)
    (unlinked : ∀ y r, s.code y ≠ .waitUnlinked np r)
    (unowned : ∀ y, (s.code y).owns = some np → .proc np ∉ (s.code y).held y.self) :
    s.locks (.proc np) = none := by
  cases taken : s.locks (.proc np) with
  | none => rfl
  | some d =>
      have held := (ok.control.locks d (.proc np)).mp taken
      cases on : s.context d with
      | none =>
          have away := idle d
          unfold SchedState.context at on
          unfold SchedState.heldBy at held
          cases at_ : s.cpu d <;> simp_all [CpuPc.token]
      | some y =>
          rw [s.heldBy_of_context on] at held
          rcases Code.proc_of_held (ok.control.nested y) held with
            self | scanned | ⟨r, at_⟩ | owns
          · rcases s.context_eq_some on with ⟨p, running, rfl⟩ | ⟨-, rfl⟩ <;> cases self
            exact ((idle d).1 (by rw [running]; rfl)).elim
          · exact (unlisted (ok.table.scanned y np scanned)).elim
          · exact (unlinked y r at_).elim
          · exact (unowned y owns held).elim

/-- An object is given back by `wait`, or by a `fork` that fails. -/
theorem SchedStep.frees (step : SchedStep nslots s c t) (used : s.allocated np = true)
    (freed : t.allocated np = false) :
    ∃ p, s.cpu c = .running p ∧ ((∃ r, s.code (.thread p) = .waitFree np r) ∨
      s.code (.thread p) = .build np) := by
  have given : ∀ q, (Proc.freeproc s q).allocated np = false → q = np := by
    intro q given
    by_contra distinct
    simp [Proc.freeproc, Function.update_of_ne (Ne.symm distinct), used] at given
  have kept : s.allocated np ≠ false := by simp [used]
  cases step with
  | freeproc on at_ =>
      cases given _ freed
      exact ⟨_, on, Or.inl ⟨_, at_⟩⟩
  | abandon on at_ =>
      cases given _ freed
      exact ⟨_, on, Or.inr at_⟩
  | @allocproc x q pid on at_ notScheduler object number =>
      by_cases same : np = q
      · simp [same, Proc.allocproc, SchedState.goto] at freed
      · simp [same, Proc.allocproc, SchedState.goto, used] at freed
  | requeue on => split at freed <;> exact (kept freed).elim
  | kill on at_ => split at freed <;> exact (kept freed).elim
  | _ => exact (kept freed).elim

theorem freed_off_stack (ok : SchedOk s) (step : SchedStep nslots s c t)
    (used : s.allocated np = true) (freed : t.allocated np = false) :
    s.locks (.proc np) = none ∧
      ∀ d, s.cpu d ≠ .running np ∧ s.cpu d ≠ .switchedBack np ∧ s.cpu d ≠ .requeued np := by
  have off : (∀ d, (s.cpu d).token ≠ some np ∧ s.cpu d ≠ .requeued np) →
      ∀ d, s.cpu d ≠ .running np ∧ s.cpu d ≠ .switchedBack np ∧ s.cpu d ≠ .requeued np := by
    intro idle d
    refine ⟨?_, ?_, (idle d).2⟩ <;> intro on <;> exact (idle d).1 (by rw [on]; rfl)
  obtain ⟨p, on, ⟨r, at_⟩ | at_⟩ := step.frees used freed
  · have reaps : (s.code (.thread p)).reaps = some np := by
      rw [at_]
      rfl
    obtain ⟨-, exited, idle⟩ := ok.token.reaps _ np reaps
    refine ⟨ok.unlocked (ok.table.reaped _ np reaps) idle ?_ ?_, off idle⟩
    · intro y r' there
      have context : s.context c = some (.thread p) := by simp [SchedState.context, on]
      have other : y ≠ .thread p := by
        rintro rfl
        rw [at_] at there
        cases there
      exact ok.control.exclusive context (by simp [at_, Code.held]) (by simp) other
        (by simp [there, Code.held] : .wait ∈ (s.code y).held y.self)
    · intro y owns
      rw [(ok.token.owns y np owns).2] at exited
      cases exited
  · have owns : (s.code (.thread p)).owns = some np := by
      rw [at_]
      rfl
    have state := (ok.token.owns _ np owns).2
    have unlisted : np ∉ s.allproc := fun listed => (ok.table.published np listed).2.2 state
    have idle : ∀ d, (s.cpu d).token ≠ some np ∧ s.cpu d ≠ .requeued np := by
      intro d
      refine ⟨?_, fun there => (ok.token.requeued d np there).2 state⟩
      intro there
      have ready := ok.token.ready d np
      have running := ok.token.running d np
      have back := ok.token.back d np
      rw [state] at ready running back
      cases at_ : s.cpu d <;> simp_all [CpuPc.token]
      split at running <;> cases running
    refine ⟨ok.unlocked unlisted idle ?_ ?_, off idle⟩
    · intro y r there
      have exited := (ok.token.reaps y np (by rw [there]; rfl)).2.1
      rw [state] at exited
      cases exited
    · intro y owns'
      rw [ok.token.owns_inj y _ np owns' owns, at_]
      simp [Code.held]

/-- A `wait` that returns a child gives its pid to the caller. -/
theorem SchedStep.returned {r : WaitRecord P} (ledger : LedgerOk s)
    (step : SchedStep nslots s c t) (returned : t.returns = r :: s.returns) :
    s.cpu c = .running r.caller ∧ t.result r.caller = r.child.pid := by
  have grown : s.returns ≠ r :: s.returns := by simp
  cases step with
  | @waitReturn p r' on at_ =>
      obtain ⟨rfl, -⟩ := List.cons.inj returned
      have mine := (ledger.result (.thread p) r' (by rw [at_]; rfl)).1
      cases mine
      exact ⟨on, by simp [SchedState.goto, SchedState.setResult]⟩
  | requeue on => split at returned <;> exact (grown returned).elim
  | kill on at_ => split at returned <;> exact (grown returned).elim
  | _ => exact (grown returned).elim

/-- The way back from a failed `copyout`: two locks are released, and -1 is returned. -/
def Code.afterFailure : Code P → Option (Code P)
  | waitCopyFailed np => some (waitFailed np)
  | waitFailed _ => some waitError
  | waitError => some body
  | _ => none

omit [DecidableEq P] in
theorem Code.afterFailure_of_interruptible (open_ : k.interruptible = true) :
    k.afterFailure = none := by
  cases k <;> first | rfl | cases open_

theorem SchedStep.afterFailure (step : SchedStep nslots s c t) (on : s.cpu c = .running p)
    (failure : (s.code (.thread p)).afterFailure = some k') :
    t.code (.thread p) = k' ∧ SameTables s t ∧ (k' = .body → t.result p = -1) := by
  have same : ∀ {x}, s.context c = some x → x = .thread p := by
    intro x there
    simpa [SchedState.context, on, eq_comm] using there
  have thread : ∀ {q}, s.cpu c = .running q → q = p := by
    intro q there
    simpa [on, eq_comm] using there
  have shut : (s.code (.thread p)).interruptible ≠ true := by
    intro open_
    rw [Code.afterFailure_of_interruptible open_] at failure
    cases failure
  cases step with
  | acquire there at_ next free =>
      cases same there
      rw [at_] at failure shut
      cases next <;> first | cases failure | exact (shut ‹_›).elim
  | release there at_ next =>
      cases same there
      rw [at_] at failure
      cases next <;> cases failure <;>
        exact ⟨Function.update_self .., ⟨rfl, rfl, rfl, rfl, rfl⟩, by rintro ⟨⟩⟩
  | jump there at_ next =>
      cases same there
      rw [at_] at failure shut
      cases next <;> first | cases failure | exact (shut ‹_›).elim
  | finish there at_ next =>
      cases thread there
      rw [at_] at failure
      cases next <;> cases failure
      exact ⟨Function.update_self .., ⟨rfl, rfl, rfl, rfl, rfl⟩,
        fun _ => Function.update_self ..⟩
  | rouse there at_ asleep | passOver there at_ awake | procActivate there at_ =>
      cases same there
      rw [at_] at failure
      cases failure
  | allocproc there at_ notScheduler object number =>
      cases same there
      rw [at_] at failure
      cases failure
  | enterScheduler there at_ | dequeue there at_ first | lockProc there at_ free
  | refuse there state | dispatch there state | requeue there | unlockProc there
  | userinit there at_ first =>
      rw [on] at there
      cases there
  | swtchYield there at_ | swtchSleep there at_ | swtchExit there at_ | awake there at_
  | kill there at_ | reparent there at_ | becomeZombie there at_ | unlink there at_ exited
  | freeproc there at_ | waitReturn there at_ | abandon there at_ =>
      cases thread there
      rw [at_] at failure
      cases failure

/-- Nothing can hold up a `wait` on this way. -/
theorem exists_step_of_afterFailure (on : s.cpu c = .running p)
    (failure : (s.code (.thread p)).afterFailure = some k') :
    ∃ t, SchedStep nslots s c t := by
  have context : s.context c = some (.thread p) := by simp [SchedState.context, on]
  cases at_ : s.code (.thread p) <;> rw [at_] at failure <;> try cases failure
  · exact ⟨_, .release context at_ .waitCopyFailed⟩
  · exact ⟨_, .release context at_ .waitFailed⟩
  · exact ⟨_, .finish on at_ .waitError⟩

/-- `exit` and `wait` meet. -/
theorem exit_wait_rendezvous (reached : SchedReachable nslots s) :
    -- no lost zombie
    (s.locks .wait = none → ∀ p q, SleepsInWait s p → s.allocated q = true →
      (s.proc q).parent = some p → (s.proc q).state ≠ .zombie) ∧
    -- every exit is returned at most once, by the parent, with its pid and status
    ((s.returns.map (·.child.birth)).Nodup ∧ (s.exits.map (·.birth)).Nodup ∧
      (∀ r ∈ s.returns, r.child ∈ s.exits ∧ r.parent = some r.caller) ∧
      ∀ c t r, SchedStep nslots s c t → t.returns = r :: s.returns →
        s.cpu c = .running r.caller ∧ t.result r.caller = r.child.pid) ∧
    -- a failed copy returns -1, and the zombie can still be reaped
    ((∀ p np, (s.code (.thread p)).failed = some np →
        InTables s np ∧ (s.proc np).state = .zombie ∧ (s.proc np).parent = some p) ∧
      (∀ c p k', s.cpu c = .running p → (s.code (.thread p)).afterFailure = some k' →
        (∃ t, SchedStep nslots s c t) ∧ ∀ t, SchedStep nslots s c t →
          t.code (.thread p) = k' ∧ SameTables s t ∧ (k' = .body → t.result p = -1)) ∧
      (∀ p q todo, (s.code (.thread p)).unseen = some todo → ZombieChild s p q → q ∈ todo) ∧
      ∀ e ∈ s.exits,
        (∃ q, InTables s q ∧ (s.proc q).state = .zombie ∧ exitRecord s q = e ∧
          ∀ p, (s.proc q).parent = some p → (s.proc p).state ≠ .zombie) ∨
        (∃ p r, (s.code (.thread p)).result = some r ∧ r.child = e) ∨
        ∃ r ∈ s.returns, r.child = e) ∧
    -- an object is freed only when it is off every CPU and unlocked
    ∀ c t np, SchedStep nslots s c t → s.allocated np = true → t.allocated np = false →
      s.locks (.proc np) = none ∧
        ∀ d, s.cpu d ≠ .running np ∧ s.cpu d ≠ .switchedBack np ∧ s.cpu d ≠ .requeued np := by
  have sched := schedOk_of_reachable reached
  have wait := waitOk_of_reachable reached
  have ledger := ledgerOk_of_reachable reached
  refine ⟨?_, ⟨ledger.returns_nodup, ledger.exits_nodup, ?_, ?_⟩, ⟨?_, ?_, ?_, ?_⟩, ?_⟩
  · intro free p q
    exact no_lost_zombie sched wait ledger free
  · intro r returned
    obtain ⟨recorded, parent, -⟩ := ledger.returns r returned
    exact ⟨recorded, parent⟩
  · intro c t r step
    exact step.returned ledger
  · intro p np failed
    have found := Code.found_of_failed failed
    have listed := sched.table.scanned _ np (Code.held_of_found (some p) found).2
    exact ⟨sched.table.inTables listed, ledger.failed _ np failed, ledger.found p np found⟩
  · intro c p k' on failure
    exact ⟨exists_step_of_afterFailure on failure, fun t step => step.afterFailure on failure⟩
  · intro p q todo scanning
    exact (wait.context _).unseen todo p q scanning rfl
  · intro e member
    rcases ledger.accounted e member with
      ⟨q, listed, exited, same⟩ | ⟨x, r, returning, same⟩ | returned
    · exact Or.inl ⟨q, sched.table.inTables listed, exited, same,
        fun p child => (wait.parents p q listed child).1⟩
    · have mine := (ledger.result x r returning).1
      subst mine
      exact Or.inr (Or.inl ⟨_, r, returning, same⟩)
    · exact Or.inr (Or.inr returned)
  · intro c t np step
    exact freed_off_stack sched step

/-- `initproc` forks, and sleeps in `wait` until the child exits with status 7. -/
theorem exists_reaped : ∃ s : SchedState 1 Bool, SchedReachable 8 s ∧
    s.exits = [⟨1, 2, 7⟩] ∧ s.returns = [⟨⟨1, 2, 7⟩, true, some true⟩] := by
  have boot : SchedReachable 8 (procInit 1 Bool) := .start rfl
  have built : SchedReachable 8
      ((allocproc (procInit 1 Bool) true 1).goto (.sched 0) (.build true)) :=
    boot.next ⟨0, .allocproc rfl rfl (Or.inl rfl) rfl rfl⟩
  have named := built.next ⟨0, .userinit rfl rfl rfl⟩
  have listing := named.next ⟨0, .acquire rfl rfl .activate rfl⟩
  have locked := listing.next ⟨0, .acquire rfl rfl .activatePtable rfl⟩
  have published := locked.next ⟨0, .procActivate rfl rfl⟩
  have unlocked := published.next ⟨0, .release rfl rfl .activated⟩
  have listed := unlocked.next ⟨0, .release rfl rfl .activateDone⟩
  have looping := listed.next ⟨0, .enterScheduler rfl rfl⟩
  have dequeued := looping.next ⟨0, .dequeue rfl rfl rfl⟩
  have dispatching := dequeued.next ⟨0, .lockProc rfl rfl rfl⟩
  have running := dispatching.next ⟨0, .dispatch rfl rfl⟩
  have user := running.next ⟨0, .release rfl rfl (.forkret rfl)⟩
  have forking := user.next ⟨0, @SchedStep.allocproc 1 Bool _ 8 _ 0 (.thread true) false 2
    rfl rfl (Or.inr ⟨_, rfl⟩) rfl rfl⟩
  have copied := forking.next ⟨0, .jump rfl rfl (.forkBuilt rfl)⟩
  have related := copied.next ⟨0, .acquire rfl rfl (.forkPublish rfl) rfl⟩
  have childListing := related.next ⟨0, .acquire rfl rfl .activate rfl⟩
  have childLocked := childListing.next ⟨0, .acquire rfl rfl .activatePtable rfl⟩
  have childPublished := childLocked.next ⟨0, .procActivate rfl rfl⟩
  have childUnlocked := childPublished.next ⟨0, .release rfl rfl .activated⟩
  have childListed := childUnlocked.next ⟨0, .release rfl rfl .activateDone⟩
  have forked := childListed.next ⟨0, .finish rfl rfl .forkDone⟩
  have waiting := forked.next ⟨0, .jump rfl rfl (.callWait 0 rfl)⟩
  have waitLocked := waiting.next ⟨0, .acquire rfl rfl .waitEnter rfl⟩
  have scanning := waitLocked.next ⟨0, .acquire rfl rfl .waitLoop rfl⟩
  have found := scanning.next ⟨0, .acquire rfl rfl (.waitScan rfl rfl) rfl⟩
  have alive := found.next ⟨0, .release rfl rfl (.waitLocked (by rintro ⟨⟩))⟩
  have skipped := alive.next ⟨0, .jump rfl rfl (.waitSkip (by rintro ⟨⟩))⟩
  have scanned := skipped.next ⟨0, .release rfl rfl .waitScan⟩
  have decided := scanned.next ⟨0, .acquire rfl rfl (.waitDecide rfl) rfl⟩
  have notKilled := decided.next ⟨0, .release rfl rfl (.waitKilled rfl)⟩
  have dozing := notKilled.next ⟨0, .acquire rfl rfl (.waitSleep rfl) rfl⟩
  have committed := dozing.next ⟨0, .release rfl rfl .sleepLocked⟩
  have asleep := committed.next ⟨0, .swtchSleep rfl rfl⟩
  have off := asleep.next ⟨0, .requeue rfl⟩
  have idle := off.next ⟨0, .unlockProc rfl⟩
  have childDequeued := idle.next ⟨0, .dequeue rfl rfl rfl⟩
  have childDispatching := childDequeued.next ⟨0, .lockProc rfl rfl rfl⟩
  have childRunning := childDispatching.next ⟨0, .dispatch rfl rfl⟩
  have childUser := childRunning.next ⟨0, .release rfl rfl (.forkret rfl)⟩
  have exiting := childUser.next ⟨0, .jump rfl rfl (.callExit 7 rfl rfl (by rintro ⟨⟩))⟩
  have exitLocked := exiting.next ⟨0, .acquire rfl rfl .exitEnter rfl⟩
  have exitListing := exitLocked.next ⟨0, .acquire rfl rfl .exitLocked rfl⟩
  have reparented := exitListing.next ⟨0, .reparent rfl rfl⟩
  have wakingInit := reparented.next ⟨0, .release rfl rfl (.exitReparented rfl)⟩
  have wakeListing := wakingInit.next ⟨0, .acquire rfl rfl .wakeEnter rfl⟩
  have wakeSelf := wakeListing.next ⟨0, .jump rfl rfl (.wakeSelf rfl)⟩
  have wakeLocked := wakeSelf.next ⟨0, .acquire rfl rfl (.wakeScan (by rintro ⟨⟩)) rfl⟩
  have roused := wakeLocked.next ⟨0, .rouse rfl rfl ⟨rfl, rfl⟩⟩
  have wakeUnlocked := roused.next ⟨0, .release rfl rfl .wakeDone⟩
  have woke := wakeUnlocked.next ⟨0, .release rfl rfl .wakeScan⟩
  have ready := woke.next ⟨0, .jump rfl rfl (.exitNoParent rfl (Or.inr rfl))⟩
  have own := ready.next ⟨0, .acquire rfl rfl (.exitReady rfl) rfl⟩
  have zombie := own.next ⟨0, .becomeZombie rfl rfl⟩
  have leaving := zombie.next ⟨0, .release rfl rfl .exitZombie⟩
  have gone := leaving.next ⟨0, .swtchExit rfl rfl⟩
  have cleared := gone.next ⟨0, .requeue rfl⟩
  have idleAgain := cleared.next ⟨0, .unlockProc rfl⟩
  have initDequeued := idleAgain.next ⟨0, .dequeue rfl rfl rfl⟩
  have initDispatching := initDequeued.next ⟨0, .lockProc rfl rfl rfl⟩
  have initRunning := initDispatching.next ⟨0, .dispatch rfl rfl⟩
  have awake := initRunning.next ⟨0, .awake rfl rfl⟩
  have again := awake.next ⟨0, .acquire rfl rfl .waitEnter rfl⟩
  have rescanning := again.next ⟨0, .acquire rfl rfl .waitLoop rfl⟩
  have refound := rescanning.next ⟨0, .acquire rfl rfl (.waitScan rfl rfl) rfl⟩
  have unlinked := refound.next ⟨0, .unlink rfl rfl rfl⟩
  have unlinkedUnlocked := unlinked.next ⟨0, .release rfl rfl .waitUnlinked⟩
  have unlisted := unlinkedUnlocked.next ⟨0, .release rfl rfl .waitUnlocked⟩
  have freed := unlisted.next ⟨0, .freeproc rfl rfl⟩
  have returned := freed.next ⟨0, .waitReturn rfl rfl⟩
  exact ⟨_, returned, rfl, rfl⟩

theorem exit_wait_rendezvous_reaped : ∃ s : SchedState 1 Bool, SchedReachable 8 s ∧
    s.returns = [⟨⟨1, 2, 7⟩, true, some true⟩] ∧
      ∀ r ∈ s.returns, r.child ∈ s.exits ∧ r.parent = some r.caller := by
  obtain ⟨s, reached, -, returns⟩ := exists_reaped
  have meet := exit_wait_rendezvous reached
  exact ⟨s, reached, returns, meet.2.1.2.2.1⟩

end Proc

end Av6
