import Av6.ProcLocks

/-!
# What holds between the steps of the CPUs

Three invariants, kept together: who holds which lock and where every context is
(`ControlOk`), on which CPU or queue every process is (`TokenOk`), and what the tables
list (`TableOk`).  A CPU has the token of a process from the moment it dequeues it until
the process has switched back.
-/

namespace Av6

namespace Proc

variable {ncpus : Nat} {P : Type*}

/-- The process is a zombie already while its thread still runs. -/
def Code.zombied : Code P → Bool
  | exitZombie | exitSched => true
  | _ => false

/-- The object that is private to the context. -/
def Code.owns : Code P → Option P
  | yieldLocked k | yielded k => k.owns
  | wakeEnter _ k | wakeScan _ _ k | wakeLocked _ _ _ k | wakeDone _ _ _ k => k.owns
  | build np | forkPublish np | activate np _ _ => some np
  | activatePtable np _ _ | activateLocked np _ _ => some np
  | _ => none

/-- The object that `wait` has unlinked and not freed yet. -/
def Code.reaps : Code P → Option P
  | waitUnlinked np _ | waitUnlocked np _ | waitFree np _ => some np
  | _ => none

/-- The listed objects that the code refers to: those still to be visited in a loop over
`allproc`, and the one at hand. -/
def Code.scanned : Code P → List P
  | wakeScan _ todo _ => todo
  | wakeLocked _ q todo _ | wakeDone _ q todo _ => q :: todo
  | waitScan _ todo _ => todo
  | waitLocked _ np todo => np :: todo
  | waitCopyFailed np | waitFailed np => [np]
  | killLocked q | killMarked q => [q]
  | activated np _ => [np]
  | _ => []

/-- Switched away by `sched`, or never run. -/
def Code.suspended : Code P → Bool
  | forkret | yielded _ | slept _ => true
  | _ => false

/-- The process whose token the CPU has. -/
def CpuPc.token : CpuPc P → Option P
  | .dequeued p | .dispatching p | .running p | .switchedBack p => some p
  | _ => none

/-- The CPU's own context stands still. -/
def CpuPc.busy : CpuPc P → Bool
  | .boot | .loop | .dequeued _ => false
  | _ => true

/-- `myproc()` -/
def Context.self : Context ncpus P → Option P
  | .sched _ => none
  | .thread p => some p

/-- The locks that a CPU holds. -/
def SchedState.heldBy (s : SchedState ncpus P) (c : Fin ncpus) : List (Lock P) :=
  match s.cpu c with
  | .dispatching p | .switchedBack p | .requeued p => [.proc p]
  | .running p => (s.code (.thread p)).held (some p)
  | .boot | .loop | .dequeued _ => (s.code (.sched c)).held none

structure ControlOk (s : SchedState ncpus P) : Prop where
  locks : ∀ c l, s.locks l = some c ↔ l ∈ s.heldBy c
  nested : ∀ x, (s.code x).Nested
  current : ∀ c p, s.current c = some p ↔ s.cpu c = .running p ∨ s.cpu c = .switchedBack p
  busy : ∀ c, (s.cpu c).busy = true → s.code (.sched c) = .body
  resting : ∀ p, (∃ c, s.cpu c = .running p) ∨ (s.code (.thread p)).suspended = true ∨
    s.code (.thread p) = .dead

structure TokenOk (s : SchedState ncpus P) : Prop where
  runq_nodup : s.runq.Nodup
  runq_ok : ∀ p ∈ s.runq, (s.proc p).state = .runnable ∧ ∀ c, (s.cpu c).token ≠ some p
  token_inj : ∀ c d p, (s.cpu c).token = some p → (s.cpu d).token = some p → c = d
  ready : ∀ c p, s.cpu c = .dequeued p ∨ s.cpu c = .dispatching p →
    (s.proc p).state = .runnable
  running : ∀ c p, s.cpu c = .running p →
    (s.proc p).state = if (s.code (.thread p)).zombied then .zombie else .running
  back : ∀ c p, s.cpu c = .switchedBack p → (s.proc p).state = .runnable ∨
    (s.proc p).state = .sleeping ∨ (s.proc p).state = .zombie
  runnable : ∀ p, (s.proc p).state = .runnable → p ∈ s.runq ∨ ∃ c, (s.cpu c).token = some p
  requeued : ∀ c p, s.cpu c = .requeued p → (s.proc p).state ≠ .unused ∧
    (s.proc p).state ≠ .used
  unborn : ∀ p, (s.proc p).state = .used → s.code (.thread p) = .forkret
  suspended : ∀ p, (s.proc p).state = .runnable ∨ (s.proc p).state = .sleeping →
    (s.code (.thread p)).suspended = true
  sleeping : ∀ p, (s.proc p).state = .sleeping → ∃ k, s.code (.thread p) = .slept k
  free : ∀ p, s.allocated p = false → p ∉ s.runq ∧
    ∀ c, (s.cpu c).token ≠ some p ∧ s.cpu c ≠ .requeued p
  owns : ∀ x np, (s.code x).owns = some np → s.allocated np = true ∧
    (s.proc np).state = .used
  owns_inj : ∀ x y np, (s.code x).owns = some np → (s.code y).owns = some np → x = y
  reaps : ∀ x np, (s.code x).reaps = some np → s.allocated np = true ∧
    (s.proc np).state = .zombie ∧ ∀ c, (s.cpu c).token ≠ some np ∧ s.cpu c ≠ .requeued np

structure TableOk (s : SchedState ncpus P) : Prop where
  nodup : s.allproc.Nodup
  published : ∀ p ∈ s.allproc, s.allocated p = true ∧ (s.proc p).state ≠ .unused ∧
    (s.proc p).state ≠ .used
  alive : ∀ p, (s.proc p).state = .runnable ∨ (s.proc p).state = .sleeping ∨
    (s.proc p).state = .running → p ∈ s.allproc
  hashed : ∀ b p, p ∈ s.pidhash b ↔ p ∈ s.allproc ∧ (s.proc p).pid % pidhashBuckets = b
  hash_nodup : ∀ b, (s.pidhash b).Nodup
  scanned : ∀ x, ∀ q ∈ (s.code x).scanned, q ∈ s.allproc
  reaped : ∀ x np, (s.code x).reaps = some np → np ∉ s.allproc

structure SchedOk (s : SchedState ncpus P) : Prop where
  control : ControlOk s
  token : TokenOk s
  table : TableOk s

theorem SchedState.context_eq_some {s : SchedState ncpus P} {c : Fin ncpus}
    {x : Context ncpus P} (on : s.context c = some x) :
    (∃ p, s.cpu c = .running p ∧ x = .thread p) ∨ ((s.cpu c).busy = false ∧ x = .sched c) := by
  unfold context at on
  cases at_ : s.cpu c <;> simp_all [CpuPc.busy]

/-- A CPU holds what the code of its context holds. -/
theorem SchedState.heldBy_of_context {s : SchedState ncpus P} {c : Fin ncpus}
    {x : Context ncpus P} (on : s.context c = some x) :
    s.heldBy c = (s.code x).held x.self := by
  unfold context at on
  unfold heldBy
  cases at_ : s.cpu c <;> simp_all <;> subst on <;> rfl

theorem ControlOk.self_of_context {s : SchedState ncpus P} (ok : ControlOk s)
    {c : Fin ncpus} {x : Context ncpus P} (on : s.context c = some x) :
    s.current c = x.self := by
  rcases s.context_eq_some on with ⟨p, running, rfl⟩ | ⟨idle, rfl⟩
  · exact (ok.current c p).mpr (Or.inl running)
  · cases at_ : s.current c with
    | none => rfl
    | some p =>
        rcases (ok.current c p).mp at_ with there | there <;> simp [there, CpuPc.busy] at idle

/-- Only an active context can hold one of the two global locks. -/
theorem ControlOk.active {s : SchedState ncpus P} (ok : ControlOk s)
    {x : Context ncpus P} {l : Lock P} (global : ∀ p, l ≠ .proc p)
    (held : l ∈ (s.code x).held x.self) : ∃ c, s.context c = some x := by
  cases x with
  | sched c =>
      by_cases idle : (s.cpu c).busy = true
      · rw [ok.busy c idle] at held
        cases held
      · refine ⟨c, ?_⟩
        unfold SchedState.context
        cases at_ : s.cpu c <;> simp_all [CpuPc.busy]
  | thread p =>
      rcases ok.resting p with ⟨c, running⟩ | suspended | dead
      · exact ⟨c, by simp [SchedState.context, running]⟩
      · cases at_ : s.code (.thread p) <;>
          simp_all [Code.suspended, Code.held, Context.self]
      · rw [dead] at held
        cases held

/-- Mutual exclusion between contexts. -/
theorem ControlOk.exclusive {s : SchedState ncpus P} (ok : ControlOk s)
    {c : Fin ncpus} {x y : Context ncpus P} {l : Lock P} (on : s.context c = some x)
    (held : l ∈ (s.code x).held x.self) (global : ∀ p, l ≠ .proc p) (other : y ≠ x) :
    l ∉ (s.code y).held y.self := by
  intro held'
  obtain ⟨d, on'⟩ := ok.active global held'
  have first := (ok.locks c l).mpr (by rwa [s.heldBy_of_context on])
  have second := (ok.locks d l).mpr (by rwa [s.heldBy_of_context on'])
  rw [first] at second
  cases second
  rw [on] at on'
  cases on'
  exact other rfl

end Proc

end Av6
