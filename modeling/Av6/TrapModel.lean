import Av6.ProcThreads
import Av6.WaitHistory

/-!
# User mode and the ways into the kernel

`arch/trap.c` and the EL0 entries of `arch/vectors.s` on top of the processes of `kern/proc.c`.
A process leaves user mode by a synchronous exception, an IRQ, an SError or an FIQ, and enters
it from `forkret` or at the end of one of these.  `killed` reads the flag under `p->lock` in one
step.  A system call may call anything of `proc.c`; a process that panics takes no more steps.
-/

namespace Av6

namespace Trap

open Proc

def EC_SVC64 : BitVec 64 := 0x15
def ESR_EC_SHIFT : Nat := 26
def ESR_EC_MASK : BitVec 64 := 0x3f
def ESR_IDS : BitVec 64 := 1 <<< 24
def ESR_AET_SHIFT : Nat := 10
def ESR_AET_MASK : BitVec 64 := 0x7
def ESR_AET_UEO : BitVec 64 := 0x2
def ESR_AET_CE : BitVec 64 := 0x6

/-- The exception class of a syndrome. -/
def exceptionClass (esr : BitVec 64) : BitVec 64 := (esr >>> ESR_EC_SHIFT) &&& ESR_EC_MASK

/-- `serror_is_fatal`; `ras` says whether the CPU has the RAS extension. -/
def serrorIsFatal (ras : Bool) (esr : BitVec 64) : Bool :=
  let aet := (esr >>> ESR_AET_SHIFT) &&& ESR_AET_MASK
  esr &&& ESR_IDS ≠ 0 || !ras || (aet ≠ ESR_AET_CE && aet ≠ ESR_AET_UEO)

/-- Where a thread is, seen from `trap.c`. -/
inductive Mode
  /-- A kernel thread, which has no user mode. -/
  | kthread
  /-- `forkret` is about to call `usertrapret`. -/
  | forked
  | user
  /-- At the switch of `usertrap_sync`. -/
  | sync (esr : BitVec 64)
  | syscall
  /-- At the call of `killed` of `usertrap_sync`. -/
  | check
  /-- At a call of `exit(-1)` of `usertrap_sync`, or inside it. -/
  | exiting
  | irq
  | serror (esr : BitVec 64)
  | panicked

structure TrapState (ncpus : Nat) (P : Type*) where
  sched : SchedState ncpus P
  mode : P → Mode

variable {ncpus : Nat} {P : Type*}

/-- After the boot; a thread has its mode from `forkret` on. -/
def trapInit : TrapState ncpus P where
  sched := procInit ncpus P
  mode _ := .kthread

/-- Whether a thread can take a step of `proc.c` from `k` to `k'`. -/
def Mode.Lets : Mode → Code P → Code P → Prop
  | .kthread, k, _ | .syscall, k, _ => k ≠ .forkret
  | .forked, k, k' | .irq, k, k' => k ≠ .forkret ∧ (k = .body → Interrupts k k')
  | .exiting, k, _ => k ≠ .forkret ∧ k ≠ .body
  | _, _, _ => False

variable [DecidableEq P]

def TrapState.enter (s : TrapState ncpus P) (p : P) (mode : Mode) : TrapState ncpus P :=
  { s with mode := Function.update s.mode p mode }

/-- The thread of `p` runs on `c`, outside `proc.c`. -/
structure TrapState.At (s : TrapState ncpus P) (c : Fin ncpus) (p : P) (mode : Mode) : Prop where
  on : s.sched.cpu c = .running p
  body : s.sched.code (.thread p) = .body
  mode : s.mode p = mode

/-- One step of the CPU `c`. -/
inductive TrapStep (nslots : Nat) (ras : Bool) (s : TrapState ncpus P) (c : Fin ncpus) :
    TrapState ncpus P → Prop
  | proc {t : SchedState ncpus P} (stepped : SchedStep nslots s.sched c t)
      (lets : ∀ p, s.sched.cpu c = .running p →
        (s.mode p).Lets (s.sched.code (.thread p)) (t.code (.thread p))) :
      TrapStep nslots ras s c { s with sched := t }
  /-- `forkret` releases `p->lock` and looks for an entry point of the kernel. -/
  | forkret {p : P} (on : s.sched.cpu c = .running p)
      (at_ : s.sched.code (.thread p) = .forkret) (mode : Mode)
      (starts : mode = .kthread ∨ mode = .forked) :
      TrapStep nslots ras s c
        ({ s with
          sched := (s.sched.setLock (.proc p) none).goto (.thread p) .body }.enter p mode)
  | usertrapret {p : P} (at_ : s.At c p .forked) : TrapStep nslots ras s c (s.enter p .user)
  | el0Sync {p : P} (esr : BitVec 64) (at_ : s.At c p .user) :
      TrapStep nslots ras s c (s.enter p (.sync esr))
  | el0Irq {p : P} (at_ : s.At c p .user) : TrapStep nslots ras s c (s.enter p .irq)
  | el0Error {p : P} (esr : BitVec 64) (at_ : s.At c p .user) :
      TrapStep nslots ras s c (s.enter p (.serror esr))
  /-- `trap_fiq` panics. -/
  | el0Fiq {p : P} (at_ : s.At c p .user) : TrapStep nslots ras s c (s.enter p .panicked)
  | svc {p : P} {esr : BitVec 64} (at_ : s.At c p (.sync esr))
      (class_ : exceptionClass esr = EC_SVC64) : TrapStep nslots ras s c (s.enter p .syscall)
  /-- Every other class ends in `exit(-1)`. -/
  | fault {p : P} {esr : BitVec 64} (at_ : s.At c p (.sync esr))
      (class_ : exceptionClass esr ≠ EC_SVC64) : TrapStep nslots ras s c (s.enter p .exiting)
  | sysret {p : P} (at_ : s.At c p .syscall) : TrapStep nslots ras s c (s.enter p .check)
  | killed {p : P} (at_ : s.At c p .check) (free : s.sched.locks (.proc p) = none) :
      TrapStep nslots ras s c
        (s.enter p (if (s.sched.proc p).killed then .exiting else .user))
  | exit {p init : P} (at_ : s.At c p .exiting) (known : s.sched.initproc = some init)
      (mortal : p ≠ init) :
      TrapStep nslots ras s c { s with sched := s.sched.goto (.thread p) (.exitEnter (-1)) }
  /-- `exit` of `initproc`, here or in the system call. -/
  | initExit {p : P} (at_ : s.At c p .exiting ∨ s.At c p .syscall)
      (init : s.sched.initproc = some p) : TrapStep nslots ras s c (s.enter p .panicked)
  | irqReturn {p : P} (at_ : s.At c p .irq) : TrapStep nslots ras s c (s.enter p .user)
  | serrorReturn {p : P} {esr : BitVec 64} (at_ : s.At c p (.serror esr))
      (contained : serrorIsFatal ras esr = false) : TrapStep nslots ras s c (s.enter p .user)
  | serrorPanic {p : P} {esr : BitVec 64} (at_ : s.At c p (.serror esr))
      (fatal : serrorIsFatal ras esr = true) : TrapStep nslots ras s c (s.enter p .panicked)

/-- One step of any CPU. -/
def TrapMoves (nslots : Nat) (ras : Bool) (s t : TrapState ncpus P) : Prop :=
  ∃ c, TrapStep nslots ras s c t

/-- States reached from boot under any interleaving. -/
def TrapReachable (nslots : Nat) (ras : Bool) (s : TrapState ncpus P) : Prop :=
  TransitionSystem.Reachable (· = trapInit) (TrapMoves nslots ras) s

/-- `p` enters the kernel from user mode between `s` and `t`. -/
def Enters (s t : TrapState ncpus P) (p : P) : Prop :=
  s.mode p = .user ∧ t.mode p ≠ .user

/-- The process that was born as `birth` has gone through `exit`. -/
def Exited (s : TrapState ncpus P) (birth : Nat) : Prop :=
  ∃ e ∈ s.sched.exits, e.birth = birth

end Trap

end Av6
