import Av6.TransitionSystem
import Mathlib.Logic.Function.Basic

/-!
# Masking of IRQs

`push_off` and `pop_off` of `kern/spinlock.c` under the spinlocks, the scheduler and the traps.
The code that a thread or a scheduler still has to run is a list of operations; `body` stands
for any code that gives back what it takes, and unfolds into calls of the functions below.
An IRQ is taken between any two operations while IRQs are enabled, also in the middle of
`push_off`, and at its end a thread may be preempted and resume on another CPU.
-/

namespace Av6

namespace IrqMask

/-- A spinlock: `p->lock`, `wait_lock`, or any other. -/
inductive Lock (P X : Type*)
  | proc (p : P)
  | wait
  | other (x : X)
deriving DecidableEq

/-- One operation of the kernel's code. -/
inductive Op (P X : Type*)
  /-- Any code that runs at least `base` levels deep and ends there. -/
  | body (base : Nat)
  /-- `old = irq_get()` of `push_off`. -/
  | pushGet
  /-- The rest of `push_off`, from `irq_disable()` on. -/
  | pushCount (old : Bool)
  /-- The `atomic_swap` loop of `acquire_spinlock`. -/
  | swap (lk : Lock P X)
  /-- The `atomic_swap` of `try_acquire_spinlock`. -/
  | trySwap (lk : Lock P X)
  /-- The store of `release_spinlock`. -/
  | unlock (lk : Lock P X)
  /-- `pop_off` -/
  | pop
  /-- `intena = c->intena` and the `swtch` of `sched`. -/
  | sched
  /-- `cpus[cpuid()].intena = intena` after the `swtch`. -/
  | schedRet (intena : Bool)
  /-- `exit` does not come back from `sched`. -/
  | exited
  /-- `irq_disable()` of `usertrapret`. -/
  | disable
  /-- Return from an exception to code with IRQs enabled or masked. -/
  | eret (irq : Bool)
  /-- The preemption point of `trap_irq`. -/
  | resched
  /-- The top of the loop of `scheduler`. -/
  | loop
  /-- `irq_enable()` of `scheduler`. -/
  | enable
  /-- The result of `runq_dequeue`. -/
  | dequeued
  /-- The test of `p->state` of `scheduler`. -/
  | check (p : P)
  /-- The `swtch` of `scheduler`. -/
  | swtch (p : P)

section Code

variable {P X : Type*}

def pushOff : List (Op P X) := [.pushGet]
def popOff : List (Op P X) := [.pop]
def acquire (lk : Lock P X) : List (Op P X) := pushOff ++ [.swap lk]
def tryAcquire (lk : Lock P X) : List (Op P X) := pushOff ++ [.trySwap lk]
def release (lk : Lock P X) : List (Op P X) := [.unlock lk] ++ popOff

def myproc : List (Op P X) := pushOff ++ popOff

/-- `sched()` -/
def schedCode : List (Op P X) := myproc ++ [.sched]

/-- `yield()` of the thread `p`. -/
def yieldCode (p : P) : List (Op P X) :=
  myproc ++ acquire (.proc p) ++ schedCode ++ release (.proc p)

/-- `sleep(chan, lk)` -/
def sleepCode (p : P) (lk : Lock P X) : List (Op P X) :=
  myproc ++ acquire (.proc p) ++ release lk ++ schedCode ++ release (.proc p) ++ acquire lk

/-- `exit(status)` -/
def exitCode (p : P) : List (Op P X) :=
  [.body 0] ++ acquire .wait ++ [.body 1] ++ acquire (.proc p) ++ release .wait ++ [.body 1] ++
    schedCode ++ [.exited]

/-- `forkret`, where a new thread starts with `p->lock` held. -/
def forkretCode (p : P) : List (Op P X) :=
  myproc ++ release (.proc p) ++ [.body 0]

/-- One round of `scheduler` up to the result of `runq_dequeue`. -/
def loopCode : List (Op P X) := [.enable, .body 0, .dequeued]

/-- `scheduler` dispatches the runnable process `p`. -/
def dispatchCode (p : P) : List (Op P X) :=
  [.body 1, .swtch p, .body 1] ++ release (.proc p) ++ [.loop]

end Code

/-- The fields of `struct cpu`, and the mask bit of the CPU. -/
structure Cpu where
  noff : Nat
  intena : Bool
  irq : Bool

/-- A thread or a scheduler: the code that it has to run, the number of its outstanding
`push_off`s, and what the outermost one of these found. -/
structure Ctx (P X : Type*) where
  code : List (Op P X)
  depth : Nat
  before : Bool

inductive Context (P C : Type*)
  | thread (p : P)
  | scheduler (c : C)
deriving DecidableEq

/-- The CPUs, what runs on each of them (`none` is its scheduler), and all code. -/
structure IrqState (P X C : Type*) where
  cpu : C → Cpu
  proc : C → Option P
  ctx : Context P C → Ctx P X
  lock : Lock P X → Option C

variable {P X C : Type*}

/-- The code that is running on a CPU. -/
def IrqState.running (s : IrqState P X C) (c : C) : Context P C :=
  match s.proc c with
  | some p => .thread p
  | none => .scheduler c

def IrqState.here (s : IrqState P X C) (c : C) : Ctx P X :=
  s.ctx (s.running c)

/-- All CPUs enter `scheduler` with IRQs masked, and every thread is new. -/
def irqInit : IrqState P X C where
  cpu _ := ⟨0, false, false⟩
  proc _ := none
  ctx x :=
    match x with
    | .thread p => ⟨forkretCode p, 1, true⟩
    | .scheduler _ => ⟨[.loop], 0, false⟩
  lock _ := none

/-- `push_off` from `irq_disable()` on. -/
def Cpu.push (cpu : Cpu) (old : Bool) : Cpu where
  noff := cpu.noff + 1
  intena := if cpu.noff = 0 then old else cpu.intena
  irq := false

/-- `pop_off` behind its assertions. -/
def Cpu.pop (cpu : Cpu) : Cpu where
  noff := cpu.noff - 1
  intena := cpu.intena
  irq := if cpu.noff - 1 = 0 ∧ cpu.intena = true then true else cpu.irq

variable [DecidableEq P] [DecidableEq X] [DecidableEq C]

/-- The running code of CPU `c` moves on. -/
def IrqState.put (s : IrqState P X C) (c : C) (cpu : Cpu) (ctx : Ctx P X) : IrqState P X C :=
  { s with
    cpu := Function.update s.cpu c cpu
    ctx := Function.update s.ctx (s.running c) ctx }

/-- Only the code changes. -/
def IrqState.goto (s : IrqState P X C) (c : C) (code : List (Op P X)) : IrqState P X C :=
  s.put c (s.cpu c) { s.here c with code := code }

/-- Only the code and the mask bit change. -/
def IrqState.mask (s : IrqState P X C) (c : C) (irq : Bool) (code : List (Op P X)) :
    IrqState P X C :=
  s.put c { s.cpu c with irq := irq } { s.here c with code := code }

def IrqState.setLock (s : IrqState P X C) (lk : Lock P X) (owner : Option C) :
    IrqState P X C :=
  { s with lock := Function.update s.lock lk owner }

/-- One step of CPU `c`. -/
inductive IrqStep (s : IrqState P X C) (c : C) : IrqState P X C → Prop
  /-- The vector of the IRQ, which is taken at any point. -/
  | irq (enabled : (s.cpu c).irq = true) :
      IrqStep s c
        (s.mask c false
          (.body (s.here c).depth :: .resched :: .eret true :: (s.here c).code))
  /-- A synchronous exception, a system call or a fault. -/
  | exception {base : Nat} {rest : List (Op P X)} (at_ : (s.here c).code = .body base :: rest) :
      IrqStep s c
        (s.mask c false
          (.body (s.here c).depth :: .eret (s.cpu c).irq :: .body base :: rest))
  | bodyPush {base : Nat} {rest : List (Op P X)} (at_ : (s.here c).code = .body base :: rest) :
      IrqStep s c (s.goto c (pushOff ++ .body base :: rest))
  /-- Code pops what it has pushed. -/
  | bodyPop {base : Nat} {rest : List (Op P X)} (at_ : (s.here c).code = .body base :: rest)
      (paired : base < (s.here c).depth) : IrqStep s c (s.goto c (popOff ++ .body base :: rest))
  | bodyAcquire {base : Nat} {rest : List (Op P X)}
      (at_ : (s.here c).code = .body base :: rest) (lk : Lock P X)
      (paired : s.lock lk ≠ some c) : IrqStep s c (s.goto c (acquire lk ++ .body base :: rest))
  | bodyTry {base : Nat} {rest : List (Op P X)} (at_ : (s.here c).code = .body base :: rest)
      (lk : Lock P X) (paired : s.lock lk ≠ some c) :
      IrqStep s c (s.goto c (tryAcquire lk ++ .body base :: rest))
  /-- Code releases what it has acquired, in any order. -/
  | bodyRelease {base : Nat} {rest : List (Op P X)}
      (at_ : (s.here c).code = .body base :: rest) (lk : Lock P X)
      (holding : s.lock lk = some c) (paired : base < (s.here c).depth) :
      IrqStep s c (s.goto c (release lk ++ .body base :: rest))
  /-- `yield` is called with nothing held. -/
  | bodyYield {base : Nat} {rest : List (Op P X)} {p : P} (on : s.proc c = some p)
      (at_ : (s.here c).code = .body base :: rest) (paired : (s.here c).depth = 0) :
      IrqStep s c (s.goto c (yieldCode p ++ .body base :: rest))
  /-- `sleep` is called with its lock held and nothing else. -/
  | bodySleep {base : Nat} {rest : List (Op P X)} {p : P} (on : s.proc c = some p)
      (at_ : (s.here c).code = .body base :: rest) (lk : Lock P X)
      (holding : s.lock lk = some c) (paired : (s.here c).depth = 1) :
      IrqStep s c (s.goto c (sleepCode p lk ++ .body base :: rest))
  /-- `exit` is called with nothing held. -/
  | bodyExit {base : Nat} {rest : List (Op P X)} {p : P} (on : s.proc c = some p)
      (at_ : (s.here c).code = .body base :: rest) (paired : (s.here c).depth = 0) :
      IrqStep s c (s.goto c (exitCode p))
  /-- `usertrapret`: `forkret` enters user mode. -/
  | bodyUser {p : P} (on : s.proc c = some p) (at_ : (s.here c).code = [.body 0])
      (paired : (s.here c).depth = 0) :
      IrqStep s c (s.goto c [.disable, .eret true, .body 0])
  | bodyEnd {base : Nat} {rest : List (Op P X)} (at_ : (s.here c).code = .body base :: rest)
      (inner : rest ≠ []) (paired : (s.here c).depth = base) : IrqStep s c (s.goto c rest)
  | pushGet {rest : List (Op P X)} (at_ : (s.here c).code = .pushGet :: rest) :
      IrqStep s c (s.goto c (.pushCount (s.cpu c).irq :: rest))
  | pushCount {old : Bool} {rest : List (Op P X)}
      (at_ : (s.here c).code = .pushCount old :: rest) :
      IrqStep s c
        (s.put c ((s.cpu c).push old)
          ⟨rest, (s.here c).depth + 1, if (s.here c).depth = 0 then old else (s.here c).before⟩)
  | swap {lk : Lock P X} {rest : List (Op P X)} (at_ : (s.here c).code = .swap lk :: rest)
      (free : s.lock lk = none) : IrqStep s c ((s.goto c rest).setLock lk (some c))
  | trySwap {lk : Lock P X} {rest : List (Op P X)}
      (at_ : (s.here c).code = .trySwap lk :: rest) (free : s.lock lk = none) :
      IrqStep s c ((s.goto c rest).setLock lk (some c))
  | tryFail {lk : Lock P X} {rest : List (Op P X)}
      (at_ : (s.here c).code = .trySwap lk :: rest) (taken : s.lock lk ≠ none) :
      IrqStep s c (s.goto c (popOff ++ rest))
  | unlock {lk : Lock P X} {rest : List (Op P X)} (at_ : (s.here c).code = .unlock lk :: rest) :
      IrqStep s c ((s.goto c rest).setLock lk none)
  | pop {rest : List (Op P X)} (at_ : (s.here c).code = .pop :: rest) :
      IrqStep s c
        (s.put c (s.cpu c).pop { s.here c with code := rest, depth := (s.here c).depth - 1 })
  | sched {rest : List (Op P X)} {p : P} (on : s.proc c = some p)
      (at_ : (s.here c).code = .sched :: rest) :
      IrqStep s c
        { s.goto c (.schedRet (s.cpu c).intena :: rest) with
          proc := Function.update s.proc c none }
  | schedRet {intena : Bool} {rest : List (Op P X)}
      (at_ : (s.here c).code = .schedRet intena :: rest) :
      IrqStep s c
        (s.put c { s.cpu c with intena := intena } { s.here c with code := rest })
  | disable {rest : List (Op P X)} (at_ : (s.here c).code = .disable :: rest) :
      IrqStep s c (s.mask c false rest)
  | eret {irq : Bool} {rest : List (Op P X)} (at_ : (s.here c).code = .eret irq :: rest) :
      IrqStep s c (s.mask c irq rest)
  | noResched {rest : List (Op P X)} (at_ : (s.here c).code = .resched :: rest) :
      IrqStep s c (s.goto c rest)
  /-- `need_resched` is set and a thread was interrupted. -/
  | resched {rest : List (Op P X)} {p : P} (on : s.proc c = some p)
      (at_ : (s.here c).code = .resched :: rest) :
      IrqStep s c (s.goto c (yieldCode p ++ rest))
  | loop (at_ : (s.here c).code = [.loop]) : IrqStep s c (s.goto c loopCode)
  | enable {rest : List (Op P X)} (at_ : (s.here c).code = .enable :: rest) :
      IrqStep s c (s.mask c true rest)
  | idle (at_ : (s.here c).code = [.dequeued]) : IrqStep s c (s.goto c [.loop])
  | dequeued (at_ : (s.here c).code = [.dequeued]) (p : P) :
      IrqStep s c (s.goto c (acquire (.proc p) ++ [.check p]))
  | notRunnable {p : P} (at_ : (s.here c).code = [.check p]) :
      IrqStep s c (s.goto c (release (.proc p) ++ [.loop]))
  | runnable {p : P} (at_ : (s.here c).code = [.check p]) :
      IrqStep s c (s.goto c (dispatchCode p))
  /-- A process that is runnable under its lock runs nowhere, and has not exited. -/
  | swtch {p : P} {rest : List (Op P X)} (on : s.proc c = none)
      (at_ : (s.here c).code = .swtch p :: rest) (parked : ∀ d, s.proc d ≠ some p)
      (alive : ∀ intena, (s.ctx (.thread p)).code ≠ [.schedRet intena, .exited]) :
      IrqStep s c { s.goto c rest with proc := Function.update s.proc c (some p) }
  /-- The slot of a process that has exited gets a new one, anywhere. -/
  | create {p : P} {intena : Bool} (parked : ∀ d, s.proc d ≠ some p)
      (at_ : (s.ctx (.thread p)).code = [.schedRet intena, .exited]) :
      IrqStep s c
        { s with ctx := Function.update s.ctx (.thread p) ⟨forkretCode p, 1, true⟩ }

/-- States reached from boot under any interleaving. -/
def IrqReachable (s : IrqState P X C) : Prop :=
  TransitionSystem.Reachable (· = irqInit) (fun s s' => ∃ c, IrqStep s c s') s

end IrqMask

end Av6
