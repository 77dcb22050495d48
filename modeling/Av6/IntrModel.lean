import Av6.HandoffCycle
import Av6.ProcThreads

/-!
# Threaded interrupts

`trap_irq` of `arch/trap.c` and `kern/intr.c` on top of the processes of `kern/proc.c`.  A CPU
takes an interrupt wherever the code that it runs holds no lock; the handler of the interrupt runs
with IRQs masked, up to its preemption point.  The thread of a source is a kernel thread that runs
`ithread_loop`.  A handler can call `wakeup` and be preempted, as `console_intr` can, but it does
not sleep.  The GIC delivers a source only while it is not active, and acknowledging makes it
active.
-/

namespace Av6

namespace Intr

open HandoffCycle Proc

/-- What a filter returns. -/
inductive Filter
  | stray
  | handled
  | scheduleThread
  deriving DecidableEq

/-- Where a CPU is in `trap_irq`, with the interrupt that it handles. -/
inductive IrqPc (P I : Type*)
  | none
  /-- `gic_acknwlg` has returned the interrupt. -/
  | acked (irq : I)
  | filtered (irq : I) (res : Filter)
  /-- `ithread_lock` is held, before and after `src->pending = 1`. -/
  | locked (irq : I)
  | marked (irq : I)
  /-- In `wakeup(src)`, which returns to the code `k`. -/
  | waking (irq : I) (k : Code P)
  /-- `intr_dispatch` has returned. -/
  | dispatched (irq : I) (res : Filter)
  /-- At the preemption point. -/
  | resched

/-- Where the thread of a source is in `ithread_loop`. -/
inductive LoopPc
  | enter
  /-- `ithread_lock` is held, at the test of `src->pending`. -/
  | test
  /-- In `sleep`, with both locks. -/
  | sleepLocked
  /-- In `sleep`, without `ithread_lock`, until it is acquired again. -/
  | asleep
  /-- `src->pending` has been reset under `ithread_lock`. -/
  | claimed
  | released
  | handling
  | handled
  deriving DecidableEq

/-- Who has `ithread_lock`. -/
inductive Holder (ncpus : Nat) (P : Type*)
  | thread (p : P)
  | irq (c : Fin ncpus)

/-- `struct intr_src`, without its constant fields, and the active state of the GIC; `trace` is
the history of the source. -/
structure Source where
  registered : Bool
  count : BitVec 64
  stray : BitVec 64
  pending : Bool
  active : Bool
  trace : List Event

/-- The processes, the sources, the position of every CPU in `trap_irq`, and the source (`isrc`)
and the position of the interrupt threads. -/
structure IntrState (ncpus : Nat) (P I : Type*) where
  sched : SchedState ncpus P
  src : I → Source
  ithreadLock : Option (Holder ncpus P)
  irq : Fin ncpus → IrqPc P I
  isrc : P → Option I
  loop : P → LoopPc

variable {ncpus : Nat} {P I : Type*}

/-- The sources have been registered, in any run of `proc.c`: their threads, one for each source,
have been published and have not run yet. -/
structure Booted (nslots : Nat) [DecidableEq P] (s : IntrState ncpus P I) : Prop where
  sched : SchedReachable nslots s.sched
  src : ∀ i, (s.src i).pending = false ∧ (s.src i).active = false ∧ (s.src i).trace = []
  lock : s.ithreadLock = none
  irq : ∀ c, s.irq c = .none
  isrc : ∀ p q i, s.isrc p = some i → s.isrc q = some i → p = q
  ithread : ∀ p i, s.isrc p = some i → s.loop p = .enter ∧
    s.sched.code (.thread p) = .forkret ∧ Alive (s.sched.proc p).state

/-- Whether the thread of a source can take a step of `proc.c` from `k` to `k'`: inside `sleep` and
after a preemption, and from the handler also into `wakeup`. -/
def LoopPc.Lets : LoopPc → Code P → Code P → Prop
  | .enter, k, _ | .asleep, k, _ | .released, k, _ | .handled, k, _ => k ≠ .body
  | .handling, k, k' => k = .body → ∃ addr, k' = .wakeEnter (.other addr) k
  | _, _, _ => False

/-- Whether the thread holds `ithread_lock`. -/
def LoopPc.locked : LoopPc → Bool
  | .test | .sleepLocked | .claimed => true
  | _ => false

variable [DecidableEq P] [DecidableEq I]

def IntrState.setSrc (s : IntrState ncpus P I) (i : I) (f : Source → Source) :
    IntrState ncpus P I :=
  { s with src := Function.update s.src i (f (s.src i)) }

def IntrState.setIrq (s : IntrState ncpus P I) (c : Fin ncpus) (pc : IrqPc P I) :
    IntrState ncpus P I :=
  { s with irq := Function.update s.irq c pc }

def IntrState.goto (s : IntrState ncpus P I) (p : P) (pc : LoopPc) : IntrState ncpus P I :=
  { s with loop := Function.update s.loop p pc }

def Source.log (src : Source) (event : Event) : Source :=
  { src with trace := src.trace ++ [event] }

/-- The thread of `i` runs on `c` in `ithread_loop`, outside `proc.c` and not interrupted. -/
structure IntrState.At (s : IntrState ncpus P I) (c : Fin ncpus) (p : P) (i : I) (pc : LoopPc) :
    Prop where
  on : s.sched.cpu c = .running p
  body : s.sched.code (.thread p) = .body
  clear : s.irq c = .none
  isrc : s.isrc p = some i
  loop : s.loop p = pc

/-- One step of the CPU `c`; `addr` gives the addresses of the sources. -/
inductive IntrStep (nslots : Nat) (addr : I → Nat) (s : IntrState ncpus P I) (c : Fin ncpus) :
    IntrState ncpus P I → Prop
  | proc {t : SchedState ncpus P} (stepped : SchedStep nslots s.sched c t)
      (clear : s.irq c = .none)
      (lets : ∀ p i, s.sched.cpu c = .running p → s.isrc p = some i →
        (s.loop p).Lets (s.sched.code (.thread p)) (t.code (.thread p))) :
      IntrStep nslots addr s c { s with sched := t }
  | ack {x : Context ncpus P} (i : I) (on : s.sched.context c = some x)
      (open_ : (s.sched.code x).interruptible = true) (clear : s.irq c = .none)
      (unlocked : ∀ p, x = .thread p → s.isrc p ≠ none → (s.loop p).locked = false)
      (inactive : (s.src i).active = false) :
      IntrStep nslots addr s c
        ((s.setSrc i fun src => { src with active := true }.log .dispatch).setIrq c (.acked i))
  | unexpected {i : I} (at_ : s.irq c = .acked i) (unknown : (s.src i).registered = false) :
      IntrStep nslots addr s c (s.setIrq c (.dispatched i .stray))
  | filter {i : I} (res : Filter) (at_ : s.irq c = .acked i)
      (registered : (s.src i).registered = true) :
      IntrStep nslots addr s c
        ((s.setSrc i fun src => { src with count := src.count + 1 }).setIrq c (.filtered i res))
  | handled {i : I} (at_ : s.irq c = .filtered i .handled) :
      IntrStep nslots addr s c (s.setIrq c (.dispatched i .handled))
  | stray {i : I} (at_ : s.irq c = .filtered i .stray) :
      IntrStep nslots addr s c
        ((s.setSrc i fun src => { src with stray := src.stray + 1 }).setIrq c
          (.dispatched i .stray))
  | lock {i : I} (at_ : s.irq c = .filtered i .scheduleThread) (free : s.ithreadLock = none) :
      IntrStep nslots addr s c ({ s with ithreadLock := some (.irq c) }.setIrq c (.locked i))
  | mark {i : I} (at_ : s.irq c = .locked i) :
      IntrStep nslots addr s c
        ((s.setSrc i fun src => { src with pending := true }.log .schedule).setIrq c (.marked i))
  /-- `ithread_lock` is released and `wakeup(src)` is called. -/
  | wakeup {x : Context ncpus P} {i : I} (on : s.sched.context c = some x)
      (at_ : s.irq c = .marked i) :
      IntrStep nslots addr s c
        ({ s with
          sched := s.sched.goto x (.wakeEnter (.other (addr i)) (s.sched.code x))
          ithreadLock := none }.setIrq c (.waking i (s.sched.code x)))
  | waking {x : Context ncpus P} {i : I} {k : Code P} {t : SchedState ncpus P}
      (on : s.sched.context c = some x) (at_ : s.irq c = .waking i k)
      (inside : s.sched.code x ≠ k) (stepped : SchedStep nslots s.sched c t)
      (masked : ¬ Interrupts (s.sched.code x) (t.code x)) :
      IntrStep nslots addr s c { s with sched := t }
  | woken {x : Context ncpus P} {i : I} {k : Code P} (on : s.sched.context c = some x)
      (at_ : s.irq c = .waking i k) (back : s.sched.code x = k) :
      IntrStep nslots addr s c (s.setIrq c (.dispatched i .scheduleThread))
  /-- `gic_eoi`, which leaves the interrupt active, and `gic_deactivate`. -/
  | deactivate {i : I} {res : Filter} (at_ : s.irq c = .dispatched i res)
      (own : res ≠ .scheduleThread) :
      IntrStep nslots addr s c
        ((s.setSrc i fun src => { src with active := false }.log .deactivate).setIrq c .resched)
  | handedOver {i : I} (at_ : s.irq c = .dispatched i .scheduleThread) :
      IntrStep nslots addr s c (s.setIrq c .resched)
  | irqReturn (at_ : s.irq c = .resched) : IntrStep nslots addr s c (s.setIrq c .none)
  | yield {p : P} (at_ : s.irq c = .resched) (on : s.sched.cpu c = .running p)
      (free : s.sched.locks (.proc p) = none) :
      IntrStep nslots addr s c
        ({ s with
          sched := (s.sched.setLock (.proc p) (some c)).goto (.thread p)
            (.yieldLocked (s.sched.code (.thread p))) }.setIrq c .none)
  | loopLock {p : P} {i : I} (at_ : s.At c p i .enter ∨ s.At c p i .asleep)
      (free : s.ithreadLock = none) :
      IntrStep nslots addr s c ({ s with ithreadLock := some (.thread p) }.goto p .test)
  | sleep {p : P} {i : I} (at_ : s.At c p i .test) (nothing : (s.src i).pending = false)
      (free : s.sched.locks (.proc p) = none) :
      IntrStep nslots addr s c
        ({ s with
          sched := (s.sched.setLock (.proc p) (some c)).goto (.thread p)
            (.sleepReleased (.other (addr i)) .body) }.goto p .sleepLocked)
  | sleepUnlock {p : P} {i : I} (on : s.sched.cpu c = .running p) (clear : s.irq c = .none)
      (isrc : s.isrc p = some i) (at_ : s.loop p = .sleepLocked) :
      IntrStep nslots addr s c ({ s with ithreadLock := none }.goto p .asleep)
  | claim {p : P} {i : I} (at_ : s.At c p i .test) (work : (s.src i).pending = true) :
      IntrStep nslots addr s c
        ((s.setSrc i fun src => { src with pending := false }).goto p .claimed)
  | loopUnlock {p : P} {i : I} (at_ : s.At c p i .claimed) :
      IntrStep nslots addr s c ({ s with ithreadLock := none }.goto p .released)
  | start {p : P} {i : I} (at_ : s.At c p i .released) :
      IntrStep nslots addr s c ((s.setSrc i fun src => src.log .start).goto p .handling)
  | finish {p : P} {i : I} (at_ : s.At c p i .handling) :
      IntrStep nslots addr s c ((s.setSrc i fun src => src.log .finish).goto p .handled)
  | gicDeactivate {p : P} {i : I} (at_ : s.At c p i .handled) :
      IntrStep nslots addr s c
        ((s.setSrc i fun src => { src with active := false }.log .deactivate).goto p .enter)

/-- States reached under any interleaving. -/
def IntrReachable (nslots : Nat) (addr : I → Nat) (s : IntrState ncpus P I) : Prop :=
  TransitionSystem.Reachable (Booted nslots) (fun s t => ∃ c, IntrStep nslots addr s c t) s

/-- A dispatch of the source is in progress on the CPU. -/
def IrqPc.handles (i : I) : IrqPc P I → Prop
  | .acked j | .filtered j _ | .locked j | .marked j | .waking j _ | .dispatched j _ => j = i
  | .none | .resched => False

end Intr

end Av6
