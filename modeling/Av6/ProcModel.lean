import Av6.TransitionSystem
import Mathlib.Data.List.Basic
import Mathlib.Logic.Function.Basic

/-!
# Processes, the scheduler, and exit and wait

`kern/proc.c` as a transition system over any number of CPUs and proc objects.  A CPU
is in its scheduler loop or runs the kernel thread of a process; every context keeps
its own position in the code, so that a thread continues where it was after a context
switch, on whichever CPU.

A step is one lock operation, one decision, or the accesses made under the locks held
at that point.  `runq_lock` and `pid_lock` are leaves around a single access, which is
atomic here; locks that belong to other files only restrict the interleavings further
and are left out.  Interrupts may call `wakeup`, and preempt by `yield`, wherever a
context holds no lock.
-/

namespace Av6

namespace Proc

inductive ProcState
  | unused
  | used
  | sleeping
  | runnable
  | running
  | zombie
  deriving DecidableEq

/-- What a process sleeps on: a process (in `wait`), or some other address. -/
inductive Chan (P : Type*)
  | proc (p : P)
  | other (addr : Nat)
  deriving DecidableEq

inductive Lock (P : Type*)
  | wait
  | ptable
  | proc (p : P)
  deriving DecidableEq

/-- `struct proc`, with the number of the process that the object currently is; the
number is not in the source and distinguishes the successive owners of an object. -/
structure ProcData (P : Type*) where
  state : ProcState
  chan : Option (Chan P)
  killed : Bool
  xstate : Int
  pid : Nat
  parent : Option P
  birth : Nat

/-- A call of `exit` that has taken effect. -/
structure ExitRecord where
  birth : Nat
  pid : Nat
  status : Int
  deriving DecidableEq

/-- What a successful `wait` returns: the exited child, and the caller with the
parent of the child at that time. -/
structure WaitRecord (P : Type*) where
  child : ExitRecord
  caller : P
  parent : Option P

/-- A position in the code of `proc.c`, of a thread or of a function called from the
scheduler's own context; `k` is where the function returns to. -/
inductive Code (P : Type*)
  /-- In none of the functions, and holding none of the locks. -/
  | body
  | forkret
  | yieldLocked (k : Code P)
  /-- Switched away in `yield`; once resumed, about to release `p->lock`. -/
  | yielded (k : Code P)
  | sleepLocked (chan : Chan P) (k : Code P)
  | sleepReleased (chan : Chan P) (k : Code P)
  | slept (k : Code P)
  | wakeEnter (chan : Chan P) (k : Code P)
  | wakeScan (chan : Chan P) (todo : List P) (k : Code P)
  | wakeLocked (chan : Chan P) (q : P) (todo : List P) (k : Code P)
  | wakeDone (chan : Chan P) (q : P) (todo : List P) (k : Code P)
  | exitEnter (status : Int)
  | exitLocked (status : Int)
  | exitScan (status : Int)
  | exitReparented (status : Int)
  /-- `initproc` has been woken. -/
  | exitWoke (status : Int)
  /-- The parent has been woken too. -/
  | exitReady (status : Int)
  | exitOwn (status : Int)
  | exitZombie
  | exitSched
  | dead
  | waitEnter (xstatus : Nat)
  | waitLoop (xstatus : Nat)
  | waitScan (xstatus : Nat) (todo : List P) (havekids : Bool)
  | waitLocked (xstatus : Nat) (np : P) (todo : List P)
  | waitCopyFailed (np : P)
  | waitFailed (np : P)
  | waitError
  | waitUnlinked (np : P) (result : WaitRecord P)
  | waitUnlocked (np : P) (result : WaitRecord P)
  | waitFree (np : P) (result : WaitRecord P)
  | waitFreed (result : WaitRecord P)
  | waitDecide (xstatus : Nat) (havekids : Bool)
  | waitKilled (xstatus : Nat)
  | waitSleep (xstatus : Nat)
  | killEnter (pid : Nat)
  | killFind (pid : Nat)
  | killMiss
  | killLocked (q : P)
  | killMarked (q : P)
  | killDone
  /-- `allocproc` has returned the private object `np`. -/
  | build (np : P)
  | forkPublish (np : P)
  | activate (np : P) (parent : Option P) (k : Code P)
  | activatePtable (np : P) (parent : Option P) (k : Code P)
  | activateLocked (np : P) (parent : Option P) (k : Code P)
  | activated (np : P) (k : Code P)
  | activateDone (k : Code P)
  | forkDone (pid : Nat)

/-- No lock is held, and an interrupt can be taken. -/
def Code.interruptible {P : Type*} : Code P → Bool
  | body | waitEnter _ | exitEnter _ | killEnter _ | build _ | forkPublish _ => true
  | wakeEnter _ k => k.interruptible
  | activate _ none body => true
  | _ => false

/-- Where a CPU is in `scheduler`. -/
inductive CpuPc (P : Type*)
  /-- Still in `main`, before it calls `scheduler`. -/
  | boot
  | loop
  | dequeued (p : P)
  /-- `p->lock` acquired, `p->state` not tested yet. -/
  | dispatching (p : P)
  /-- Inside `swtch`: the CPU is on the stack of `p`. -/
  | running (p : P)
  | switchedBack (p : P)
  /-- `c->proc` is reset and `p` is back on `runq` if it is runnable. -/
  | requeued (p : P)

/-- A context that executes code: the own one of a CPU, or the thread of a process. -/
inductive Context (ncpus : Nat) (P : Type*)
  | sched (c : Fin ncpus)
  | thread (p : P)
  deriving DecidableEq

/-- The variables of `proc.c`, `c->proc` and the position of every CPU, the position
of every context, and the value that each thread last got from one of the functions.
`births`, `exits` and `returns` record the history. -/
structure SchedState (ncpus : Nat) (P : Type*) where
  proc : P → ProcData P
  allocated : P → Bool
  allproc : List P
  pidhash : Nat → List P
  pidmap : Nat → Bool
  runq : List P
  initproc : Option P
  locks : Lock P → Option (Fin ncpus)
  current : Fin ncpus → Option P
  cpu : Fin ncpus → CpuPc P
  code : Context ncpus P → Code P
  result : P → Int
  births : Nat
  exits : List ExitRecord
  returns : List (WaitRecord P)

def pidhashBuckets : Nat := 64

variable {ncpus : Nat} {P : Type*}

/-- After `procinit`, with CPU 0 in `main` and the others in `scheduler`. -/
def procInit (ncpus : Nat) (P : Type*) : SchedState ncpus P where
  proc _ := ⟨.unused, none, false, 0, 0, none, 0⟩
  allocated _ := false
  allproc := []
  pidhash _ := []
  pidmap pid := pid == 0
  runq := []
  initproc := none
  locks _ := none
  current _ := none
  cpu c := if c.val = 0 then .boot else .loop
  code
    | .sched _ => .body
    | .thread _ => .dead
  result _ := 0
  births := 0
  exits := []
  returns := []

/-- `pid_alloc` -/
def pidAlloc (nslots : Nat) (pidmap : Nat → Bool) : Option Nat :=
  (List.range nslots).find? fun pid => !pidmap pid

/-- `pid_lookup` -/
def pidLookup (s : SchedState ncpus P) (pid : Nat) : Option P :=
  (s.pidhash (pid % pidhashBuckets)).find? fun p => (s.proc p).pid == pid

/-- The context that a CPU executes, unless it is in the part of `scheduler` with
`p->lock` held. -/
def SchedState.context (s : SchedState ncpus P) (c : Fin ncpus) :
    Option (Context ncpus P) :=
  match s.cpu c with
  | .running p => some (.thread p)
  | .boot | .loop | .dequeued _ => some (.sched c)
  | .dispatching _ | .switchedBack _ | .requeued _ => none

variable [DecidableEq P]

def SchedState.goto (s : SchedState ncpus P) (x : Context ncpus P) (k : Code P) :
    SchedState ncpus P :=
  { s with code := Function.update s.code x k }

def SchedState.setLock (s : SchedState ncpus P) (l : Lock P) (owner : Option (Fin ncpus)) :
    SchedState ncpus P :=
  { s with locks := Function.update s.locks l owner }

def SchedState.setProc (s : SchedState ncpus P) (p : P) (f : ProcData P → ProcData P) :
    SchedState ncpus P :=
  { s with proc := Function.update s.proc p (f (s.proc p)) }

def SchedState.setCpu (s : SchedState ncpus P) (c : Fin ncpus) (pc : CpuPc P) :
    SchedState ncpus P :=
  { s with cpu := Function.update s.cpu c pc }

def SchedState.setCurrent (s : SchedState ncpus P) (c : Fin ncpus) (p : Option P) :
    SchedState ncpus P :=
  { s with current := Function.update s.current c p }

def SchedState.setResult (s : SchedState ncpus P) (p : P) (value : Int) :
    SchedState ncpus P :=
  { s with result := Function.update s.result p value }

/-- `runq_enqueue` -/
def SchedState.enqueue (s : SchedState ncpus P) (p : P) : SchedState ncpus P :=
  { s with runq := s.runq ++ [p] }

/-- Make a sleeper runnable and enqueue it, as `wakeup` and `kill` do. -/
def SchedState.rouse (s : SchedState ncpus P) (q : P) : SchedState ncpus P :=
  (s.setProc q fun proc => { proc with state := .runnable }).enqueue q

/-- `allocproc` on the object `np` with the pid `pid`. -/
def allocproc (s : SchedState ncpus P) (np : P) (pid : Nat) : SchedState ncpus P :=
  { s with
    proc := Function.update s.proc np ⟨.used, none, false, 0, pid, none, s.births⟩
    allocated := Function.update s.allocated np true
    pidmap := Function.update s.pidmap pid true
    code := Function.update s.code (.thread np) .forkret
    births := s.births + 1 }

/-- `freeproc`, as far as the tables of this file go. -/
def freeproc (s : SchedState ncpus P) (np : P) : SchedState ncpus P :=
  { s with
    allocated := Function.update s.allocated np false
    pidmap := Function.update s.pidmap (s.proc np).pid false }

/-- The insertions of `proc_activate`, and the child becomes runnable. -/
def procActivate (s : SchedState ncpus P) (np : P) (parent : Option P) :
    SchedState ncpus P :=
  let bucket := (s.proc np).pid % pidhashBuckets
  { s with
    allproc := np :: s.allproc
    pidhash := Function.update s.pidhash bucket (np :: s.pidhash bucket)
    proc := Function.update s.proc np
      { s.proc np with state := .runnable, parent := parent.or (s.proc np).parent }
    runq := s.runq ++ [np] }

/-- `LIST_REMOVE` of `np` from `allproc` and from its bucket. -/
def unlink (s : SchedState ncpus P) (np : P) : SchedState ncpus P :=
  let bucket := (s.proc np).pid % pidhashBuckets
  { s with
    allproc := s.allproc.erase np
    pidhash := Function.update s.pidhash bucket ((s.pidhash bucket).erase np) }

/-- The loop of `exit` that hands the children of `p` to `initproc`. -/
def reparent (s : SchedState ncpus P) (p : P) : SchedState ncpus P :=
  { s with
    proc := fun q =>
      if q ∈ s.allproc ∧ (s.proc q).parent = some p then
        { s.proc q with parent := s.initproc }
      else s.proc q }

/-- The end of `exit`: the status is stored and the process is a zombie. -/
def becomeZombie (s : SchedState ncpus P) (p : P) (status : Int) : SchedState ncpus P :=
  { s.setProc p fun proc => { proc with xstate := status, state := .zombie } with
    exits := ⟨(s.proc p).birth, (s.proc p).pid, status⟩ :: s.exits }

section Control

variable (s : SchedState ncpus P) (self : Option P)

/-- `Acquires k l k'`: at `k` the code acquires `l` and is then at `k'`; `self` is
`myproc()`. -/
inductive Acquires : Code P → Lock P → Code P → Prop
  | yield {k p} (mine : self = some p) (open_ : k.interruptible = true) :
      Acquires k (.proc p) (.yieldLocked k)
  | sleep {p} (addr) (mine : self = some p) :
      Acquires .body (.proc p) (.sleepReleased (.other addr) .body)
  | waitSleep {x p} (mine : self = some p) :
      Acquires (.waitSleep x) (.proc p) (.sleepLocked (.proc p) (.waitEnter x))
  | wakeEnter {chan k} :
      Acquires (.wakeEnter chan k) .ptable (.wakeScan chan s.allproc k)
  | wakeScan {chan q todo k} (other : self ≠ some q) :
      Acquires (.wakeScan chan (q :: todo) k) (.proc q) (.wakeLocked chan q todo k)
  | exitEnter {st} : Acquires (.exitEnter st) .wait (.exitLocked st)
  | exitLocked {st} : Acquires (.exitLocked st) .ptable (.exitScan st)
  | exitReady {st p} (mine : self = some p) :
      Acquires (.exitReady st) (.proc p) (.exitOwn st)
  | waitEnter {x} : Acquires (.waitEnter x) .wait (.waitLoop x)
  | waitLoop {x} : Acquires (.waitLoop x) .ptable (.waitScan x s.allproc false)
  | waitScan {x np todo havekids p} (mine : self = some p)
      (child : (s.proc np).parent = some p) :
      Acquires (.waitScan x (np :: todo) havekids) (.proc np) (.waitLocked x np todo)
  | waitDecide {x p} (mine : self = some p) :
      Acquires (.waitDecide x true) (.proc p) (.waitKilled x)
  | killEnter {pid} : Acquires (.killEnter pid) .ptable (.killFind pid)
  | killFind {pid q} (found : pidLookup s pid = some q) :
      Acquires (.killFind pid) (.proc q) (.killLocked q)
  | forkPublish {np p} (mine : self = some p) :
      Acquires (.forkPublish np) .wait (.activate np (some p) (.forkDone (s.proc np).pid))
  | activate {np parent k} :
      Acquires (.activate np parent k) .ptable (.activatePtable np parent k)
  | activatePtable {np parent k} :
      Acquires (.activatePtable np parent k) (.proc np) (.activateLocked np parent k)

/-- `Releases k l k'`: at `k` the code releases `l` and is then at `k'`. -/
inductive Releases : Code P → Lock P → Code P → Prop
  | forkret {p} (mine : self = some p) : Releases .forkret (.proc p) .body
  | yielded {k p} (mine : self = some p) : Releases (.yielded k) (.proc p) k
  | sleepLocked {chan k} :
      Releases (.sleepLocked chan k) .wait (.sleepReleased chan k)
  | wakeDone {chan q todo k} :
      Releases (.wakeDone chan q todo k) (.proc q) (.wakeScan chan todo k)
  | wakeScan {chan k} : Releases (.wakeScan chan [] k) .ptable k
  | exitReparented {st init} (known : s.initproc = some init) :
      Releases (.exitReparented st) .ptable (.wakeEnter (.proc init) (.exitWoke st))
  | exitZombie : Releases .exitZombie .wait .exitSched
  | waitLocked {x np todo} (alive : (s.proc np).state ≠ .zombie) :
      Releases (.waitLocked x np todo) (.proc np) (.waitScan x todo true)
  | waitScan {x havekids} : Releases (.waitScan x [] havekids) .ptable (.waitDecide x havekids)
  | waitCopyFailed {np} : Releases (.waitCopyFailed np) (.proc np) (.waitFailed np)
  | waitFailed {np} : Releases (.waitFailed np) .ptable .waitError
  | waitUnlinked {np result} :
      Releases (.waitUnlinked np result) (.proc np) (.waitUnlocked np result)
  | waitUnlocked {np result} :
      Releases (.waitUnlocked np result) .ptable (.waitFree np result)
  | waitKilled {x p} (mine : self = some p) :
      Releases (.waitKilled x) (.proc p)
        (if (s.proc p).killed then .waitError else .waitSleep x)
  | killMarked {q} : Releases (.killMarked q) (.proc q) .killDone
  | activated {np k} : Releases (.activated np k) (.proc np) (.activateDone k)
  | activateDone {k} : Releases (.activateDone k) .ptable k

/-- Calls and decisions that touch nothing. -/
inductive Jumps : Code P → Code P → Prop
  | callWakeup {k} (addr) (open_ : k.interruptible = true) :
      Jumps k (.wakeEnter (.other addr) k)
  | callExit {p init} (st) (mine : self = some p) (known : s.initproc = some init)
      (mortal : p ≠ init) : Jumps .body (.exitEnter st)
  | callWait {p} (x) (mine : self = some p) : Jumps .body (.waitEnter x)
  | callKill {p} (pid) (mine : self = some p) : Jumps .body (.killEnter pid)
  | wakeSelf {chan q todo k} (mine : self = some q) :
      Jumps (.wakeScan chan (q :: todo) k) (.wakeScan chan todo k)
  | exitNoParent {st p} (mine : self = some p)
      (woken : (s.proc p).parent = none ∨ (s.proc p).parent = s.initproc) :
      Jumps (.exitWoke st) (.exitReady st)
  | exitParent {st p parent} (mine : self = some p)
      (other : (s.proc p).parent = some parent) (notInit : s.initproc ≠ some parent) :
      Jumps (.exitWoke st) (.wakeEnter (.proc parent) (.exitReady st))
  | waitSkip {x np todo havekids} (other : (s.proc np).parent ≠ self) :
      Jumps (.waitScan x (np :: todo) havekids) (.waitScan x todo havekids)
  | waitNoKids {x} : Jumps (.waitDecide x false) .waitError
  /-- `copyout` returns a negative value. -/
  | waitCopyout {x np todo} (exited : (s.proc np).state = .zombie) (pointer : x ≠ 0) :
      Jumps (.waitLocked x np todo) (.waitCopyFailed np)
  | killMissed {pid} (missing : pidLookup s pid = none) : Jumps (.killFind pid) .killMiss
  /-- `fork` has copied the address space. -/
  | forkBuilt {np p} (mine : self = some p) : Jumps (.build np) (.forkPublish np)
  /-- `kthread_add` has set the entry point. -/
  | kthreadBuilt {np} : Jumps (.build np) (.activate np none .body)

end Control

/-- Returns from a function: the lock released last, and the value. -/
inductive Returns : Code P → Lock P → Int → Prop
  | waitError : Returns .waitError .wait (-1)
  | killMiss : Returns .killMiss .ptable (-1)
  | killDone : Returns .killDone .ptable 0
  | forkDone {pid : Nat} : Returns (.forkDone pid) .wait pid

/-- One step of the CPU `c`. -/
inductive SchedStep (nslots : Nat) (s : SchedState ncpus P) (c : Fin ncpus) :
    SchedState ncpus P → Prop
  | acquire {x k l k'} (on : s.context c = some x) (at_ : s.code x = k)
      (next : Acquires s (s.current c) k l k') (free : s.locks l = none) :
      SchedStep nslots s c ((s.setLock l (some c)).goto x k')
  | release {x k l k'} (on : s.context c = some x) (at_ : s.code x = k)
      (next : Releases s (s.current c) k l k') :
      SchedStep nslots s c ((s.setLock l none).goto x k')
  | jump {x k k'} (on : s.context c = some x) (at_ : s.code x = k)
      (next : Jumps s (s.current c) k k') : SchedStep nslots s c (s.goto x k')
  | finish {p k l value} (on : s.cpu c = .running p) (at_ : s.code (.thread p) = k)
      (next : Returns k l value) :
      SchedStep nslots s c (((s.setLock l none).setResult p value).goto (.thread p) .body)
  | enterScheduler (on : s.cpu c = .boot) (at_ : s.code (.sched c) = .body) :
      SchedStep nslots s c (s.setCpu c .loop)
  | dequeue {p rest} (on : s.cpu c = .loop) (at_ : s.code (.sched c) = .body)
      (first : s.runq = p :: rest) :
      SchedStep nslots s c ({ s with runq := rest }.setCpu c (.dequeued p))
  | lockProc {p} (on : s.cpu c = .dequeued p) (at_ : s.code (.sched c) = .body)
      (free : s.locks (.proc p) = none) :
      SchedStep nslots s c ((s.setLock (.proc p) (some c)).setCpu c (.dispatching p))
  /-- The defensive branch. -/
  | refuse {p} (on : s.cpu c = .dispatching p) (state : (s.proc p).state ≠ .runnable) :
      SchedStep nslots s c ((s.setLock (.proc p) none).setCpu c .loop)
  | dispatch {p} (on : s.cpu c = .dispatching p) (state : (s.proc p).state = .runnable) :
      SchedStep nslots s c
        (((s.setProc p fun proc => { proc with state := .running }).setCurrent c
          (some p)).setCpu c (.running p))
  | swtchYield {p k} (on : s.cpu c = .running p)
      (at_ : s.code (.thread p) = .yieldLocked k) :
      SchedStep nslots s c
        (((s.setProc p fun proc => { proc with state := .runnable }).goto (.thread p)
          (.yielded k)).setCpu c (.switchedBack p))
  | swtchSleep {p chan k} (on : s.cpu c = .running p)
      (at_ : s.code (.thread p) = .sleepReleased chan k) :
      SchedStep nslots s c
        (((s.setProc p fun proc => { proc with chan := some chan, state := .sleeping }).goto
          (.thread p) (.slept k)).setCpu c (.switchedBack p))
  | swtchExit {p} (on : s.cpu c = .running p) (at_ : s.code (.thread p) = .exitSched) :
      SchedStep nslots s c ((s.goto (.thread p) .dead).setCpu c (.switchedBack p))
  | requeue {p} (on : s.cpu c = .switchedBack p) :
      SchedStep nslots s c
        (((if (s.proc p).state = .runnable then s.enqueue p else s).setCurrent c none).setCpu
          c (.requeued p))
  | unlockProc {p} (on : s.cpu c = .requeued p) :
      SchedStep nslots s c ((s.setLock (.proc p) none).setCpu c .loop)
  | awake {p k} (on : s.cpu c = .running p) (at_ : s.code (.thread p) = .slept k) :
      SchedStep nslots s c
        (((s.setProc p fun proc => { proc with chan := none }).setLock (.proc p) none).goto
          (.thread p) k)
  | rouse {x chan q todo k} (on : s.context c = some x)
      (at_ : s.code x = .wakeLocked chan q todo k)
      (asleep : (s.proc q).state = .sleeping ∧ (s.proc q).chan = some chan) :
      SchedStep nslots s c ((s.rouse q).goto x (.wakeDone chan q todo k))
  | passOver {x chan q todo k} (on : s.context c = some x)
      (at_ : s.code x = .wakeLocked chan q todo k)
      (awake : ¬ ((s.proc q).state = .sleeping ∧ (s.proc q).chan = some chan)) :
      SchedStep nslots s c (s.goto x (.wakeDone chan q todo k))
  | kill {p q} (on : s.cpu c = .running p) (at_ : s.code (.thread p) = .killLocked q) :
      SchedStep nslots s c
        (((if (s.proc q).state = .sleeping then s.rouse q else s).setProc q fun proc =>
          { proc with killed := true }).goto (.thread p) (.killMarked q))
  | reparent {p st} (on : s.cpu c = .running p) (at_ : s.code (.thread p) = .exitScan st) :
      SchedStep nslots s c ((reparent s p).goto (.thread p) (.exitReparented st))
  | becomeZombie {p st} (on : s.cpu c = .running p)
      (at_ : s.code (.thread p) = .exitOwn st) :
      SchedStep nslots s c ((becomeZombie s p st).goto (.thread p) .exitZombie)
  /-- The status has been copied out, or there is no pointer to copy it to. -/
  | unlink {p x np todo} (on : s.cpu c = .running p)
      (at_ : s.code (.thread p) = .waitLocked x np todo)
      (exited : (s.proc np).state = .zombie) :
      SchedStep nslots s c
        ((unlink s np).goto (.thread p)
          (.waitUnlinked np
            ⟨⟨(s.proc np).birth, (s.proc np).pid, (s.proc np).xstate⟩, p,
              (s.proc np).parent⟩))
  | freeproc {p np result} (on : s.cpu c = .running p)
      (at_ : s.code (.thread p) = .waitFree np result) :
      SchedStep nslots s c ((freeproc s np).goto (.thread p) (.waitFreed result))
  | waitReturn {p result} (on : s.cpu c = .running p)
      (at_ : s.code (.thread p) = .waitFreed result) :
      SchedStep nslots s c
        (({ s with returns := result :: s.returns }.setLock .wait none).setResult p
          result.child.pid |>.goto (.thread p) .body)
  | allocproc {x np pid} (on : s.context c = some x) (at_ : s.code x = .body)
      (notScheduler : s.cpu c = .boot ∨ ∃ p, s.cpu c = .running p)
      (object : s.allocated np = false) (number : pidAlloc nslots s.pidmap = some pid) :
      SchedStep nslots s c ((allocproc s np pid).goto x (.build np))
  /-- `fork` fails after `allocproc`. -/
  | abandon {p np} (on : s.cpu c = .running p) (at_ : s.code (.thread p) = .build np) :
      SchedStep nslots s c (((freeproc s np).setResult p (-1)).goto (.thread p) .body)
  | userinit {np} (on : s.cpu c = .boot) (at_ : s.code (.sched c) = .build np)
      (first : s.initproc = none) :
      SchedStep nslots s c
        ({ s with initproc := some np }.goto (.sched c) (.activate np none .body))
  | procActivate {x np parent k} (on : s.context c = some x)
      (at_ : s.code x = .activateLocked np parent k) :
      SchedStep nslots s c ((procActivate s np parent).goto x (.activated np k))

/-- States reached from boot under any interleaving. -/
def SchedReachable (nslots : Nat) (s : SchedState ncpus P) : Prop :=
  TransitionSystem.Reachable (· = procInit ncpus P)
    (fun s t => ∃ c, SchedStep nslots s c t) s

end Proc

end Av6
