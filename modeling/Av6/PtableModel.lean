import Av6.IdAllocator

/-!
# The process table under any interleaving

Creations and releases of processes by any number of threads, on the bitmaps and the lists of
`kern/proc.c`.  A step is what one of `pid_lock`, `kstack_lock` and `ptable_lock` is held over, or
what a thread does to an object that no other has; between two steps the three locks are free.
Calls of the allocators of memory may fail at any time.  An object of `proc_cache` is one that
nobody has.
-/

namespace Av6

namespace Ptable

open Fork Bitstring Pmap

/-- `LIST_REMOVE` of `np` from `allproc` and from the bucket that it is in. -/
def unlink (np : Nat) : Kern Unit :=
  modify fun s => { s with
    allproc := s.allproc.erase np
    pidhash := fun bucket => (s.pidhash bucket).erase np }

/-- `pid & (PIDHASH_BUCKETS - 1)` of an `int` -/
def pidBucket (pid : Int) : Nat := (pid % PIDHASH_BUCKETS).toNat

/-- `pid_lookup` -/
def pidLookup (s : Kernel) (pid : Int) : Option Nat :=
  (s.pidhash (pidBucket pid)).find? fun p => (s.procs p).pid = pid

/-- `kill` -/
def kill (pid : Int) : Kern Int := do
  let s ← get
  match pidLookup s pid with
  | none => return -1
  | some p => do
      if (s.procs p).state = .sleeping then do
        setProc p ({ · with killed := 1, state := .runnable })
        modify fun s => { s with runq := s.runq ++ [p] }
        return 0
      else do
        setProc p ({ · with killed := 1 })
        return 0

/-- The loop of `exit` that hands the children of `p` to `initproc`. -/
def reparent (p initproc : Nat) : Kern Unit :=
  modify fun s => { s with
    procs := fun child =>
      if child ∈ s.allproc ∧ (s.procs child).parent = some p then
        { s.procs child with parent := some initproc }
      else s.procs child }

/-- The end of `exit`. -/
def becomeZombie (p : Nat) (status : Int) : Kern Unit :=
  setProc p ({ · with xstate := status, state := .zombie })

/-- Where a thread is in `allproc` or behind it, or in `freeproc`. -/
inductive Task
  | idle
  /-- `pid_alloc` has returned a pid. -/
  | pid (pid : Nat)
  | slot (pid slot : Nat)
  | stack (pid slot : Nat) (kstack : {kstack : Nat // kstack ≠ 0})
  /-- There is no stack, or none any more; the slot is given back next. -/
  | noStack (pid slot : Nat)
  /-- There is no slot, or none any more; the pid is given back next. -/
  | noSlot (pid : Nat)
  /-- The object is private, until it is published or given back. -/
  | built (p : Nat)
  /-- In `freeproc`; the slot is given back next. -/
  | release (p : Nat)
  /-- The pid is given back next. -/
  | slotFreed (p : Nat)
  /-- The object is given back next. -/
  | pidFreed (p : Nat)

/-- The kernel, the objects that `proc_cache` has handed out, and where the threads are. -/
structure Table (T : Type) where
  kernel : Kernel
  objects : Set Nat
  tasks : T → Task

/-- After `procinit`. -/
structure Start {T : Type} (s : Table T) : Prop where
  pidmap : s.kernel.pidmap = bitSet (List.replicate (KSTACK_NSLOTS / 64) 0) 0
  slotmap : s.kernel.kstackSlotmap = List.replicate (KSTACK_NSLOTS / 64) 0
  allproc : s.kernel.allproc = []
  pidhash : ∀ bucket, s.kernel.pidhash bucket = []
  objects : s.objects = ∅
  tasks : ∀ t, s.tasks t = .idle

variable {T : Type} [DecidableEq T]

/-- The thread moves on, with this kernel. -/
def Table.put (s : Table T) (t : T) (task : Task) (kernel : Kernel) : Table T :=
  { s with kernel, tasks := Function.update s.tasks t task }

/-- The fields that only `allproc` sets. -/
def SameIds (q q' : Fork.Proc) : Prop :=
  q'.pid = q.pid ∧ q'.kslot = q.kslot ∧ q'.kstack = q.kstack

inductive Step (s : Table T) : Table T → Prop
  /-- `allocproc`, step by step. -/
  | pidNone {t pid k} (at_ : s.tasks t = .idle) (runs : pidAlloc s.kernel = .ok (pid, k))
      (none_ : pid < 0) : Step s (s.put t .idle k)
  | pidAlloc {t} {pid : Nat} {k} (at_ : s.tasks t = .idle)
      (runs : pidAlloc s.kernel = .ok (Int.ofNat pid, k)) : Step s (s.put t (.pid pid) k)
  | slotNone {t pid slot k} (at_ : s.tasks t = .pid pid)
      (runs : slotAlloc s.kernel = .ok (slot, k)) (none_ : slot < 0) :
      Step s (s.put t (.noSlot pid) k)
  | slotAlloc {t pid} {slot : Nat} {k} (at_ : s.tasks t = .pid pid)
      (runs : slotAlloc s.kernel = .ok (Int.ofNat slot, k)) : Step s (s.put t (.slot pid slot) k)
  | kstackNone {t pid slot} (at_ : s.tasks t = .slot pid slot) :
      Step s (s.put t (.noStack pid slot) s.kernel)
  | kstackAlloc {t pid slot kstack} (at_ : s.tasks t = .slot pid slot) :
      Step s (s.put t (.stack pid slot kstack) s.kernel)
  | objectNone {t pid slot kstack} (at_ : s.tasks t = .stack pid slot kstack) :
      Step s (s.put t (.noStack pid slot) s.kernel)
  | objectAlloc {t pid slot kstack np k} (at_ : s.tasks t = .stack pid slot kstack)
      (unused : np ∉ s.objects)
      (runs : setProc np (freshProc · pid slot kstack s.kernel.forkret) s.kernel = .ok ((), k)) :
      Step s { s.put t (.built np) k with objects := insert np s.objects }
  | slotBack {t pid slot k} (at_ : s.tasks t = .noStack pid slot)
      (runs : slotFree slot s.kernel = .ok ((), k)) : Step s (s.put t (.noSlot pid) k)
  | pidBack {t pid k} (at_ : s.tasks t = .noSlot pid)
      (runs : pidFree pid s.kernel = .ok ((), k)) : Step s (s.put t .idle k)
  /-- The end of `kthread_add`, `userinit` and `fork`. -/
  | activate {t np parent k} (at_ : s.tasks t = .built np)
      (runs : procActivate np parent s.kernel = .ok ((), k)) : Step s (s.put t .idle k)
  /-- `fork` fails, and calls `freeproc`. -/
  | abandon {t np} (at_ : s.tasks t = .built np) : Step s (s.put t (.release np) s.kernel)
  /-- `wait` finds a zombie, unlinks it and calls `freeproc`. -/
  | reap {t np p k} (at_ : s.tasks t = .idle) (listed : np ∈ s.kernel.allproc)
      (child : (s.kernel.procs np).parent = some p) (exited : (s.kernel.procs np).state = .zombie)
      (runs : unlink np s.kernel = .ok ((), k)) : Step s (s.put t (.release np) k)
  /-- `freeproc`, step by step. -/
  | slotFree {t np k k'} (at_ : s.tasks t = .release np) (stack : (s.kernel.procs np).kstack ≠ 0)
      (runs : slotFree (s.kernel.procs np).kslot s.kernel = .ok ((), k))
      (cleared : setProc np ({ · with kstack := 0 }) k = .ok ((), k')) :
      Step s (s.put t (.slotFreed np) k')
  | slotSkip {t np} (at_ : s.tasks t = .release np) (stack : (s.kernel.procs np).kstack = 0) :
      Step s (s.put t (.slotFreed np) s.kernel)
  | pidFree {t np k} (at_ : s.tasks t = .slotFreed np)
      (runs : pidFree (s.kernel.procs np).pid s.kernel = .ok ((), k)) :
      Step s (s.put t (.pidFreed np) k)
  | objectFree {t np} (at_ : s.tasks t = .pidFreed np) :
      Step s { s.put t .idle s.kernel with objects := s.objects \ {np} }
  | reparent {p initproc k} (runs : reparent p initproc s.kernel = .ok ((), k)) :
      Step s { s with kernel := k }
  | becomeZombie {p status k} (runs : becomeZombie p status s.kernel = .ok ((), k)) :
      Step s { s with kernel := k }
  | kill {pid r k} (runs : kill pid s.kernel = .ok (r, k)) : Step s { s with kernel := k }
  /-- Whatever else is done to an object, such as by the scheduler. -/
  | object {p q} (same : SameIds (s.kernel.procs p) q) :
      Step s { s with kernel := { s.kernel with procs := Function.update s.kernel.procs p q } }
  /-- Whatever is done to the memory and the run queue. -/
  | memory {vm frames runq} : Step s { s with kernel := { s.kernel with vm, frames, runq } }

/-- States reached from boot under any interleaving. -/
def Reachable (s : Table T) : Prop := TransitionSystem.Reachable Start Step s

end Ptable

end Av6
