import Av6.SbrkModel
import Av6.UserStores

/-!
# The life of processes

`exit`, `wait` and `kill` of `kern/proc.c`, beside `kthread_add`, `fork`, `exec`, `growproc` and
`userinit`.  A call runs as a whole.  A process that goes to sleep in `wait` leaves the call; when it
is woken, it goes round the loop again, which is another call.
-/

namespace Av6

namespace Life

open FallibleState Kmem Pmap Elf Fork
open Exec (userRangeOk translate isWritable setByte)

/-- The kernel, and `initproc`. -/
structure Machine where
  kernel : Kernel
  initproc : Option Nat

inductive Panic where
  | kern (why : Pmap.Panic)
  | initExiting

abbrev Mach := StateT Machine (Except Panic)

def onKernel {α : Type} (m : Kern α) : Mach α :=
  onPart Machine.kernel (fun s kernel => { s with kernel }) .kern m

/-- `sttrb` through the page table of a process: whether the byte was stored. -/
def sttrb (pagetable : Option Nat) (va : Nat) (byte : UInt8) : Vm Bool := do
  let s ← get
  match pagetable.bind fun root => translate s.memory root va with
  | none => return false
  | some pte =>
      if isWritable pte then do
        set { s with memory := setByte s.memory (ptePage pte) (va % PGSIZE) byte }
        return true
      else return false

/-- `_copyout_bytes` -/
def copyoutBytes (pagetable : Option Nat) : List UInt8 → Nat → Vm Bool
  | [], _ => return true
  | byte :: rest, dst => do
      if ← sttrb pagetable dst byte then copyoutBytes pagetable rest (dst + 1)
      else return false

/-- `copyout`; `false` is the return value -1. -/
def copyout (pagetable : Option Nat) (dst : Nat) (bytes : List UInt8) : Vm Bool :=
  if bytes = [] then return true
  else if ¬ userRangeOk dst bytes.length then return false
  else copyoutBytes pagetable bytes dst

/-- The processes, apart from the caller, that sleep on a channel. -/
def sleepers (self chan : Nat) (s : Kernel) : List Nat :=
  s.allproc.filter fun p => p ≠ self ∧ (s.procs p).state = .sleeping ∧ (s.procs p).chan = chan

/-- `wakeup`, called by the process `self`. -/
def wakeup (self chan : Nat) (s : Kernel) : Kernel :=
  { s with
    procs := fun p =>
      if p ∈ sleepers self chan s then { s.procs p with state := .runnable } else s.procs p
    runq := s.runq ++ sleepers self chan s }

/-- The first part of `exit`: the address space, if there is one. -/
def exitMemory (p : Nat) : Kern Unit := do
  let s ← get
  match (s.procs p).pagetable with
  | none => return ()
  | some root => do
      onVm (uvmfree root)
      setProc p ({ · with pagetable := none, sz := 0 })

/-- The children of a process get another parent. -/
def reparent (p : Nat) (initproc : Option Nat) (s : Kernel) : Kernel :=
  { s with procs := fun q =>
      if q ∈ s.allproc ∧ (s.procs q).parent = some p then { s.procs q with parent := initproc }
      else s.procs q }

/-- `wakeup` of the parent, unless it is `initproc`. -/
def wakeParent (p : Nat) (initproc : Option Nat) (s : Kernel) : Kernel :=
  match (s.procs p).parent with
  | none => s
  | some parent => if initproc = some parent then s else wakeup p parent s

/-- The second part of `exit`, up to `sched`. -/
def bury (p : Nat) (initproc : Option Nat) (status : Int) (s : Kernel) : Kernel :=
  let s := wakeParent p initproc (wakeup p (initproc.getD 0) (reparent p initproc s))
  { s with procs := Function.update s.procs p { s.procs p with xstate := status, state := .zombie } }

/-- `exit` of the process `p`. -/
def exit (p : Nat) (status : Int) : Mach Unit := do
  let m ← get
  if m.initproc = some p then throw .initExiting
  else do
    onKernel (exitMemory p)
    modify fun m => { m with kernel := bury p m.initproc status m.kernel }

/-- The bytes of an `int`. -/
def intBytes (n : Int) : List UInt8 :=
  (List.range 4).map fun i => UInt8.ofNat ((BitVec.ofInt 32 n).toNat / 2 ^ (8 * i))

/-- `LIST_REMOVE` from both lists. -/
def unlink (np : Nat) (s : Kernel) : Kernel :=
  let bucket := (s.procs np).pid &&& (PIDHASH_BUCKETS - 1)
  { s with
    allproc := s.allproc.erase np
    pidhash := Function.update s.pidhash bucket ((s.pidhash bucket).erase np) }

/-- `wait` has found a zombie, and has copied its status out. -/
def reap (cpu : Fin NCPU_MAX) (np : Nat) : Kern (Option Int) := do
  let s ← get
  modify (unlink np)
  freeproc cpu np
  return some (s.procs np).pid

/-- A round of `wait` by the process `p`, over the rest of the list: the return value, or `none`
where it sleeps. -/
def waitScan (cpu : Fin NCPU_MAX) (p xstatus : Nat) : List Nat → Bool → Kern (Option Int)
  | [], havekids => do
      let s ← get
      if havekids = false ∨ (s.procs p).killed ≠ 0 then return some (-1)
      else do
        setProc p ({ · with chan := p, state := .sleeping })
        return none
  | np :: rest, havekids => do
      let s ← get
      if (s.procs np).parent ≠ some p then waitScan cpu p xstatus rest havekids
      else if (s.procs np).state = .zombie then do
        if xstatus = 0 then reap cpu np
        else if ← onVm (copyout (s.procs p).pagetable xstatus (intBytes (s.procs np).xstate)) then
          reap cpu np
        else return some (-1)
      else waitScan cpu p xstatus rest true

/-- `wait` of the process `p`; where it has slept, `woken` is set. -/
def wait (cpu : Fin NCPU_MAX) (p xstatus : Nat) (woken : Bool) : Kern (Option Int) := do
  if woken then setProc p ({ · with chan := 0 })
  let s ← get
  waitScan cpu p xstatus s.allproc false

/-- `pid_lookup` -/
def pidLookup (pid : Nat) (s : Kernel) : Option Nat :=
  (s.pidhash (pid &&& (PIDHASH_BUCKETS - 1))).find? fun p => (s.procs p).pid = pid

/-- `kill`; a negative number is no pid. -/
def kill (pid : Nat) : Kern Int := do
  let s ← get
  match pidLookup pid s with
  | none => return -1
  | some p => do
      setProc p ({ · with killed := 1 })
      if (s.procs p).state = .sleeping then
        modify fun s => { s with
          procs := Function.update s.procs p { s.procs p with state := .runnable }
          runq := s.runq ++ [p] }
      return 0

/-- The calls; the process `p` is the caller. -/
inductive Call where
  | kthreadAdd (cpu : Fin NCPU_MAX) (fn isrc : Nat) (name : List Char)
  | fork (cpu cpu' : Fin NCPU_MAX) (p : Nat)
  | exec (path : String) (uargv p : Nat)
  | growproc (p : Nat) (n : BitVec 32)
  | exit (p : Nat) (status : Int)
  | wait (cpu : Fin NCPU_MAX) (p xstatus : Nat) (woken : Bool)
  | kill (pid : Nat)

def Call.run (programs : List (String × Image)) : Call → Mach Unit
  | kthreadAdd cpu fn isrc name => do let _ ← onKernel (Fork.kthreadAdd cpu fn isrc name)
  | fork cpu cpu' p => do let _ ← onKernel (Fork.fork cpu cpu' p)
  | exec path uargv p => do let _ ← onKernel (Sbrk.exec programs path uargv p)
  | growproc p n => do let _ ← onKernel (Sbrk.growproc p n)
  | exit p status => Life.exit p status
  | wait cpu p xstatus woken => do let _ ← onKernel (Life.wait cpu p xstatus woken)
  | kill pid => do let _ ← onKernel (Life.kill pid)

/-- Who makes a call; `kthread_add` and `kill` do not use the caller. -/
def Call.caller : Call → Option Nat
  | fork _ _ p => some p
  | exec _ _ p => some p
  | growproc p _ => some p
  | exit p _ => some p
  | wait _ p _ _ => some p
  | _ => none

/-- The caller is a process that has not exited. -/
def Call.Legal (m : Machine) (call : Call) : Prop :=
  ∀ p, call.caller = some p → p ∈ m.kernel.allproc ∧ (m.kernel.procs p).state ≠ .zombie

/-- A call that returns, or `userinit`, which makes the process that it lists `initproc`. -/
inductive Step (programs : List (String × Image)) : Machine → Machine → Prop
  | call {m m'} (call : Call) (legal : call.Legal m) (runs : call.run programs m = .ok ((), m')) :
      Step programs m m'
  | userinit {m t} (cpu : Fin NCPU_MAX) (image : Image)
      (runs : Sbrk.userinit cpu image m.kernel = .ok ((), t)) : Step programs m ⟨t, t.allproc.head?⟩

end Life

end Av6
