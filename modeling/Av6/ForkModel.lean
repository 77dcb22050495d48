import Av6.ExecModel
import Av6.KstackWindow
import Av6.ProcModel

/-!
# Making processes

`allocproc`, `freeproc`, `kthread_add` and `fork` of `kern/proc.c`, on the memory, the bitmaps of
pids and stack slots, and the lists of processes.  A call runs as a whole: the locks that it takes
are around single accesses and are left out.  The objects are named by their addresses; one that
is not allocated has the fields that its last owner left.  The trapframe at the top of a kernel
stack is kept apart from the bytes of the page, under its address.
-/

namespace Av6

namespace Fork

open FallibleState Kmem Pmap Bitstring
open Exec (Trapframe)

def PIDHASH_BUCKETS : Nat := 64

def TF_SIZE : Nat := 288

/-- `struct context`; the registers are `x19` to `x30`. -/
structure Context where
  x : Fin 12 → Nat
  sp : Nat

/-- `struct proc`.  The lock and the links of the lists are not here; a null pointer is 0, and for
the page table, which is named by its page, and the parent it is `none`. -/
structure Proc where
  state : Proc.ProcState
  chan : Nat
  killed : Int
  xstate : Int
  pid : Nat
  parent : Option Nat
  kstack : Nat
  onfault : Nat
  tf : Nat
  pagetable : Option Nat
  isrc : Nat
  sz : Nat
  asidCtx : Nat
  context : Context
  name : List Char
  kslot : Nat

/-- The memory, the bitmaps and the lists of `kern/proc.c`; `forkret` is the address of the
function. -/
structure Kernel where
  vm : VmState
  procCache : CacheRef
  pidmap : Bitstr
  kstackSlotmap : Bitstr
  procs : Nat → Proc
  frames : Nat → Trapframe
  allproc : List Nat
  pidhash : Nat → List Nat
  runq : List Nat
  forkret : Nat

abbrev Kern := StateT Kernel (Except Pmap.Panic)

def onVm {α : Type} (m : Vm α) : Kern α := onPart Kernel.vm (fun s vm => { s with vm }) id m

/-- Write to an object. -/
def setProc (p : Nat) (f : Proc → Proc) : Kern Unit :=
  modify fun s => { s with procs := Function.update s.procs p (f (s.procs p)) }

/-- `pid_alloc` -/
def pidAlloc : Kern Int := do
  let s ← get
  let pid := bitFfc s.pidmap KSTACK_NSLOTS
  if 0 ≤ pid then do
    set { s with pidmap := bitSet s.pidmap pid.toNat }
    return pid
  else return pid

/-- `pid_free` -/
def pidFree (pid : Nat) : Kern Unit :=
  modify fun s => { s with pidmap := bitClear s.pidmap pid }

/-- `kstack_slot_alloc` -/
def slotAlloc : Kern Int := do
  let s ← get
  set { s with kstackSlotmap := (kstackSlotAlloc s.kstackSlotmap).2 }
  return (kstackSlotAlloc s.kstackSlotmap).1

/-- `kstack_slot_free` -/
def slotFree (slot : Nat) : Kern Unit :=
  modify fun s => { s with kstackSlotmap := kstackSlotFree s.kstackSlotmap slot }

/-- What `allocproc` writes into the object: all of it but the end of the name. -/
def freshProc (old : Proc) (pid slot kstack forkret : Nat) : Proc where
  pid := pid
  kslot := slot
  kstack := kstack
  state := .used
  chan := 0
  killed := 0
  xstate := 0
  parent := none
  onfault := 0
  pagetable := none
  isrc := 0
  sz := 0
  asidCtx := 0
  name := old.name.set 0 '\x00'
  tf := kstack - TF_SIZE
  context := {
    x := Function.update (fun _ => 0) 11 forkret
    sp := kstack - TF_SIZE }

/-- `allocproc`; `none` is a null pointer. -/
def allocproc (cpu : Fin NCPU_MAX) : Kern (Option Nat) := do
  let pid ← pidAlloc
  if pid < 0 then return none
  else do
    let slot ← slotAlloc
    if slot < 0 then do
      pidFree pid.toNat
      return none
    else do
      let kstack ← onVm (kstackAlloc slot.toNat)
      if kstack = 0 then do
        slotFree slot.toNat
        pidFree pid.toNat
        return none
      else do
        let s ← get
        match ← onVm (onKmem (kmemCacheAlloc cpu s.procCache)) with
        | none => do
            onVm (kstackFree slot.toNat)
            slotFree slot.toNat
            pidFree pid.toNat
            return none
        | some p => do
            setProc p fun old => freshProc old pid.toNat slot.toNat kstack s.forkret
            return some p

/-- The first part of `freeproc`: the page table, if there is one. -/
def freePagetable (p : Nat) : Kern Unit := do
  let s ← get
  match (s.procs p).pagetable with
  | none => return ()
  | some root => do
      onVm (uvmfree root)
      setProc p ({ · with pagetable := none })

/-- The second part of `freeproc`: the kernel stack, if there is one, and its slot. -/
def freeKstack (p : Nat) : Kern Unit := do
  let s ← get
  if (s.procs p).kstack = 0 then return ()
  else do
    onVm (kstackFree (s.procs p).kslot)
    slotFree (s.procs p).kslot
    setProc p ({ · with kstack := 0 })

/-- `freeproc` -/
def freeproc (cpu : Fin NCPU_MAX) (p : Nat) : Kern Unit := do
  freePagetable p
  freeKstack p
  let s ← get
  pidFree (s.procs p).pid
  onVm (onKmem (kmemCacheFree cpu s.procCache p))

/-- `proc_activate` -/
def procActivate (p : Nat) (parent : Option Nat) : Kern Unit :=
  modify fun s =>
    let bucket := (s.procs p).pid &&& (PIDHASH_BUCKETS - 1)
    { s with
      allproc := p :: s.allproc
      pidhash := Function.update s.pidhash bucket (p :: s.pidhash bucket)
      procs := Function.update s.procs p { s.procs p with
        parent := parent <|> (s.procs p).parent
        state := .runnable }
      runq := s.runq ++ [p] }

/-- `strncpy` of 15 characters, and the NUL after them. -/
def copyName (src : List Char) : List Char :=
  (src.takeWhile (· ≠ '\x00') ++ List.replicate 15 '\x00').take 15 ++ ['\x00']

/-- `kthread_add` -/
def kthreadAdd (cpu : Fin NCPU_MAX) (fn isrc : Nat) (name : List Char) : Kern Int := do
  match ← allocproc cpu with
  | none => return -1
  | some p => do
      setProc p fun q => { q with
        context := { q.context with x := Function.update q.context.x 0 fn }
        isrc
        name := copyName name }
      let s ← get
      procActivate p none
      return (s.procs p).pid

/-- `uvmcopy` from the page table of a process; a kernel thread has none, and no round is made. -/
def copyFrom (src : Option Nat) (dst sz : Nat) : Vm Bool :=
  match src with
  | none => if sz = 0 then return true else throw .nullPte
  | some src => uvmcopy src dst sz

/-- What `fork` copies from the parent after its pages: the size, the trapframe with 0 for the
return value, and the name. -/
def inherit (p np : Nat) (s : Kernel) : Kernel :=
  let frame := s.frames (s.procs p).tf
  { s with
    procs := Function.update s.procs np { s.procs np with
      sz := (s.procs p).sz
      name := copyName (s.procs p).name }
    frames := Function.update s.frames (s.procs np).tf
      { frame with x := Function.update frame.x 0 0 } }

/-- `fork` by the process `p`.  The object is allocated on one CPU, and where it fails it may be
given back on another. -/
def fork (cpu cpu' : Fin NCPU_MAX) (p : Nat) : Kern Int := do
  match ← allocproc cpu with
  | none => return -1
  | some np => do
      match ← onVm uvmcreate with
      | none => do
          freeproc cpu' np
          return -1
      | some root => do
          setProc np ({ · with pagetable := some root })
          let s ← get
          if ← onVm (copyFrom (s.procs p).pagetable root (s.procs p).sz) then do
            modify (inherit p np)
            let s ← get
            procActivate np (some p)
            return (s.procs np).pid
          else do
            freeproc cpu' np
            return -1

end Fork

end Av6
