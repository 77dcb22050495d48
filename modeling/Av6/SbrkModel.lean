import Av6.ForkModel

/-!
# Processes and their sizes

`growproc` and `userinit` of `kern/proc.c`, and `exec` of `kern/exec.c` by a process of the list.
The flushes of the TLB have no effect here, nor has what `userinit` prints.
-/

namespace Av6

namespace Sbrk

open FallibleState Kmem Pmap Elf Fork
open Exec (Loaded Trapframe procName)

/-- `(uint64)(-n)`; the negation of the least `int` is taken to wrap around. -/
def negated (n : BitVec 32) : Nat := ((-n).signExtend 64).toNat

/-- `sz + n`, where `n` is converted to `uint64`. -/
def resized (sz : Nat) (n : BitVec 32) : Nat := (sz + (n.signExtend 64).toNat) % 2 ^ 64

/-- A program on the page table of a process; a kernel thread has none. -/
def onTable {α : Type} (pagetable : Option Nat) (m : Nat → Vm α) : Vm α :=
  match pagetable with
  | none => throw .nullPte
  | some root => m root

/-- `growproc`, called by the process `p`. -/
def growproc (p : Nat) (n : BitVec 32) : Kern Int := do
  let s ← get
  let sz := (s.procs p).sz
  if 0 < n.toInt then do
    let newsz ← onVm (onTable (s.procs p).pagetable (uvmalloc · sz (resized sz n)))
    if newsz = 0 then return -1
    else do
      setProc p ({ · with sz := newsz })
      return 0
  else if n.toInt < 0 then do
    if sz < negated n then return -1
    else do
      let newsz ← onVm (onTable (s.procs p).pagetable (uvmdealloc · sz (resized sz n)))
      setProc p ({ · with sz := newsz })
      return 0
  else do
    setProc p ({ · with sz })
    return 0

/-- The second phase of `exec`. -/
def install (p : Nat) (path : String) (loaded : Loaded) (s : Kernel) : Kernel :=
  { s with
    procs := Function.update s.procs p { s.procs p with
      pagetable := some loaded.pagetable
      sz := loaded.sz
      name := procName path }
    frames := Function.update s.frames (s.procs p).tf
      { x := fun _ => 0, sp := loaded.sp, elr := loaded.entry, spsr := 0, tpidr := 0 } }

/-- `exec`, called by the process `p`. -/
def exec (programs : List (String × Image)) (path : String) (uargv p : Nat) : Kern Int := do
  let s ← get
  match ← onVm (onTable (s.procs p).pagetable (Exec.exec programs path · uargv)) with
  | none => return -1
  | some loaded => do
      modify (install p path loaded)
      return 0

/-- The panics of `userinit`, and those of what it calls. -/
inductive InitPanic where
  | kern (why : Pmap.Panic)
  | allocproc
  | uvmcreate
  | loadelf
  | kalloc
  | stackMappages

def onKern {α : Type} (m : Kern α) : StateT Kernel (Except InitPanic) α :=
  onPart id (fun _ s => s) .kern m

/-- What `userinit` writes into the process and its trapframe; the stack is at `sz`. -/
def initProc (p sz entry sp : Nat) (s : Kernel) : Kernel :=
  { s with
    procs := Function.update s.procs p { s.procs p with
      sz := sz + PGSIZE
      name := copyName "init".toList }
    frames := Function.update s.frames (s.procs p).tf
      { x := fun _ => 0, sp, elr := entry, spsr := 0, tpidr := 0 } }

/-- The stack of the first process: no argument. -/
def initStack (stack sz sp : Nat) : Vm Unit :=
  (List.range 5).forM fun i => writePte stack ((sp - sz) / 8 + i) 0

/-- `userinit` -/
def userinit (cpu : Fin NCPU_MAX) (image : Image) : StateT Kernel (Except InitPanic) Unit := do
  match ← onKern (allocproc cpu) with
  | none => throw .allocproc
  | some p => do
      match ← onKern (onVm uvmcreate) with
      | none => throw .uvmcreate
      | some root => do
          onKern (setProc p ({ · with pagetable := some root }))
          match ← onKern (onVm (loadelf image false root)) with
          | none => throw .loadelf
          | some (entry, sz) => do
              match ← onKern (onVm allocPage) with
              | none => throw .kalloc
              | some stack => do
                  onKern (onVm (modify fun s => { s with memory := zeroPage s.memory stack }))
                  if ← onKern (onVm (mappages root (USER_BASE + sz) (kvaToPa stack) PGSIZE PAGE_USER))
                  then do
                    let sp := (sz + PGSIZE - 5 * 8) / 16 * 16
                    onKern (onVm (initStack stack sz sp))
                    modify (initProc p sz entry sp)
                    onKern (procActivate p none)
                  else throw .stackMappages

/-- The calls that make processes and change their address spaces; the process `p` is the caller. -/
inductive Call where
  | userinit (cpu : Fin NCPU_MAX) (image : Image)
  | kthreadAdd (cpu : Fin NCPU_MAX) (fn isrc : Nat) (name : List Char)
  | fork (cpu cpu' : Fin NCPU_MAX) (p : Nat)
  | exec (path : String) (uargv p : Nat)
  | growproc (p : Nat) (n : BitVec 32)

def Call.run (programs : List (String × Image)) : Call → StateT Kernel (Except InitPanic) Unit
  | userinit cpu image => Sbrk.userinit cpu image
  | kthreadAdd cpu fn isrc name => do
      let _ ← onKern (Fork.kthreadAdd cpu fn isrc name)
  | fork cpu cpu' p => do
      let _ ← onKern (Fork.fork cpu cpu' p)
  | exec path uargv p => do
      let _ ← onKern (Sbrk.exec programs path uargv p)
  | growproc p n => do
      let _ ← onKern (Sbrk.growproc p n)

/-- The callers are processes. -/
def Call.Legal (s : Kernel) : Call → Prop
  | fork _ _ p => p ∈ s.allproc
  | exec _ _ p => p ∈ s.allproc
  | growproc p _ => p ∈ s.allproc
  | _ => True

/-- A call that returns. -/
def Step (programs : List (String × Image)) (s t : Kernel) : Prop :=
  ∃ call : Call, call.Legal s ∧ call.run programs s = .ok ((), t)

end Sbrk

end Av6
