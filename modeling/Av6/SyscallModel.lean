import Av6.LifeModel
import Av6.TrapModel

/-!
# System calls

`kern/syscall.c`, with `usertrap_sync` of `arch/trap.c` around it, on the machine of the processes.
The arguments are in the registers that the caller has left in its trapframe.  A call runs as a
whole; where it puts the caller to sleep in `wait`, it is taken up again when the caller is woken.
The buffers on the kernel stack are the lists of bytes that pass through them, and what goes to the
log is left out.
-/

namespace Av6

namespace Syscall

open FallibleState Kmem Pmap Elf Fork Sbrk Life
open Exec (Trapframe userRangeOk userStore)

def WRITE_BOUNCE_SZ : Nat := 128

def READ_BOUNCE_SZ : Nat := 128

def MAXPATH : Nat := 128

/-- `(uint64)-1` -/
def MINUS_ONE : Nat := 2 ^ 64 - 1

@[match_pattern] abbrev SYS_getpid : Nat := 1
@[match_pattern] abbrev SYS_write : Nat := 2
@[match_pattern] abbrev SYS_fork : Nat := 3
@[match_pattern] abbrev SYS_exit : Nat := 4
@[match_pattern] abbrev SYS_wait : Nat := 5
@[match_pattern] abbrev SYS_kill : Nat := 6
@[match_pattern] abbrev SYS_sbrk : Nat := 7
@[match_pattern] abbrev SYS_exec : Nat := 8
@[match_pattern] abbrev SYS_read : Nat := 9

/-- The machine, and what `console_write` has given to `uart_putc`. -/
structure Sys where
  machine : Machine
  output : List UInt8

abbrev SysM := StateT Sys (Except Life.Panic)

/-- What a call takes from elsewhere: the CPUs that it runs on, whether it goes on after a sleep,
and what `console_read` gets, which is `none` for the return value -1. -/
structure Setting where
  cpu : Fin NCPU_MAX
  cpu' : Fin NCPU_MAX
  woken : Bool
  consoleRead : Nat → Option (List UInt8)
  short : ∀ n bytes, consoleRead n = some bytes → bytes.length ≤ n

def Sys.kernel (s : Sys) : Kernel := s.machine.kernel

def onMachine {α : Type} (m : Mach α) : SysM α :=
  onPart Sys.machine (fun s machine => { s with machine }) id m

def onKern {α : Type} (m : Kern α) : SysM α := onMachine (onKernel m)

/-- The conversion of an `int` to `uint64`. -/
def uint64 (r : Int) : Nat := (BitVec.ofInt 64 r).toNat

/-- The registers of a process. -/
def Sys.frame (s : Sys) (p : Nat) : Trapframe := s.kernel.frames (s.kernel.procs p).tf

/-- Write the registers of a process. -/
def Sys.setFrame (s : Sys) (p : Nat) (frame : Trapframe) : Sys :=
  { s with machine := { s.machine with kernel := { s.kernel with
    frames := Function.update s.kernel.frames (s.kernel.procs p).tf frame } } }

/-- The machine with another memory. -/
def Sys.withMemory (s : Sys) (memory : Memory) : Sys :=
  { s with machine := { s.machine with kernel := { s.kernel with vm := { s.kernel.vm with memory } } } }

/-- `argraw`; there are six arguments. -/
def argraw (p : Nat) (n : Fin 6) : SysM Nat := do
  let s ← get
  return (s.frame p).x (n.castLE (by decide))

/-- `argint` -/
def argint (p : Nat) (n : Fin 6) : SysM (BitVec 32) := do
  let raw ← argraw p n
  return BitVec.ofNat 32 raw

/-- `argaddr` -/
def argaddr (p : Nat) (n : Fin 6) : SysM Nat := argraw p n

/-- `arglong` -/
def arglong (p : Nat) (n : Fin 6) : SysM Nat := argraw p n

/-- A program on the page table of the caller. -/
def onUser {α : Type} (p : Nat) (m : Nat → Vm α) : SysM α := do
  let s ← get
  onKern (onVm (onTable (s.kernel.procs p).pagetable m))

/-- `sys_getpid` -/
def sysGetpid (p : Nat) : SysM Nat := do
  let s ← get
  return uint64 (s.kernel.procs p).pid

/-- `sys_fork` -/
def sysFork (setting : Setting) (p : Nat) : SysM Nat := do
  let r ← onKern (fork setting.cpu setting.cpu' p)
  return uint64 r

/-- `sys_exit`; it does not return. -/
def sysExit (p : Nat) : SysM Unit := do
  let status ← argint p 0
  onMachine (Life.exit p status.toInt)

/-- `sys_wait`; `none` where the caller sleeps. -/
def sysWait (setting : Setting) (p : Nat) : SysM (Option Nat) := do
  let xstatus ← argaddr p 0
  let r ← onKern (Life.wait setting.cpu p xstatus setting.woken)
  return r.map uint64

/-- `sys_kill`; no process has a negative pid. -/
def sysKill (p : Nat) : SysM Nat := do
  let pid ← argint p 0
  if pid.toInt < 0 then return MINUS_ONE
  else do
    let r ← onKern (Life.kill pid.toNat)
    return uint64 r

/-- `sys_sbrk` -/
def sysSbrk (p : Nat) : SysM Nat := do
  let n ← argint p 0
  let s ← get
  let r ← onKern (growproc p n)
  if r < 0 then return MINUS_ONE
  else return (s.kernel.procs p).sz

/-- `_copyinstr_bytes`, to the stack: the bytes before the NUL. -/
def copyinstrBytes (pagetable : Nat) : Nat → Nat → Vm (Option (List UInt8))
  | 0, _ => return none
  | max + 1, src => do
      match ← Exec.ldtrb pagetable src with
      | none => return none
      | some byte =>
          if byte = 0 then return some []
          else do
            let rest ← copyinstrBytes pagetable max (src + 1)
            return rest.map (byte :: ·)

/-- `copyinstr`, to the stack; `none` is the return value -1. -/
def copyinstr (pagetable src max : Nat) : Vm (Option (List UInt8)) :=
  if max = 0 then return none
  else if ¬ userRangeOk src max then return none
  else copyinstrBytes pagetable max src

/-- A string of C. -/
def pathOf (bytes : List UInt8) : String := String.ofList (bytes.map fun byte => Char.ofNat byte.toNat)

/-- `sys_exec` -/
def sysExec (programs : List (String × Image)) (p : Nat) : SysM Nat := do
  let userPath ← argaddr p 0
  let uargv ← argaddr p 1
  match ← onUser p (copyinstr · userPath MAXPATH) with
  | none => return MINUS_ONE
  | some path => do
      let r ← onKern (Sbrk.exec programs (pathOf path) uargv p)
      return uint64 r

/-- `console_write` -/
def consoleWrite (bytes : List UInt8) : SysM Unit :=
  modify fun s => { s with output := s.output ++ bytes }

/-- The loop of `sys_write`. -/
def writeLoop (p userBuf n done : Nat) : SysM Nat :=
  if more : done < n then do
    let chunk := if WRITE_BOUNCE_SZ < n - done then WRITE_BOUNCE_SZ else n - done
    match ← onUser p (Exec.copyin · ((userBuf + done) % 2 ^ 64) chunk) with
    | none => return if done = 0 then MINUS_ONE else done
    | some bytes => do
        consoleWrite bytes
        writeLoop p userBuf n (done + chunk)
  else return done
termination_by n - done
decreasing_by
  unfold WRITE_BOUNCE_SZ
  split <;> omega

/-- `sys_write` -/
def sysWrite (p : Nat) : SysM Nat := do
  let fd ← argint p 0
  let userBuf ← argaddr p 1
  let n ← arglong p 2
  if fd ≠ 1 ∧ fd ≠ 2 then return MINUS_ONE
  else writeLoop p userBuf n 0

/-- `sys_read`.  The result of `console_read` is unsigned, so that -1 is no end of file; `copyout`
then refuses the length. -/
def sysRead (setting : Setting) (p : Nat) : SysM Nat := do
  let fd ← argint p 0
  let userBuf ← argaddr p 1
  let n ← arglong p 2
  if fd ≠ 0 then return MINUS_ONE
  else if n = 0 then return 0
  else do
    let chunk := if n < READ_BOUNCE_SZ then n else READ_BOUNCE_SZ
    match setting.consoleRead chunk with
    | none => return MINUS_ONE
    | some bytes =>
        if bytes.length = 0 then return 0
        else do
          let s ← get
          let copied ← onKern (onVm (Life.copyout (s.kernel.procs p).pagetable userBuf bytes))
          if copied then return bytes.length
          else return MINUS_ONE

/-- The table of the system calls; a call that does not return gives `none`. -/
def syscalls (programs : List (String × Image)) (setting : Setting) (p : Nat) :
    Nat → Option (SysM (Option Nat))
  | SYS_getpid => some (some <$> sysGetpid p)
  | SYS_write => some (some <$> sysWrite p)
  | SYS_fork => some (some <$> sysFork setting p)
  | SYS_exit => some ((fun _ => none) <$> sysExit p)
  | SYS_wait => some (sysWait setting p)
  | SYS_kill => some (some <$> sysKill p)
  | SYS_sbrk => some (some <$> sysSbrk p)
  | SYS_exec => some (some <$> sysExec programs p)
  | SYS_read => some (some <$> sysRead setting p)
  | _ => none

/-- The result of a system call goes to `x0`. -/
def Sys.answer (s : Sys) (p r : Nat) : Sys :=
  s.setFrame p { s.frame p with x := Function.update (s.frame p).x 0 r }

/-- `syscall`: whether it returns. -/
def syscall (programs : List (String × Image)) (setting : Setting) (p : Nat) : SysM Bool := do
  let s ← get
  match syscalls programs setting p ((s.frame p).x 8) with
  | none => do
      modify (Sys.answer · p MINUS_ONE)
      return true
  | some handler => do
      match ← handler with
      | none => return false
      | some r => do
          modify (Sys.answer · p r)
          return true

/-- `usertrap_sync`; every exception but a system call ends the process. -/
def usertrapSync (programs : List (String × Image)) (setting : Setting) (p : Nat)
    (esr : BitVec 64) : SysM Unit := do
  if Trap.exceptionClass esr = Trap.EC_SVC64 then do
    if ← syscall programs setting p then do
      let s ← get
      if (s.kernel.procs p).killed ≠ 0 then onMachine (Life.exit p (-1))
  else onMachine (Life.exit p (-1))

/-- The process may be in user mode; `root` is its page table. -/
structure UserMode (s : Sys) (p root : Nat) : Prop where
  listed : p ∈ s.kernel.allproc
  lives : (s.kernel.procs p).state ≠ .zombie
  space : (s.kernel.procs p).pagetable = some root

/-- The program of a user computes and stores what it likes, and traps with whatever it has in its
registers; the step is one of the process.  `kthread_add` and `userinit` are called by the kernel. -/
inductive Step (programs : List (String × Image)) : Option Nat → Sys → Sys → Prop
  | compute {s p root} (user : UserMode s p root) (frame : Trapframe) :
      Step programs (some p) s (s.setFrame p frame)
  | store {s p root} (user : UserMode s p root) (va : Nat) (byte : UInt8) :
      Step programs (some p) s (s.withMemory (userStore s.kernel.vm.memory root va byte))
  | trap {s t p root} (user : UserMode s p root) (setting : Setting) (esr : BitVec 64)
      (runs : usertrapSync programs setting p esr s = .ok ((), t)) : Step programs (some p) s t
  | kthreadAdd {s r t} (cpu : Fin NCPU_MAX) (fn isrc : Nat) (name : List Char)
      (runs : onKern (Fork.kthreadAdd cpu fn isrc name) s = .ok (r, t)) : Step programs none s t
  | userinit {s t} (cpu : Fin NCPU_MAX) (image : Image)
      (runs : Sbrk.userinit cpu image s.kernel = .ok ((), t)) :
      Step programs none s { s with machine := ⟨t, t.allproc.head?⟩ }

end Syscall

end Av6
