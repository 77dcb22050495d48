import Av6.A64Subset
import Av6.UserStores

/-!
# Copies to and from user space

`arch/copy.c` and `arch/copy_user.s`, instruction by instruction, with the part of `trap_sync` that
a data abort of the copies comes to.  A user address is translated by the page table in TTBR0; how
TTBR1 maps the kernel is a parameter, a frame for each page.  The buffer of the kernel is mapped, so
that only the unprivileged accesses fault.  Allocation tags are left out.
-/

namespace Av6

namespace UserCopy

open A64 Kmem Pmap Exec

/-- The section of `copy_user.s`.  The targets are the numbers of the instructions. -/
def copyText : List Instr := [
  -- 0: _copyin_bytes
  .cbz 2 6,
  .ldtrb 3 1,
  .strbPost 3 0 1,
  .addImm 1 1 1,
  .subsImm 2 2 1,
  .bne 1,
  .movImm 0 0,
  .ret,
  -- 8: _copyout_bytes
  .cbz 2 14,
  .ldrbPost 3 1 1,
  .sttrb 3 0,
  .addImm 0 0 1,
  .subsImm 2 2 1,
  .bne 9,
  .movImm 0 0,
  .ret,
  -- 16: _copyinstr_bytes
  .cbz 2 24,
  .mov 4 0,
  .ldtrb 3 1,
  .strbPost 3 0 1,
  .addImm 1 1 1,
  .cbzw 3 26,
  .subsImm 2 2 1,
  .bne 18,
  .movImm 0 (-1),
  .ret,
  .sub 0 0 4,
  .subImm 0 0 1,
  .ret,
  -- 29: _copy_fault
  .movImm 0 (-1),
  .ret]

def copyinBytes : Nat := 0

def copyoutBytes : Nat := 8

def copyinstrBytes : Nat := 16

def copyFault : Nat := 29

/-- Where the functions of `copy.c` go on after a call: not in the section. -/
def callerPc : Nat := 31

/-- The page table in TTBR0, and the frames of the kernel through TTBR1. -/
structure Regime where
  root : Nat
  frame : Nat → Nat

/-- A byte of the kernel. -/
def kernelByte (maps : Regime) (memory : Memory) (va : Nat) : UInt8 :=
  memory (maps.frame (va / PGSIZE)) (va % PGSIZE)

/-- A byte of the kernel is stored. -/
def storeKernel (maps : Regime) (memory : Memory) (va : Nat) (byte : UInt8) : Memory :=
  setByte memory (maps.frame (va / PGSIZE)) (va % PGSIZE) byte

/-- The memory through the page tables. -/
def bus (maps : Regime) : Bus Memory where
  load := kernelByte maps
  store := storeKernel maps
  userLoad memory va := userByte memory maps.root va
  userStore memory va byte :=
    match translate memory maps.root va with
    | none => none
    | some pte =>
        if isWritable pte then some (setByte memory (ptePage pte) (va % PGSIZE) byte) else none

/-- The exception classes that `trap_sync` tells apart. -/
inductive ExceptionClass where
  | dabtEl1
  | iabtEl1
  | svc64
  | other

inductive Panic where
  | dataAbort
  | instructionAbort
  | unexpectedSvc
  | unhandled
  | strayPc
  | outOfFuel
  deriving DecidableEq

/-- The processor, and `onfault` of the process; `none` is NULL. -/
structure Machine where
  cpu : Cpu Memory
  onfault : Option Nat

/-- `trap_sync`, with the saved registers in the place of the trapframe. -/
def trapSync (ec : ExceptionClass) (m : Machine) : Except Panic Machine :=
  match ec with
  | .dabtEl1 =>
      match m.onfault with
      | some pc => .ok { cpu := { m.cpu with pc }, onfault := none }
      | none => .error .dataAbort
  | .iabtEl1 => .error .instructionAbort
  | .svc64 => .error .unexpectedSvc
  | .other => .error .unhandled

/-- One instruction of the section, or the exception that it raises. -/
def step (maps : Regime) (m : Machine) : Except Panic Machine :=
  match copyText[m.cpu.pc]? with
  | none => .error .strayPc
  | some instr =>
      match exec (bus maps) m.cpu instr with
      | some cpu => .ok { m with cpu }
      | none => trapSync .dabtEl1 m

/-- A call of a function of the section, with the return address in `x30`. -/
def call (maps : Regime) (fuel entry a b c : Nat) (m : Machine) : Except Panic Machine :=
  runUntil (step maps) (fun m => m.cpu.pc = callerPc) .outOfFuel fuel { m with
    cpu := { m.cpu with
      x := fun r => match r with
        | 0 => a
        | 1 => b
        | 2 => c
        | 30 => callerPc
        | r => m.cpu.x r
      pc := entry } }

/-- The `int` in a register. -/
def toInt32 (x : Nat) : Int := if x % 2 ^ 32 < 2 ^ 31 then x % 2 ^ 32 else x % 2 ^ 32 - 2 ^ 32

/-- A call with `onfault` armed. -/
def guarded (maps : Regime) (fuel entry a b c : Nat) (m : Machine) : Except Panic (Int × Machine) := do
  let m ← call maps fuel entry a b c { m with onfault := some copyFault }
  return (toInt32 (m.cpu.x 0), { m with onfault := none })

/-- `copyin` -/
def copyin (maps : Regime) (fuel dst userSrc len : Nat) (m : Machine) : Except Panic (Int × Machine) :=
  if len = 0 then .ok (0, m)
  else if ¬ userRangeOk userSrc len then .ok (-1, m)
  else guarded maps fuel copyinBytes dst userSrc len m

/-- `copyout` -/
def copyout (maps : Regime) (fuel userDst src len : Nat) (m : Machine) : Except Panic (Int × Machine) :=
  if len = 0 then .ok (0, m)
  else if ¬ userRangeOk userDst len then .ok (-1, m)
  else guarded maps fuel copyoutBytes userDst src len m

/-- `copyinstr` -/
def copyinstr (maps : Regime) (fuel dst userSrc max : Nat) (m : Machine) : Except Panic (Int × Machine) :=
  if max = 0 then .ok (-1, m)
  else if ¬ userRangeOk userSrc max then .ok (-1, m)
  else guarded maps fuel copyinstrBytes dst userSrc max m

end UserCopy

end Av6
