import Av6.UserCopyModel

/-!
# The instructions of the copies

What each instruction of `copy_user.s` does to the registers that the copies use.  No instruction
changes the return address, so that every path ends at the caller: a round of a loop is a few
steps, and a data abort goes to `_copy_fault`.
-/

namespace Av6

namespace UserCopy

open A64 Kmem Pmap Exec

/-- What the copies use of a machine. -/
structure View where
  pc : Nat
  x0 : Nat
  x1 : Nat
  x2 : Nat
  x3 : Nat
  x4 : Nat
  z : Bool
  mem : Memory
  onfault : Option Nat

/-- A machine with these values, that will return to the caller. -/
structure At (v : View) (m : Machine) : Prop where
  pc : m.cpu.pc = v.pc
  x0 : m.cpu.x 0 = v.x0
  x1 : m.cpu.x 1 = v.x1
  x2 : m.cpu.x 2 = v.x2
  x3 : m.cpu.x 3 = v.x3
  x4 : m.cpu.x 4 = v.x4
  x30 : m.cpu.x 30 = callerPc
  z : m.cpu.z = v.z
  mem : m.cpu.mem = v.mem
  onfault : m.onfault = v.onfault

variable {maps : Regime} {v : View} {m : Machine} {target value imm : Nat} {byte : UInt8}
  {memory : Memory}

theorem step_exec {instr : Instr} {cpu : Cpu Memory} (fetch : copyText[m.cpu.pc]? = some instr)
    (runs : exec (bus maps) m.cpu instr = some cpu) : step maps m = .ok { m with cpu } := by
  unfold step
  rw [fetch]
  dsimp only
  rw [runs]

theorem step_abort {instr : Instr} {pc : Nat} (fetch : copyText[m.cpu.pc]? = some instr)
    (aborts : exec (bus maps) m.cpu instr = none) (armed : m.onfault = some pc) :
    step maps m = .ok { cpu := { m.cpu with pc }, onfault := none } := by
  unfold step
  rw [fetch]
  dsimp only
  rw [aborts]
  unfold trapSync
  rw [armed]

section

variable (here : At v m)
include here

theorem At.set0 (value : Nat) :
    At { v with pc := v.pc + 1, x0 := value } { m with cpu := m.cpu.set 0 value } := by
  constructor <;> simp [Cpu.set_of_ne, here.pc, here.x1, here.x2, here.x3, here.x4, here.x30, here.z,
    here.mem, here.onfault]

theorem At.set1 (value : Nat) :
    At { v with pc := v.pc + 1, x1 := value } { m with cpu := m.cpu.set 1 value } := by
  constructor <;> simp [Cpu.set_of_ne, here.pc, here.x0, here.x2, here.x3, here.x4, here.x30, here.z,
    here.mem, here.onfault]

theorem At.set2 (value : Nat) :
    At { v with pc := v.pc + 1, x2 := value } { m with cpu := m.cpu.set 2 value } := by
  constructor <;> simp [Cpu.set_of_ne, here.pc, here.x0, here.x1, here.x3, here.x4, here.x30, here.z,
    here.mem, here.onfault]

theorem At.set3 (value : Nat) :
    At { v with pc := v.pc + 1, x3 := value } { m with cpu := m.cpu.set 3 value } := by
  constructor <;> simp [Cpu.set_of_ne, here.pc, here.x0, here.x1, here.x2, here.x4, here.x30, here.z,
    here.mem, here.onfault]

theorem At.set4 (value : Nat) :
    At { v with pc := v.pc + 1, x4 := value } { m with cpu := m.cpu.set 4 value } := by
  constructor <;> simp [Cpu.set_of_ne, here.pc, here.x0, here.x1, here.x2, here.x3, here.x30, here.z,
    here.mem, here.onfault]

theorem At.withPc (pc : Nat) : At { v with pc } { m with cpu := { m.cpu with pc } } :=
  ⟨rfl, here.x0, here.x1, here.x2, here.x3, here.x4, here.x30, here.z, here.mem, here.onfault⟩

theorem At.withX1 (value : Nat) :
    At { v with x1 := value } { m with cpu := { m.cpu with x := Function.update m.cpu.x 1 value } } := by
  constructor <;> simp [here.pc, here.x0, here.x2, here.x3, here.x4, here.x30, here.z, here.mem,
    here.onfault]

theorem At.withMem (mem : Memory) : At { v with mem } { m with cpu := { m.cpu with mem } } :=
  ⟨here.pc, here.x0, here.x1, here.x2, here.x3, here.x4, here.x30, here.z, rfl, here.onfault⟩

theorem At.withZ (z : Bool) : At { v with z } { m with cpu := { m.cpu with z } } :=
  ⟨here.pc, here.x0, here.x1, here.x2, here.x3, here.x4, here.x30, rfl, here.mem, here.onfault⟩

end

/-- A step from a machine with some values to one with others. -/
def Steps (maps : Regime) (v v' : View) : Prop :=
  ∀ m, At v m → ∃ m', step maps m = .ok m' ∧ At v' m'

/-- Several steps. -/
def Path (maps : Regime) (v v' : View) : Prop :=
  ∀ m, At v m → ∃ m', Leads (step maps) m m' ∧ At v' m'

theorem Path.refl (v : View) : Path maps v v := fun m here => ⟨m, .refl m, here⟩

theorem Steps.path {v' v'' : View} (first : Steps maps v v') (rest : Path maps v' v'') :
    Path maps v v'' := by
  intro m here
  obtain ⟨next, taken, there⟩ := first m here
  obtain ⟨last, leads, ends⟩ := rest next there
  exact ⟨last, .first taken leads, ends⟩

theorem Path.trans {v' v'' : View} (first : Path maps v v') (rest : Path maps v' v'') :
    Path maps v v'' := by
  intro m here
  obtain ⟨next, leads, there⟩ := first m here
  obtain ⟨last, leads', ends⟩ := rest next there
  exact ⟨last, leads.trans leads', ends⟩

theorem steps_cbz (fetch : copyText[v.pc]? = some (.cbz 2 target)) :
    Steps maps v { v with pc := if v.x2 = 0 then target else v.pc + 1 } := by
  intro m here
  have there := here.withPc (if v.x2 = 0 then target else v.pc + 1)
  rw [← here.pc] at fetch
  refine ⟨_, step_exec fetch ?_, there⟩
  rw [← here.x2, ← here.pc]
  rfl

theorem steps_cbzw (fetch : copyText[v.pc]? = some (.cbzw 3 target)) :
    Steps maps v { v with pc := if v.x3 % 2 ^ 32 = 0 then target else v.pc + 1 } := by
  intro m here
  have there := here.withPc (if v.x3 % 2 ^ 32 = 0 then target else v.pc + 1)
  rw [← here.pc] at fetch
  refine ⟨_, step_exec fetch ?_, there⟩
  rw [← here.x3, ← here.pc]
  rfl

theorem steps_bne (fetch : copyText[v.pc]? = some (.bne target)) :
    Steps maps v { v with pc := if v.z then v.pc + 1 else target } := by
  intro m here
  have there := here.withPc (if v.z then v.pc + 1 else target)
  rw [← here.pc] at fetch
  refine ⟨_, step_exec fetch ?_, there⟩
  rw [← here.z, ← here.pc]
  rfl

theorem steps_movImm {imm : Int} (fetch : copyText[v.pc]? = some (.movImm 0 imm)) :
    Steps maps v { v with pc := v.pc + 1, x0 := (imm % 2 ^ 64).toNat } := by
  intro m here
  rw [← here.pc] at fetch
  exact ⟨_, step_exec fetch rfl, here.set0 _⟩

theorem steps_mov (fetch : copyText[v.pc]? = some (.mov 4 0)) :
    Steps maps v { v with pc := v.pc + 1, x4 := v.x0 } := by
  intro m here
  rw [← here.pc] at fetch
  refine ⟨_, step_exec fetch ?_, here.set4 _⟩
  rw [← here.x0]
  rfl

theorem steps_add0 (fetch : copyText[v.pc]? = some (.addImm 0 0 imm)) :
    Steps maps v { v with pc := v.pc + 1, x0 := (v.x0 + imm) % 2 ^ 64 } := by
  intro m here
  rw [← here.pc] at fetch
  refine ⟨_, step_exec fetch ?_, here.set0 _⟩
  rw [← here.x0]
  rfl

theorem steps_add1 (fetch : copyText[v.pc]? = some (.addImm 1 1 imm)) :
    Steps maps v { v with pc := v.pc + 1, x1 := (v.x1 + imm) % 2 ^ 64 } := by
  intro m here
  rw [← here.pc] at fetch
  refine ⟨_, step_exec fetch ?_, here.set1 _⟩
  rw [← here.x1]
  rfl

theorem steps_subs (fetch : copyText[v.pc]? = some (.subsImm 2 2 imm)) :
    Steps maps v { v with
      pc := v.pc + 1
      x2 := minus v.x2 imm
      z := minus v.x2 imm = 0 } := by
  intro m here
  rw [← here.pc] at fetch
  refine ⟨_, step_exec fetch ?_, (here.set2 (minus v.x2 imm)).withZ (minus v.x2 imm = 0)⟩
  rw [← here.x2]
  rfl

theorem steps_sub (fetch : copyText[v.pc]? = some (.sub 0 0 4)) :
    Steps maps v { v with pc := v.pc + 1, x0 := minus v.x0 v.x4 } := by
  intro m here
  rw [← here.pc] at fetch
  refine ⟨_, step_exec fetch ?_, here.set0 _⟩
  rw [← here.x0, ← here.x4]
  rfl

theorem steps_subImm (fetch : copyText[v.pc]? = some (.subImm 0 0 imm)) :
    Steps maps v { v with pc := v.pc + 1, x0 := minus v.x0 imm } := by
  intro m here
  rw [← here.pc] at fetch
  refine ⟨_, step_exec fetch ?_, here.set0 _⟩
  rw [← here.x0]
  rfl

theorem steps_ret (fetch : copyText[v.pc]? = some .ret) :
    Steps maps v { v with pc := callerPc } := by
  intro m here
  rw [← here.pc] at fetch
  refine ⟨_, step_exec fetch ?_, here.withPc _⟩
  rw [← here.x30]
  rfl

theorem steps_ldtrb (fetch : copyText[v.pc]? = some (.ldtrb 3 1))
    (found : userByte v.mem maps.root v.x1 = some byte) :
    Steps maps v { v with pc := v.pc + 1, x3 := byte.toNat } := by
  intro m here
  rw [← here.pc] at fetch
  refine ⟨_, step_exec fetch ?_, here.set3 _⟩
  rw [← here.mem, ← here.x1] at found
  unfold A64.exec bus
  dsimp only
  rw [found]
  rfl

theorem steps_strb (fetch : copyText[v.pc]? = some (.strbPost 3 0 imm)) :
    Steps maps v { v with
      pc := v.pc + 1
      x0 := (v.x0 + imm) % 2 ^ 64
      mem := storeKernel maps v.mem v.x0 (UInt8.ofNat v.x3) } := by
  intro m here
  rw [← here.pc] at fetch
  have there := (here.withMem (storeKernel maps v.mem v.x0
    (UInt8.ofNat v.x3))).set0 ((v.x0 + imm) % 2 ^ 64)
  refine ⟨_, step_exec fetch ?_, there⟩
  rw [← here.x0, ← here.x3, ← here.mem]
  rfl

theorem steps_ldrb (fetch : copyText[v.pc]? = some (.ldrbPost 3 1 imm)) :
    Steps maps v { v with
      pc := v.pc + 1
      x1 := (v.x1 + imm) % 2 ^ 64
      x3 := (kernelByte maps v.mem v.x1).toNat } := by
  intro m here
  rw [← here.pc] at fetch
  have there := (here.withX1 ((v.x1 + imm) % 2 ^ 64)).set3 (kernelByte maps v.mem v.x1).toNat
  refine ⟨_, step_exec fetch ?_, there⟩
  rw [← here.x1, ← here.mem]
  rfl

theorem steps_sttrb {pte : Nat} (fetch : copyText[v.pc]? = some (.sttrb 3 0))
    (found : translate v.mem maps.root v.x0 = some pte) (writable : isWritable pte) :
    Steps maps v { v with
      pc := v.pc + 1
      mem := setByte v.mem (ptePage pte) (v.x0 % PGSIZE) (UInt8.ofNat v.x3) } := by
  intro m here
  have there := (here.withMem (setByte v.mem (ptePage pte) (v.x0 % PGSIZE)
    (UInt8.ofNat v.x3))).withPc (v.pc + 1)
  rw [← here.pc] at fetch
  refine ⟨_, step_exec fetch ?_, there⟩
  rw [← here.mem, ← here.x0] at found
  unfold A64.exec bus
  dsimp only
  rw [found, ← here.x3, ← here.pc, ← here.mem, ← here.x0]
  dsimp only
  rw [if_pos writable]
  rfl

/-- A data abort goes on at `_copy_fault`, and disarms. -/
theorem steps_abort {instr : Instr} (fetch : copyText[v.pc]? = some instr)
    (aborts : ∀ m, At v m → A64.exec (bus maps) m.cpu instr = none)
    (armed : v.onfault = some target) :
    Steps maps v { v with pc := target, onfault := none } := by
  intro m here
  rw [← here.pc] at fetch
  refine ⟨_, step_abort fetch (aborts m here) (here.onfault.trans armed), ?_⟩
  exact ⟨rfl, here.x0, here.x1, here.x2, here.x3, here.x4, here.x30, here.z, here.mem, rfl⟩

theorem aborts_ldtrb (missed : userByte v.mem maps.root v.x1 = none) (here : At v m) :
    A64.exec (bus maps) m.cpu (.ldtrb 3 1) = none := by
  rw [← here.mem, ← here.x1] at missed
  unfold A64.exec bus
  dsimp only
  rw [missed]
  rfl

theorem aborts_sttrb (missed : ∀ pte, translate v.mem maps.root v.x0 = some pte → ¬ isWritable pte)
    (here : At v m) : A64.exec (bus maps) m.cpu (.sttrb 3 0) = none := by
  rw [← here.mem, ← here.x0] at missed
  unfold A64.exec bus
  dsimp only
  cases found : translate m.cpu.mem maps.root (m.cpu.x 0) with
  | none => rfl
  | some pte =>
      dsimp only
      rw [if_neg (missed pte found)]
      rfl

/-- `_copy_fault` returns -1. -/
theorem path_fault (here : v.pc = copyFault) :
    Path maps v { v with pc := callerPc, x0 := 2 ^ 64 - 1 } := by
  obtain ⟨pc, x0, x1, x2, x3, x4, z, mem, onfault⟩ := v
  obtain rfl : pc = copyFault := here
  exact (steps_movImm rfl).path ((steps_ret rfl).path (.refl _))

end UserCopy

end Av6
