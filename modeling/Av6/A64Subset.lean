import Mathlib.Algebra.Group.Int.Defs
import Mathlib.Algebra.GroupWithZero.Nat
import Mathlib.Logic.Function.Basic
import Mathlib.Logic.Relation

/-!
# A few instructions of A64

The registers are numbers below 2^64, and the program counter counts instructions.  The memory is
a parameter: loads and stores of bytes, and the unprivileged ones, which can fail.  A program runs,
step by step, until it comes to a stop; an amount of fuel bounds the steps.
-/

namespace Av6

namespace A64

/-- The registers are numbered from 0. -/
instance neZero_registers : NeZero 31 := ⟨by decide⟩

/-- Bytes as the processor sees them; an unprivileged access that fails is a data abort. -/
structure Bus (μ : Type) where
  load : μ → Nat → UInt8
  store : μ → Nat → UInt8 → μ
  userLoad : μ → Nat → Option UInt8
  userStore : μ → Nat → UInt8 → Option μ

structure Cpu (μ : Type) where
  x : Fin 31 → Nat
  z : Bool
  pc : Nat
  mem : μ

/-- The instructions, with 64-bit registers unless the name ends in `w`. -/
inductive Instr where
  | cbz (t : Fin 31) (target : Nat)
  | cbzw (t : Fin 31) (target : Nat)
  | bne (target : Nat)
  | movImm (d : Fin 31) (imm : Int)
  | mov (d n : Fin 31)
  | addImm (d n : Fin 31) (imm : Nat)
  | subImm (d n : Fin 31) (imm : Nat)
  | subsImm (d n : Fin 31) (imm : Nat)
  | sub (d n m : Fin 31)
  | ldrbPost (t n : Fin 31) (imm : Nat)
  | strbPost (t n : Fin 31) (imm : Nat)
  | ldtrb (t n : Fin 31)
  | sttrb (t n : Fin 31)
  | ret
  deriving DecidableEq

variable {μ : Type}

/-- The result of an instruction goes to a register. -/
def Cpu.set (c : Cpu μ) (d : Fin 31) (value : Nat) : Cpu μ :=
  { c with x := Function.update c.x d value, pc := c.pc + 1 }

/-- A difference in 64 bits. -/
def minus (a b : Nat) : Nat := (a + (2 ^ 64 - b)) % 2 ^ 64

/-- One instruction; `none` is a data abort, which leaves the processor as it was. -/
def exec (bus : Bus μ) (c : Cpu μ) : Instr → Option (Cpu μ)
  | .cbz t target => some { c with pc := if c.x t = 0 then target else c.pc + 1 }
  | .cbzw t target => some { c with pc := if c.x t % 2 ^ 32 = 0 then target else c.pc + 1 }
  | .bne target => some { c with pc := if c.z then c.pc + 1 else target }
  | .movImm d imm => some (c.set d (imm % 2 ^ 64).toNat)
  | .mov d n => some (c.set d (c.x n))
  | .addImm d n imm => some (c.set d ((c.x n + imm) % 2 ^ 64))
  | .subImm d n imm => some (c.set d (minus (c.x n) imm))
  | .subsImm d n imm => some { c.set d (minus (c.x n) imm) with z := minus (c.x n) imm = 0 }
  | .sub d n m => some (c.set d (minus (c.x n) (c.x m)))
  | .ldrbPost t n imm =>
      let byte := bus.load c.mem (c.x n)
      some ({ c with x := Function.update c.x n ((c.x n + imm) % 2 ^ 64) }.set t byte.toNat)
  | .strbPost t n imm =>
      let mem := bus.store c.mem (c.x n) (UInt8.ofNat (c.x t))
      some ({ c with mem }.set n ((c.x n + imm) % 2 ^ 64))
  | .ldtrb t n => (bus.userLoad c.mem (c.x n)).map fun byte => c.set t byte.toNat
  | .sttrb t n =>
      (bus.userStore c.mem (c.x n) (UInt8.ofNat (c.x t))).map fun mem =>
        { c with mem, pc := c.pc + 1 }
  | .ret => some { c with pc := c.x 30 }

section

variable {c : Cpu μ} {d n : Fin 31} {value : Nat}

@[simp]
theorem Cpu.set_self : (c.set d value).x d = value := Function.update_self ..

theorem Cpu.set_of_ne (other : n ≠ d) : (c.set d value).x n = c.x n := Function.update_of_ne other _ _

@[simp]
theorem Cpu.set_pc : (c.set d value).pc = c.pc + 1 := rfl

@[simp]
theorem Cpu.set_mem : (c.set d value).mem = c.mem := rfl

@[simp]
theorem Cpu.set_z : (c.set d value).z = c.z := rfl

end

section

variable {σ ε : Type} {step : σ → Except ε σ} {stop : σ → Prop} [DecidablePred stop] {s t u : σ}
  {exhausted : ε}

/-- Step after step until the stop; `exhausted` where the fuel does not last. -/
def runUntil (step : σ → Except ε σ) (stop : σ → Prop) [DecidablePred stop] (exhausted : ε) :
    Nat → σ → Except ε σ
  | 0, _ => .error exhausted
  | fuel + 1, s => if stop s then .ok s else step s >>= runUntil step stop exhausted fuel

/-- Some steps lead from one state to another. -/
def Leads (step : σ → Except ε σ) : σ → σ → Prop :=
  Relation.ReflTransGen fun s t => step s = .ok t

theorem Leads.refl (s : σ) : Leads step s s := Relation.ReflTransGen.refl

theorem Leads.first (taken : step s = .ok t) (rest : Leads step t u) : Leads step s u :=
  Relation.ReflTransGen.head taken rest

theorem Leads.trans (before : Leads step s t) (after : Leads step t u) : Leads step s u :=
  Relation.ReflTransGen.trans before after

/-- Steps that lead to a stop are taken, given enough fuel. -/
theorem Leads.runUntil (leads : Leads step s t) (stops : stop t)
    (stuck : ∀ s t, stop s → step s ≠ .ok t) :
    ∃ enough, ∀ fuel ≥ enough, runUntil step stop exhausted fuel s = .ok t := by
  induction leads using Relation.ReflTransGen.head_induction_on with
  | refl =>
      refine ⟨1, fun fuel more => ?_⟩
      obtain ⟨fuel, rfl⟩ := Nat.exists_eq_add_of_le' more
      exact if_pos stops
  | head taken _ ih =>
      obtain ⟨enough, rest⟩ := ih
      refine ⟨enough + 1, fun fuel more => ?_⟩
      obtain ⟨fuel, rfl⟩ := Nat.exists_eq_add_of_le' (Nat.le_trans (Nat.le_add_left 1 enough) more)
      rw [A64.runUntil, if_neg fun stopped => stuck _ _ stopped taken, taken]
      exact rest fuel (by omega)

end

end A64

end Av6
