import Av6.A64Subset
import Av6.KstackModel
import Mathlib.Data.BitVec

/-!
# The stack guard of the exception vectors

`save_regs` of `arch/vectors.s` carves a frame below the stack pointer and stores the registers
there, unless the frame would reach below the stack.  Before the registers are saved there is none
to spare for the test, so that `x0` and the stack pointer are swapped by sums and differences; in
64 bits these give the old values back.
-/

namespace Av6

namespace Vectors

open Kmem Pmap

def TF_SIZE : Nat := 288

def TF_SP : Nat := 248

def TF_ELR : Nat := 256

def KSTACK_SHIFT : Nat := 14

inductive Reg
  | x (i : Fin 31)
  | sp
  deriving DecidableEq

inductive SysReg
  | elrEl1
  | spsrEl1
  deriving DecidableEq

/-- The registers, and the stores of eight bytes so far, the last one first. -/
structure Machine where
  reg : Reg → BitVec 64
  sys : SysReg → BitVec 64
  stores : List (BitVec 64 × BitVec 64)

/-- The instructions of the macro; loads and stores are relative to the stack pointer, and the
branch of `tbz` goes to `__bad_stack`. -/
inductive Instr
  | addImm (d n : Reg) (imm : Nat)
  | subImm (d n : Reg) (imm : Nat)
  | add (d n m : Reg)
  | sub (d n m : Reg)
  | tbz (t : Reg) (bit : Nat)
  | stp (t u : Fin 31) (offset : Nat)
  | str (t : Fin 31) (offset : Nat)
  | mrs (d : Fin 31) (sys : SysReg)
  deriving DecidableEq

def Machine.set (c : Machine) (d : Reg) (value : BitVec 64) : Machine :=
  { c with reg := Function.update c.reg d value }

def Machine.store (c : Machine) (offset : Nat) (value : BitVec 64) : Machine :=
  { c with stores := (c.reg .sp + BitVec.ofNat 64 offset, value) :: c.stores }

/-- One instruction; an error is a branch to `__bad_stack`. -/
def exec (c : Machine) : Instr → Except Machine Machine
  | .addImm d n imm => .ok (c.set d (c.reg n + BitVec.ofNat 64 imm))
  | .subImm d n imm => .ok (c.set d (c.reg n - BitVec.ofNat 64 imm))
  | .add d n m => .ok (c.set d (c.reg n + c.reg m))
  | .sub d n m => .ok (c.set d (c.reg n - c.reg m))
  | .tbz t bit => if (c.reg t).getLsbD bit then .ok c else .error c
  | .stp t u offset => .ok ((c.store offset (c.reg (.x t))).store (offset + 8) (c.reg (.x u)))
  | .str t offset => .ok (c.store offset (c.reg (.x t)))
  | .mrs d sys => .ok (c.set (.x d) (c.sys sys))

def run : List Instr → Machine → Except Machine Machine
  | [], c => .ok c
  | i :: rest, c => exec c i >>= run rest

/-- `save_regs` up to the first store. -/
def saveGuard : List Instr :=
  [.subImm .sp .sp TF_SIZE,
    .add .sp .sp (.x 0),
    .sub (.x 0) .sp (.x 0),
    .tbz (.x 0) KSTACK_SHIFT,
    .sub (.x 0) .sp (.x 0),
    .sub .sp .sp (.x 0)]

/-- The rest of `save_regs`. -/
def saveFrame : List Instr :=
  [.stp 0 1 0,
    .stp 2 3 16,
    .stp 4 5 32,
    .stp 6 7 48,
    .stp 8 9 64,
    .stp 10 11 80,
    .stp 12 13 96,
    .stp 14 15 112,
    .stp 16 17 128,
    .stp 18 19 144,
    .stp 20 21 160,
    .stp 22 23 176,
    .stp 24 25 192,
    .stp 26 27 208,
    .stp 28 29 224,
    .str 30 240,
    .addImm (.x 0) .sp TF_SIZE,
    .str 0 TF_SP,
    .mrs 0 .elrEl1,
    .mrs 1 .spsrEl1,
    .stp 0 1 TF_ELR]

def saveRegs : List Instr := saveGuard ++ saveFrame

/-- The top of the stack of a slot, as `kstack_alloc` returns it. -/
def kstackTop (idx : Nat) : Nat := KSTACK_WINDOW + (idx + 1) * KSTACK_SLOT_PAGES * PGSIZE

/-- An instruction that leaves the stack pointer alone and stores inside the frame. -/
def Instr.InFrame : Instr → Prop
  | .addImm d _ _ => d ≠ .sp
  | .stp _ _ offset => offset + 16 ≤ TF_SIZE
  | .str _ offset => offset + 8 ≤ TF_SIZE
  | .mrs _ _ => True
  | _ => False

instance : DecidablePred Instr.InFrame := fun i => by
  cases i <;> unfold Instr.InFrame <;> infer_instance

/-- What a run of such instructions does: the stores go to the frame. -/
def FrameStores (c d : Machine) : Prop :=
  d.reg .sp = c.reg .sp ∧ ∃ frame, d.stores = frame ++ c.stores ∧
    ∀ store ∈ frame, ∃ offset, offset + 8 ≤ TF_SIZE ∧
      store.1 = c.reg .sp + BitVec.ofNat 64 offset

variable {c d e : Machine} {i : Instr} {l : List Instr} {idx : Nat}

theorem FrameStores.refl (c : Machine) : FrameStores c c :=
  ⟨rfl, [], rfl, by simp⟩

theorem FrameStores.trans (first : FrameStores c d) (second : FrameStores d e) :
    FrameStores c e := by
  obtain ⟨sp, frame, stores, inside⟩ := first
  obtain ⟨sp', frame', stores', inside'⟩ := second
  refine ⟨sp'.trans sp, frame' ++ frame, ?_, ?_⟩
  · rw [stores', stores, List.append_assoc]
  · intro store member
    rcases List.mem_append.mp member with later | earlier
    · rw [← sp]
      exact inside' store later
    · exact inside store earlier

theorem FrameStores.set {r : Reg} {value : BitVec 64} (other : r ≠ .sp) :
    FrameStores c (c.set r value) :=
  ⟨Function.update_of_ne other.symm .., [], rfl, by simp⟩

theorem FrameStores.store {offset : Nat} {value : BitVec 64} (inside : offset + 8 ≤ TF_SIZE) :
    FrameStores c (c.store offset value) := by
  refine ⟨rfl, [_], rfl, ?_⟩
  intro store member
  rw [List.mem_singleton.mp member]
  exact ⟨offset, inside, rfl⟩

/-- One instruction. -/
theorem exec_inFrame (inFrame : i.InFrame) : ∃ d, exec c i = .ok d ∧ FrameStores c d := by
  cases i with
  | addImm r n imm => exact ⟨_, rfl, .set inFrame⟩
  | stp t u offset =>
      have inside : offset + 16 ≤ TF_SIZE := inFrame
      refine ⟨_, rfl, FrameStores.trans (.store ?_) (.store ?_)⟩
      · omega
      · omega
  | str t offset => exact ⟨_, rfl, .store inFrame⟩
  | mrs r sys => exact ⟨_, rfl, .set (by simp)⟩
  | _ => exact inFrame.elim

/-- A run of such instructions. -/
theorem run_inFrame (inFrame : ∀ i ∈ l, i.InFrame) : ∃ d, run l c = .ok d ∧ FrameStores c d := by
  induction l generalizing c with
  | nil => exact ⟨c, rfl, .refl c⟩
  | cons i rest ih =>
      obtain ⟨d, steps, first⟩ := exec_inFrame (c := c) (inFrame i List.mem_cons_self)
      obtain ⟨e, runs, others⟩ := ih (c := d) fun j there =>
        inFrame j (List.mem_cons_of_mem _ there)
      refine ⟨e, ?_, first.trans others⟩
      unfold run
      rw [steps]
      exact runs

theorem run_append (l l' : List Instr) (c : Machine) : run (l ++ l') c = run l c >>= run l' := by
  induction l generalizing c with
  | nil => rfl
  | cons i rest ih =>
      rw [List.cons_append, run, run, bind_assoc]
      congr 1
      ext1 d
      exact ih d

@[simp]
theorem Machine.set_reg_self (c : Machine) (r : Reg) (value : BitVec 64) :
    (c.set r value).reg r = value := Function.update_self ..

theorem Machine.set_reg_of_ne {r s : Reg} (other : s ≠ r) (c : Machine) (value : BitVec 64) :
    (c.set r value).reg s = c.reg s := Function.update_of_ne other ..

@[simp]
theorem Machine.set_set (c : Machine) (r : Reg) (first second : BitVec 64) :
    (c.set r first).set r second = c.set r second := by
  unfold Machine.set
  rw [Function.update_idem]

theorem Machine.set_comm {r s : Reg} (other : r ≠ s) (c : Machine) (first second : BitVec 64) :
    (c.set r first).set s second = (c.set s second).set r first := by
  unfold Machine.set
  rw [Function.update_comm other.symm]

theorem Machine.set_reg (c : Machine) (r : Reg) : c.set r (c.reg r) = c := by
  unfold Machine.set
  rw [Function.update_eq_self]

theorem run_subImm (r s : Reg) (imm : Nat) (c : Machine) :
    run (.subImm r s imm :: l) c = run l (c.set r (c.reg s - BitVec.ofNat 64 imm)) := rfl

theorem run_add (r s q : Reg) (c : Machine) :
    run (.add r s q :: l) c = run l (c.set r (c.reg s + c.reg q)) := rfl

theorem run_sub (r s q : Reg) (c : Machine) :
    run (.sub r s q :: l) c = run l (c.set r (c.reg s - c.reg q)) := rfl

theorem run_tbz (r : Reg) (bit : Nat) (c : Machine) :
    run (.tbz r bit :: l) c = if (c.reg r).getLsbD bit then run l c else .error c := by
  have first : run (.tbz r bit :: l) c =
      ((if (c.reg r).getLsbD bit then .ok c else .error c) >>= run l) := rfl
  rw [first]
  split
  · rfl
  · rfl

theorem run_nil (c : Machine) : run [] c = .ok c := rfl

theorem run_append_of_ok {l' : List Instr} (first : run l c = .ok d) :
    run (l ++ l') c = run l' d := by
  rw [run_append, first]
  rfl

theorem run_append_of_error {l' : List Instr} (first : run l c = .error d) :
    run (l ++ l') c = .error d := by
  rw [run_append, first]
  rfl

/-- The swap: the test sees the carved stack pointer, and where it passes, `x0` is back. -/
theorem run_saveGuard (c : Machine) :
    run saveGuard c =
      if (c.reg .sp - BitVec.ofNat 64 TF_SIZE).getLsbD KSTACK_SHIFT then
        .ok (c.set .sp (c.reg .sp - BitVec.ofNat 64 TF_SIZE))
      else .error ((c.set .sp (c.reg .sp - BitVec.ofNat 64 TF_SIZE + c.reg (.x 0))).set (.x 0)
        (c.reg .sp - BitVec.ofNat 64 TF_SIZE)) := by
  have apart : Reg.x 0 ≠ .sp := by decide
  have there : ∀ a b : BitVec 64, a + b - b = a := add_sub_cancel_right
  have back : ∀ a b : BitVec 64, a + b - a = b := add_sub_cancel_left
  unfold saveGuard
  rw [run_subImm, run_add, run_sub, run_tbz, run_sub, run_sub, run_nil]
  simp only [Machine.set_reg_self, Machine.set_reg_of_ne apart, Machine.set_reg_of_ne apart.symm,
    Machine.set_set, there, back]
  rw [Machine.set_comm apart.symm, Machine.set_reg, Machine.set_set]

/-- The carved stack pointer has the bit exactly when it is not in the guard pages. -/
theorem bit_iff {sp : Nat} (above : kstackBaseVa idx ≤ sp + TF_SIZE)
    (below : sp + TF_SIZE ≤ kstackTop idx) :
    sp.testBit KSTACK_SHIFT = true ↔ kstackBaseVa idx ≤ sp := by
  unfold kstackBaseVa at above ⊢
  unfold kstackTop at below
  unfold KSTACK_SLOT_PAGES KSTACK_GUARD_PAGES KSTACK_PAGES KSTACK_WINDOW KERN_BASE PGSIZE at *
  unfold TF_SIZE at above below
  rw [Nat.testBit_eq_decide_div_mod_eq, decide_eq_true_iff]
  unfold KSTACK_SHIFT
  norm_num at above below ⊢
  omega

/-- The carved stack pointer, which does not wrap around. -/
theorem toNat_carved {sp : BitVec 64} (above : kstackBaseVa idx ≤ sp.toNat) :
    (sp - BitVec.ofNat 64 TF_SIZE).toNat + TF_SIZE = sp.toNat := by
  have high : 2 ^ 32 ≤ kstackBaseVa idx := by
    unfold kstackBaseVa KSTACK_WINDOW KERN_BASE
    omega
  rw [BitVec.toNat_sub, BitVec.toNat_ofNat]
  unfold TF_SIZE
  omega

theorem carved_getLsbD {sp : BitVec 64} (above : kstackBaseVa idx ≤ sp.toNat)
    (below : sp.toNat ≤ kstackTop idx) :
    (sp - BitVec.ofNat 64 TF_SIZE).getLsbD KSTACK_SHIFT = true ↔
      kstackBaseVa idx ≤ (sp - BitVec.ofNat 64 TF_SIZE).toNat := by
  have carved := toNat_carved above
  rw [← BitVec.testBit_toNat]
  apply bit_iff
  · omega
  · omega

/-- The frame lies in the stack. -/
theorem FrameStores.inside (stores : FrameStores c d) (empty : c.stores = [])
    (above : kstackBaseVa idx ≤ (c.reg .sp).toNat)
    (below : (c.reg .sp).toNat + TF_SIZE ≤ kstackTop idx)
    (fits : (c.reg .sp).toNat + TF_SIZE < 2 ^ 64) :
    ∀ store ∈ d.stores, kstackBaseVa idx ≤ store.1.toNat ∧
      store.1.toNat + 8 ≤ kstackTop idx := by
  obtain ⟨-, frame, all, each⟩ := stores
  rw [empty, List.append_nil] at all
  intro store member
  rw [all] at member
  obtain ⟨offset, small, address⟩ := each store member
  have sum : store.1.toNat = (c.reg .sp).toNat + offset := by
    rw [address, BitVec.toNat_add, BitVec.toNat_ofNat]
    unfold TF_SIZE at small fits
    omega
  omega

/-- For a stack pointer in the stack of a slot and any other registers, `save_regs` diverts to
`__bad_stack` exactly when the frame would reach below the stack.  Then nothing has been stored and
`x0` holds the carved stack pointer; else all registers but the stack pointer are untouched at the
first store, and the stores stay inside the stack. -/
theorem saveRegs_guards (fresh : c.stores = []) (above : kstackBaseVa idx ≤ (c.reg .sp).toNat)
    (below : (c.reg .sp).toNat ≤ kstackTop idx) :
    ((∃ d, run saveRegs c = .error d) ↔
      (c.reg .sp - BitVec.ofNat 64 TF_SIZE).toNat < kstackBaseVa idx) ∧
    (∀ d, run saveRegs c = .error d →
      d.stores = [] ∧ d.reg (.x 0) = c.reg .sp - BitVec.ofNat 64 TF_SIZE) ∧
    ∀ e, run saveRegs c = .ok e →
      (∃ d, run saveGuard c = .ok d ∧ run saveFrame d = .ok e ∧ d.stores = [] ∧
        d.reg .sp = c.reg .sp - BitVec.ofNat 64 TF_SIZE ∧ ∀ i, d.reg (.x i) = c.reg (.x i)) ∧
      ∀ store ∈ e.stores, kstackBaseVa idx ≤ store.1.toNat ∧
        store.1.toNat + 8 ≤ kstackTop idx := by
  have frame : ∀ i ∈ saveFrame, i.InFrame := by decide
  have bit := carved_getLsbD above below
  have carved := toNat_carved above
  have width := (c.reg .sp).isLt
  by_cases set : (c.reg .sp - BitVec.ofNat 64 TF_SIZE).getLsbD KSTACK_SHIFT = true
  · have guards : run saveGuard c = .ok (c.set .sp (c.reg .sp - BitVec.ofNat 64 TF_SIZE)) := by
      rw [run_saveGuard, if_pos set]
    obtain ⟨e, runs, stores⟩ := run_inFrame (c := c.set .sp (c.reg .sp - BitVec.ofNat 64 TF_SIZE))
      frame
    have whole : run saveRegs c = .ok e := (run_append_of_ok guards).trans runs
    rw [whole]
    refine ⟨?_, ?_, ?_⟩
    · constructor
      · rintro ⟨d, ⟨⟩⟩
      · intro low
        exact absurd (bit.mp set) (not_le.mpr low)
    · rintro d ⟨⟩
    · intro e' same
      rw [← Except.ok.inj same]
      refine ⟨⟨_, guards, runs, fresh, Machine.set_reg_self .., ?_⟩, ?_⟩
      · intro i
        exact Machine.set_reg_of_ne (by simp) ..
      · apply stores.inside fresh
        · rw [Machine.set_reg_self]
          exact bit.mp set
        · rw [Machine.set_reg_self]
          omega
        · rw [Machine.set_reg_self]
          omega
  · have diverts : run saveRegs c =
        .error ((c.set .sp (c.reg .sp - BitVec.ofNat 64 TF_SIZE + c.reg (.x 0))).set (.x 0)
          (c.reg .sp - BitVec.ofNat 64 TF_SIZE)) := by
      apply run_append_of_error
      rw [run_saveGuard, if_neg set]
    rw [diverts]
    refine ⟨?_, ?_, ?_⟩
    · constructor
      · intro _
        exact not_le.mp (mt bit.mpr set)
      · intro _
        exact ⟨_, rfl⟩
    · intro d same
      rw [← Except.error.inj same]
      exact ⟨fresh, Machine.set_reg_self ..⟩
    · rintro e ⟨⟩

/-- The stack of the first slot, with nothing on it. -/
theorem saveRegs_guards_top :
    ((∃ d, run saveRegs ⟨fun _ => BitVec.ofNat 64 (kstackTop 0), fun _ => 0, []⟩ = .error d) ↔
      (BitVec.ofNat 64 (kstackTop 0) - BitVec.ofNat 64 TF_SIZE).toNat < kstackBaseVa 0) := by
  have above : kstackBaseVa 0 ≤ (BitVec.ofNat 64 (kstackTop 0)).toNat := by decide
  have below : (BitVec.ofNat 64 (kstackTop 0)).toNat ≤ kstackTop 0 := by decide
  exact (saveRegs_guards (c := ⟨fun _ => _, fun _ => 0, []⟩) rfl above below).1

end Vectors

end Av6
