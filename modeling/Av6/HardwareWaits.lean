import Mathlib.Data.BitVec
import Av6.Deadlines

/-!
# Waiting for the hardware

The wait loops of `gic_wait_rwp`, `panic_stop_others` and `smp_init`.  Each takes the counter
frequency, a counter reading at its entry where it makes one, and what it reads round by round.
-/

namespace Av6

namespace HardwareWaits

open Deadlines

def GICD_CTLR_RWP : BitVec 32 := 1#32 <<< 31

def GIC_RWP_SPINS : BitVec 64 := 100000000

def PANIC_STOP_SPINS : BitVec 64 := 100000000

def SMP_ONLINE_SPINS : BitVec 64 := 500000000

def SMP_ONLINE_SECS : BitVec 64 := 5

/-- The loop that the three functions have in common: up to the deadline, or for a number of
rounds where the frequency reads zero. -/
def waitLoop (freq deadline : BitVec 64) : BitVec 64 → List (Poll (BitVec 64)) → Outcome
  | _, [] => .waiting
  | spins, poll :: polls =>
      if poll.unmet then
        if freq ≠ 0 then
          if deadline ≤ poll.now then .gaveUp 0 else (waitLoop freq deadline spins polls).later
        else if spins - 1 = 0 then .gaveUp 0
        else (waitLoop freq deadline (spins - 1) polls).later
      else .met 0

/-- The rounds of a loop, from what the source reads in them. -/
def polls {α : Type*} (unmet : α → Bool) (rounds : List (α × BitVec 64)) :
    List (Poll (BitVec 64)) :=
  rounds.map fun round => ⟨unmet round.1, round.2⟩

/-- `GICD_CTLR` says that a register write is pending. -/
def rwpPending (ctlr : BitVec 32) : Bool :=
  ctlr &&& GICD_CTLR_RWP ≠ 0

/-- `gic_wait_rwp`; the rounds read `GICD_CTLR` and the counter.  The deadline adds the frequency
to the frequency. -/
def gicWaitRwp (freq : BitVec 64) (rounds : List (BitVec 32 × BitVec 64)) : Outcome :=
  let spins := GIC_RWP_SPINS
  let deadline := if freq ≠ 0 then freq + freq else 0
  waitLoop freq deadline spins (polls rwpPending rounds)

/-- The fields of `struct cpu` that `panic_stop_others` reads. -/
structure CpuStatus where
  online : BitVec 32
  halted : BitVec 32

/-- The number of other CPUs that have not stopped. -/
def stuckCpus (self : Nat) (cpus : List CpuStatus) : Nat :=
  cpus.zipIdx.countP fun (cpu, i) => i ≠ self ∧ cpu.online ≠ 0 ∧ cpu.halted = 0

/-- `panic_stop_others`; the rounds read the status of all CPUs and the counter. -/
def panicStopOthers (freq entry : BitVec 64) (self : Nat)
    (rounds : List (List CpuStatus × BitVec 64)) : Outcome × Nat :=
  let spins := PANIC_STOP_SPINS
  let deadline := if freq ≠ 0 then entry + freq else 0
  let outcome := waitLoop freq deadline spins (polls (stuckCpus self · ≠ 0) rounds)
  (outcome, match outcome with
    | .gaveUp k => (rounds[k]?.map fun round => stuckCpus self round.1).getD 0
    | _ => 0)

/-- The wait of `smp_init` for a CPU; the rounds read its `online` and the counter. -/
def smpOnlineWait (freq entry : BitVec 64) (rounds : List (BitVec 32 × BitVec 64)) : Outcome :=
  let spins := SMP_ONLINE_SPINS
  let deadline := if freq ≠ 0 then entry + freq * SMP_ONLINE_SECS else 0
  waitLoop freq deadline spins (polls (· = 0) rounds)

/-- The counter readings do not decrease. -/
def InOrder {α : Type*} (rounds : List (α × BitVec 64)) : Prop :=
  (rounds.map fun round => round.2.toNat).Pairwise (· ≤ ·)

/-- The counter readings that are taken while the condition is unmet. -/
def readings {α : Type*} (unmet : α → Bool) (rounds : List (α × BitVec 64)) : List Nat :=
  taken (rounds.map fun round => ⟨unmet round.1, round.2.toNat⟩)

section Loop

variable {α : Type*} {freq deadline spins : BitVec 64} {unmet : α → Bool}
  {rounds : List (α × BitVec 64)}

/-- With a frequency the loop waits until its deadline. -/
theorem waitLoop_eq (positive : freq ≠ 0) :
    waitLoop freq deadline spins (polls unmet rounds) =
      wait deadline.toNat (rounds.map fun round => ⟨unmet round.1, round.2.toNat⟩) := by
  unfold polls
  induction rounds with
  | nil => rfl
  | cons round rounds ih =>
      rw [List.map_cons, List.map_cons, waitLoop, wait, if_pos positive, ih]
      rfl

theorem waitLoop_honours_iff (positive : freq ≠ 0) (inOrder : InOrder rounds) {due : Nat} :
    Honours (waitLoop freq deadline spins (polls unmet rounds)) due (readings unmet rounds) ↔
      ∀ now ∈ readings unmet rounds, deadline.toNat ≤ now ↔ due ≤ now := by
  rw [waitLoop_eq positive]
  apply honours_iff
  rw [List.map_map]
  exact inOrder

theorem reading_lt {now : Nat} (member : now ∈ readings unmet rounds) : now < 2 ^ 64 := by
  have inRounds := (taken_sublist _).subset member
  rw [List.map_map] at inRounds
  obtain ⟨round, -, rfl⟩ := List.mem_map.mp inRounds
  exact round.2.isLt

/-- A deadline that is the due time, as far as 64 bits hold it. -/
theorem honours_wrapped_iff (positive : freq ≠ 0) (inOrder : InOrder rounds) {due : Nat}
    (wrapped : deadline.toNat = due % 2 ^ 64) :
    Honours (waitLoop freq deadline spins (polls unmet rounds)) due (readings unmet rounds) ↔
      due < 2 ^ 64 ∨ ∀ now ∈ readings unmet rounds, now < due % 2 ^ 64 := by
  rw [waitLoop_honours_iff positive inOrder, wrapped]
  constructor
  · intro agree
    by_cases small : due < 2 ^ 64
    · exact .inl small
    · refine .inr fun now member => ?_
      have less := reading_lt member
      have same := agree now member
      omega
  · intro condition now member
    have less := reading_lt member
    rcases condition with small | before
    · rw [Nat.mod_eq_of_lt small]
    · have early := before now member
      have bound := Nat.mod_le due (2 ^ 64)
      omega

end Loop

/-- When the wait loops honour their budgets, counted from a counter reading of `entry`.  That of
`gic_wait_rwp` does if no reading that it takes comes between twice the frequency, its deadline,
and the end of its second.  The other two do if the end of their budget can be counted in 64 bits,
or else is not taken for reached. -/
theorem waits_honour_iff (freq entry : BitVec 64) (positive : freq ≠ 0) :
    (∀ rounds, InOrder rounds →
      (Honours (gicWaitRwp freq rounds) (entry.toNat + freq.toNat)
          (readings rwpPending rounds) ↔
        ∀ now ∈ readings rwpPending rounds,
          2 * freq.toNat % 2 ^ 64 ≤ now ↔ entry.toNat + freq.toNat ≤ now)) ∧
    (∀ self rounds, InOrder rounds →
      (Honours (panicStopOthers freq entry self rounds).1 (entry.toNat + freq.toNat)
          (readings (stuckCpus self · ≠ 0) rounds) ↔
        entry.toNat + freq.toNat < 2 ^ 64 ∨
          ∀ now ∈ readings (stuckCpus self · ≠ 0) rounds,
            now < (entry.toNat + freq.toNat) % 2 ^ 64)) ∧
    (∀ rounds, InOrder rounds →
      (Honours (smpOnlineWait freq entry rounds) (entry.toNat + 5 * freq.toNat)
          (readings (· = 0) rounds) ↔
        entry.toNat + 5 * freq.toNat < 2 ^ 64 ∨
          ∀ now ∈ readings (· = 0) rounds,
            now < (entry.toNat + 5 * freq.toNat) % 2 ^ 64)) := by
  refine ⟨?_, ?_, ?_⟩
  · intro rounds inOrder
    have deadline : (freq + freq).toNat = 2 * freq.toNat % 2 ^ 64 := by
      rw [BitVec.toNat_add, Nat.two_mul]
    unfold gicWaitRwp
    rw [if_pos positive]
    exact deadline ▸ waitLoop_honours_iff positive inOrder
  · intro self rounds inOrder
    unfold panicStopOthers
    rw [if_pos positive]
    exact honours_wrapped_iff positive inOrder (BitVec.toNat_add entry freq)
  · intro rounds inOrder
    have deadline : (entry + freq * SMP_ONLINE_SECS).toNat =
        (entry.toNat + 5 * freq.toNat) % 2 ^ 64 := by
      have seconds : SMP_ONLINE_SECS.toNat = 5 := rfl
      rw [BitVec.toNat_add, BitVec.toNat_mul, seconds, Nat.add_mod_mod, Nat.mul_comm]
    unfold smpOnlineWait
    rw [if_pos positive]
    exact honours_wrapped_iff positive inOrder deadline

/-- A counter that stands at its frequency at the entry to `gic_wait_rwp`. -/
theorem waits_honour_early :
    Honours (gicWaitRwp 100 [(GICD_CTLR_RWP, 120), (GICD_CTLR_RWP, 230)]) 200
        (readings rwpPending [(GICD_CTLR_RWP, 120), (GICD_CTLR_RWP, 230)]) ↔
      ∀ now ∈ readings rwpPending [(GICD_CTLR_RWP, 120), (GICD_CTLR_RWP, 230)],
        2 * 100 % 2 ^ 64 ≤ now ↔ 100 + 100 ≤ now :=
  (waits_honour_iff 100 100 (by decide)).1 _ (by simp [InOrder])

/-- With a counter of 62.5 MHz, three seconds after its start, `gic_wait_rwp` does not wait. -/
theorem gic_gives_up_at_once :
    ¬ ∀ (freq entry : BitVec 64) (rounds : List (BitVec 32 × BitVec 64)), freq ≠ 0 →
      entry.toNat + freq.toNat < 2 ^ 64 → InOrder rounds →
        (∀ round ∈ rounds, entry ≤ round.2) →
          Honours (gicWaitRwp freq rounds) (entry.toNat + freq.toNat)
            (readings rwpPending rounds) := by
  intro honours
  have early := honours 62500000 187500000 [(GICD_CTLR_RWP, 187500000)] (by decide) (by decide)
    (by simp [InOrder]) (by simp)
  obtain ⟨now, taken, late⟩ := early.notEarly 0 rfl
  have reading : now = 187500000 := (Option.some.inj taken).symm
  rw [reading] at late
  simp at late

end HardwareWaits

end Av6
