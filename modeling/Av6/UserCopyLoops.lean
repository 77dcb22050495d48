import Av6.UserCopySteps

/-!
# The loops of the copies

A loop of `copy_user.s` does round after round until the count is 0 or an access faults.  What it
has copied then are the bytes before the fault, and nothing else has been written.
-/

namespace Av6

namespace UserCopy

open A64 Kmem Pmap Exec

variable {s : VmState} {live : CacheRef → Multiset Nat} {place : Place} {maps : Regime}
  {dst src n x3 x4 : Nat} {z : Bool} {mem mem' mem₁ : Memory} {byte : UInt8} {onfault : Option Nat}

/-- The first bytes that the user sees at `src` are in the buffer, and nothing else has changed. -/
structure CopiedIn (maps : Regime) (memory memory' : Memory) (dst src n : Nat) : Prop where
  bytes : ∀ k < n, userByte memory maps.root (src + k) = some (kernelByte maps memory' (dst + k))
  rest : ∀ p off, (∀ k < n, p = maps.frame ((dst + k) / PGSIZE) → off ≠ (dst + k) % PGSIZE) →
    memory' p off = memory p off

/-- A buffer of the kernel: no byte is in a page of the page table, and its pages have different
frames. -/
structure Buffer (place : Place) (maps : Regime) (buffer n : Nat) : Prop where
  apart : ∀ k < n, ∀ slot, slot.Of maps.root → place slot ≠ some (maps.frame ((buffer + k) / PGSIZE))
  frames : ∀ k < n, ∀ k' < n,
    maps.frame ((buffer + k) / PGSIZE) = maps.frame ((buffer + k') / PGSIZE) →
      (buffer + k) / PGSIZE = (buffer + k') / PGSIZE
  fits : buffer + n ≤ 2 ^ 64

theorem Buffer.take (buffer : Buffer place maps dst n) {k : Nat} (le : k ≤ n) :
    Buffer place maps dst k := by
  have fits := buffer.fits
  exact ⟨fun j less => buffer.apart j (by omega),
    fun j less j' less' => buffer.frames j (by omega) j' (by omega), by omega⟩

theorem Buffer.tail (buffer : Buffer place maps dst (n + 1)) : Buffer place maps (dst + 1) n := by
  have shift : ∀ k, dst + 1 + k = dst + (k + 1) := fun k => by omega
  constructor
  · intro k less
    rw [shift]
    exact buffer.apart (k + 1) (by omega)
  · intro k less k' less'
    rw [shift, shift]
    exact buffer.frames (k + 1) (by omega) (k' + 1) (by omega)
  · have fits := buffer.fits
    omega

theorem CopiedIn.zero : CopiedIn maps mem mem dst src 0 :=
  ⟨fun _ less => absurd less (Nat.not_lt_zero _), fun _ _ _ => rfl⟩

theorem storeKernel_tree (same : TreeSame place maps.root s.memory mem)
    (buffer : Buffer place maps dst (n + 1)) :
    TreeSame place maps.root s.memory (storeKernel maps mem dst byte) := by
  intro slot p off of there
  unfold storeKernel setByte
  rw [if_neg, same slot p off of there]
  rintro ⟨rfl, -⟩
  exact buffer.apart 0 (Nat.succ_pos n) slot of there

/-- One byte has been copied before the others. -/
theorem CopiedIn.cons (tree : UserTree maps.root live place s)
    (same : TreeSame place maps.root s.memory mem) (buffer : Buffer place maps dst (n + 1))
    (found : userByte mem maps.root src = some byte)
    (copied : CopiedIn maps (storeKernel maps mem dst byte) mem' (dst + 1) (src + 1) n) :
    CopiedIn maps mem mem' dst src (n + 1) := by
  have sees : ∀ va, userByte (storeKernel maps mem dst byte) maps.root va = userByte mem maps.root va := by
    intro va
    rw [(storeKernel_tree same buffer).userByte_eq tree.twins tree.rooted,
      same.userByte_eq tree.twins tree.rooted]
  have other : ∀ k < n, maps.frame (dst / PGSIZE) = maps.frame ((dst + 1 + k) / PGSIZE) →
      dst % PGSIZE ≠ (dst + 1 + k) % PGSIZE := by
    intro k less frame off
    rw [show dst + 1 + k = dst + (k + 1) by omega] at frame off
    have page := buffer.frames 0 (Nat.succ_pos n) (k + 1) (by omega) frame
    unfold PGSIZE at page off
    omega
  constructor
  · rintro (_ | k) less
    · have stored : kernelByte maps mem' (dst + 0) = byte := by
        unfold kernelByte
        rw [Nat.add_zero, copied.rest _ _ other]
        exact if_pos ⟨rfl, rfl⟩
      rw [stored, Nat.add_zero, found]
    · have there := copied.bytes k (by omega)
      rw [sees] at there
      rw [show src + (k + 1) = src + 1 + k by omega, there, show dst + (k + 1) = dst + 1 + k by omega]
  · intro p off outside
    rw [copied.rest p off]
    · unfold storeKernel setByte
      exact if_neg fun both => outside 0 (Nat.succ_pos n) both.1 both.2
    · intro k less
      rw [show dst + 1 + k = dst + (k + 1) by omega]
      exact outside (k + 1) (by omega)

theorem minus_one {n : Nat} (small : n + 1 < 2 ^ 64) : minus (n + 1) 1 = n := by
  unfold minus
  omega

/-- A round of `_copyin_bytes`. -/
theorem copyin_round (found : userByte mem maps.root src = some byte) (low : src + 1 < 2 ^ 64)
    (small : n + 1 < 2 ^ 64) :
    Path maps ⟨1, dst, src, n + 1, x3, x4, z, mem, onfault⟩
      ⟨if n = 0 then 6 else 1, (dst + 1) % 2 ^ 64, src + 1, n, byte.toNat, x4, n = 0,
        storeKernel maps mem dst byte, onfault⟩ := by
  have first : Path maps ⟨1, dst, src, n + 1, x3, x4, z, mem, onfault⟩ _ :=
    (steps_ldtrb rfl found).path <| (steps_strb rfl).path <| (steps_add1 rfl).path <|
      (steps_subs rfl).path <| (steps_bne rfl).path (.refl _)
  simp only [minus_one small, Nat.mod_eq_of_lt low, UInt8.ofNat_toNat, decide_eq_true_eq] at first
  exact first

/-- What `_copyin_bytes` comes to, from a view that is at the start of a round. -/
def EndsIn (maps : Regime) (v : View) (dst src n : Nat) : Prop :=
  ∃ k v', Path maps v v' ∧ v'.pc = callerPc ∧ k ≤ n ∧ CopiedIn maps v.mem v'.mem dst src k ∧
    (k = n ∧ v'.x0 = 0 ∨ k < n ∧ v'.x0 = 2 ^ 64 - 1 ∧ userByte v.mem maps.root (src + k) = none)

/-- The load faults. -/
theorem EndsIn.fault (missed : userByte mem maps.root src = none) :
    EndsIn maps ⟨1, dst, src, n + 1, x3, x4, z, mem, some copyFault⟩ dst src (n + 1) := by
  have faults : Path maps ⟨1, dst, src, n + 1, x3, x4, z, mem, some copyFault⟩ _ :=
    (steps_abort rfl (fun m here => aborts_ldtrb (v := ⟨1, dst, src, n + 1, x3, x4, z, mem,
      some copyFault⟩) missed here) rfl).path <| path_fault rfl
  exact ⟨0, _, faults, rfl, Nat.zero_le _, .zero, .inr ⟨Nat.succ_pos n, rfl, missed⟩⟩

/-- The loop after a round. -/
theorem EndsIn.next (tree : UserTree maps.root live place s) (same : TreeSame place maps.root s.memory mem)
    (buffer : Buffer place maps dst (n + 1)) (found : userByte mem maps.root src = some byte) {v v' : View}
    (here : v.mem = mem) (there : v'.mem = storeKernel maps mem dst byte) (once : Path maps v v')
    (ends : EndsIn maps v' (dst + 1) (src + 1) n) : EndsIn maps v dst src (n + 1) := by
  obtain ⟨k, last, path, stops, le, copied, outcome⟩ := ends
  have sees : ∀ va, userByte v'.mem maps.root va = userByte mem maps.root va := by
    intro va
    rw [there, (storeKernel_tree same buffer).userByte_eq tree.twins tree.rooted,
      same.userByte_eq tree.twins tree.rooted]
  rw [sees, show src + 1 + k = src + (k + 1) by omega] at outcome
  rw [there] at copied
  refine ⟨k + 1, last, once.trans path, stops, by omega, ?_, ?_⟩
  · rw [here]
    exact copied.cons tree same (buffer.take (Nat.succ_le_succ le)) found
  · rw [here]
    rcases outcome with ⟨rfl, zero⟩ | ⟨less, failed, missed⟩
    · exact .inl ⟨rfl, zero⟩
    · exact .inr ⟨by omega, failed, missed⟩

/-- `_copyin_bytes` copies the bytes before the first fault. -/
theorem copyin_loop (tree : UserTree maps.root live place s) (same : TreeSame place maps.root s.memory mem)
    (buffer : Buffer place maps dst (n + 1)) (inUser : src + (n + 1) ≤ MAXUVA) :
    EndsIn maps ⟨1, dst, src, n + 1, x3, x4, z, mem, some copyFault⟩ dst src (n + 1) := by
  have bound : MAXUVA < 2 ^ 64 := by decide
  have fits := buffer.fits
  induction n generalizing dst src x3 z mem with
  | zero =>
      cases found : userByte mem maps.root src with
      | none => exact .fault found
      | some byte =>
          apply EndsIn.next tree same buffer found rfl rfl (copyin_round found (by omega) (by omega))
          exact ⟨0, _, (steps_movImm rfl).path ((steps_ret rfl).path (.refl _)), rfl, Nat.le_refl 0,
            .zero, .inl ⟨rfl, rfl⟩⟩
  | succ n ih =>
      cases found : userByte mem maps.root src with
      | none => exact .fault found
      | some byte =>
          apply EndsIn.next tree same buffer found rfl rfl (copyin_round found (by omega) (by omega))
          rw [if_neg (Nat.succ_ne_zero n), Nat.mod_eq_of_lt (by omega : dst + 1 < 2 ^ 64)]
          exact ih (storeKernel_tree same buffer) buffer.tail (by omega) buffer.tail.fits

/-- The first bytes of the buffer are at the user addresses from `dst` on, and nothing else has
changed. -/
structure CopiedOut (maps : Regime) (memory memory' : Memory) (dst src n : Nat) : Prop where
  bytes : ∀ k < n, ∃ pte, translate memory maps.root (dst + k) = some pte ∧ isWritable pte ∧
    memory' (ptePage pte) ((dst + k) % PGSIZE) = kernelByte maps memory (src + k)
  rest : ∀ p off, (∀ k < n, ∀ pte, translate memory maps.root (dst + k) = some pte → p = ptePage pte →
    off ≠ (dst + k) % PGSIZE) → memory' p off = memory p off

theorem CopiedOut.zero : CopiedOut maps mem mem dst src 0 :=
  ⟨fun _ less => absurd less (Nat.not_lt_zero _), fun _ _ _ => rfl⟩

/-- A byte of the user has been stored. -/
def storeUser (memory : Memory) (pte va : Nat) (byte : UInt8) : Memory :=
  setByte memory (ptePage pte) (va % PGSIZE) byte

section

variable (tree : UserTree maps.root live place s) {pte : Nat}
include tree

theorem storeUser_tables (same : TablesSame place maps.root s.memory mem)
    (found : translate mem maps.root dst = some pte) :
    TablesSame place maps.root s.memory (storeUser mem pte dst byte) := by
  rw [same.translate_eq tree.twins tree.rooted] at found
  intro level above p off there
  unfold storeUser setByte
  rw [if_neg, same level above p off there]
  rintro ⟨rfl, -⟩
  cases tree.twins.ok.unique there (translate_leaf tree.twins tree.rooted found)

/-- One byte has been copied before the others. -/
theorem CopiedOut.cons (same : TablesSame place maps.root s.memory mem)
    (buffer : Buffer place maps src (n + 1)) (found : translate mem maps.root dst = some pte)
    (writable : isWritable pte)
    (copied : CopiedOut maps (storeUser mem pte dst (kernelByte maps mem src)) mem' (dst + 1) (src + 1) n) :
    CopiedOut maps mem mem' dst src (n + 1) := by
  have sees : ∀ va, translate (storeUser mem pte dst (kernelByte maps mem src)) maps.root va =
      translate mem maps.root va := by
    intro va
    rw [(storeUser_tables tree same found).translate_eq tree.twins tree.rooted,
      same.translate_eq tree.twins tree.rooted]
  have leaf : ∀ {va pte}, translate mem maps.root va = some pte →
      place (leafSlot maps.root va) = some (ptePage pte) := by
    intro va pte there
    rw [same.translate_eq tree.twins tree.rooted] at there
    exact translate_leaf tree.twins tree.rooted there
  have other : ∀ k pte', translate mem maps.root (dst + 1 + k) = some pte' → ptePage pte = ptePage pte' →
      dst % PGSIZE ≠ (dst + 1 + k) % PGSIZE := by
    intro k pte' there page off
    have here := leaf found
    rw [page] at here
    have number := (Slot.leaf.inj (tree.twins.ok.unique here (leaf there))).2
    unfold PGSIZE at number off
    omega
  constructor
  · rintro (_ | k) less
    · refine ⟨pte, found, writable, ?_⟩
      rw [Nat.add_zero, Nat.add_zero, copied.rest]
      · exact if_pos ⟨rfl, rfl⟩
      · intro k _ pte' there
        rw [sees] at there
        exact other k pte' there
    · obtain ⟨pte', there, writable', stored⟩ := copied.bytes k (by omega)
      have buffer : kernelByte maps (storeUser mem pte dst (kernelByte maps mem src)) (src + 1 + k) =
          kernelByte maps mem (src + 1 + k) := by
        refine if_neg fun both => ?_
        have here := leaf found
        rw [← both.1, show src + 1 + k = src + (k + 1) by omega] at here
        exact buffer.apart (k + 1) (by omega) _ (show (leafSlot maps.root dst).Of maps.root from rfl) here
      rw [sees] at there
      rw [buffer] at stored
      rw [show dst + (k + 1) = dst + 1 + k by omega, show src + (k + 1) = src + 1 + k by omega]
      exact ⟨pte', there, writable', stored⟩
  · intro p off outside
    rw [copied.rest p off]
    · exact if_neg fun both => outside 0 (Nat.succ_pos n) pte found both.1 both.2
    · intro k less pte' there
      rw [sees] at there
      rw [show dst + 1 + k = dst + (k + 1) by omega] at there ⊢
      exact outside (k + 1) (by omega) pte' there

end

/-- A round of `_copyout_bytes`. -/
theorem copyout_round {pte : Nat} (found : translate mem maps.root dst = some pte)
    (writable : isWritable pte) (low : dst + 1 < 2 ^ 64) (small : n + 1 < 2 ^ 64) :
    Path maps ⟨9, dst, src, n + 1, x3, x4, z, mem, onfault⟩
      ⟨if n = 0 then 14 else 9, dst + 1, (src + 1) % 2 ^ 64, n, (kernelByte maps mem src).toNat, x4, n = 0,
        storeUser mem pte dst (kernelByte maps mem src), onfault⟩ := by
  have first : Path maps ⟨9, dst, src, n + 1, x3, x4, z, mem, onfault⟩ _ :=
    (steps_ldrb rfl).path <| (steps_sttrb rfl found writable).path <| (steps_add0 rfl).path <|
      (steps_subs rfl).path <| (steps_bne rfl).path (.refl _)
  simp only [minus_one small, Nat.mod_eq_of_lt low, UInt8.ofNat_toNat, decide_eq_true_eq] at first
  exact first

/-- The user may not write to the address. -/
def Unwritable (memory : Memory) (root va : Nat) : Prop :=
  ∀ pte, translate memory root va = some pte → ¬ isWritable pte

/-- What `_copyout_bytes` comes to, from a view that is at the start of a round. -/
def EndsOut (maps : Regime) (v : View) (dst src n : Nat) : Prop :=
  ∃ k v', Path maps v v' ∧ v'.pc = callerPc ∧ k ≤ n ∧ CopiedOut maps v.mem v'.mem dst src k ∧
    (k = n ∧ v'.x0 = 0 ∨ k < n ∧ v'.x0 = 2 ^ 64 - 1 ∧ Unwritable v.mem maps.root (dst + k))

/-- The store faults. -/
theorem EndsOut.fault (missed : Unwritable mem maps.root dst) :
    EndsOut maps ⟨9, dst, src, n + 1, x3, x4, z, mem, some copyFault⟩ dst src (n + 1) := by
  have faults : Path maps ⟨9, dst, src, n + 1, x3, x4, z, mem, some copyFault⟩ _ :=
    (steps_ldrb rfl).path <| (steps_abort rfl (fun m here => aborts_sttrb (v := ⟨10, dst,
      (src + 1) % 2 ^ 64, n + 1, (kernelByte maps mem src).toNat, x4, z, mem, some copyFault⟩) missed here)
      rfl).path <| path_fault rfl
  exact ⟨0, _, faults, rfl, Nat.zero_le _, .zero, .inr ⟨Nat.succ_pos n, rfl, missed⟩⟩

/-- The loop after a round. -/
theorem EndsOut.next {pte : Nat} (tree : UserTree maps.root live place s)
    (same : TablesSame place maps.root s.memory mem) (buffer : Buffer place maps src (n + 1))
    (found : translate mem maps.root dst = some pte) (writable : isWritable pte) {v v' : View}
    (here : v.mem = mem) (there : v'.mem = storeUser mem pte dst (kernelByte maps mem src))
    (once : Path maps v v') (ends : EndsOut maps v' (dst + 1) (src + 1) n) :
    EndsOut maps v dst src (n + 1) := by
  obtain ⟨k, last, path, stops, le, copied, outcome⟩ := ends
  have sees : ∀ va, translate v'.mem maps.root va = translate mem maps.root va := by
    intro va
    rw [there, (storeUser_tables tree same found).translate_eq tree.twins tree.rooted,
      same.translate_eq tree.twins tree.rooted]
  unfold Unwritable at outcome
  rw [sees, show dst + 1 + k = dst + (k + 1) by omega] at outcome
  rw [there] at copied
  refine ⟨k + 1, last, once.trans path, stops, by omega, ?_, ?_⟩
  · rw [here]
    exact copied.cons tree same (buffer.take (Nat.succ_le_succ le)) found writable
  · rw [here]
    rcases outcome with ⟨rfl, zero⟩ | ⟨less, failed, missed⟩
    · exact .inl ⟨rfl, zero⟩
    · exact .inr ⟨by omega, failed, missed⟩

/-- `_copyout_bytes` copies the bytes before the first fault. -/
theorem copyout_loop (tree : UserTree maps.root live place s) (same : TablesSame place maps.root s.memory mem)
    (buffer : Buffer place maps src (n + 1)) (inUser : dst + (n + 1) ≤ MAXUVA) :
    EndsOut maps ⟨9, dst, src, n + 1, x3, x4, z, mem, some copyFault⟩ dst src (n + 1) := by
  have bound : MAXUVA < 2 ^ 64 := by decide
  have fits := buffer.fits
  by_cases missed : Unwritable mem maps.root dst
  · exact .fault missed
  obtain ⟨pte, found, writable⟩ : ∃ pte, translate mem maps.root dst = some pte ∧ isWritable pte := by
    unfold Unwritable at missed
    simpa using missed
  induction n generalizing dst src x3 z mem pte with
  | zero =>
      apply EndsOut.next tree same buffer found writable rfl rfl
        (copyout_round found writable (by omega) (by omega))
      exact ⟨0, _, (steps_movImm rfl).path ((steps_ret rfl).path (.refl _)), rfl, Nat.le_refl 0,
        .zero, .inl ⟨rfl, rfl⟩⟩
  | succ n ih =>
      apply EndsOut.next tree same buffer found writable rfl rfl
        (copyout_round found writable (by omega) (by omega))
      rw [if_neg (Nat.succ_ne_zero n), Nat.mod_eq_of_lt (by omega : src + 1 < 2 ^ 64)]
      by_cases missed' : Unwritable (storeUser mem pte dst (kernelByte maps mem src)) maps.root (dst + 1)
      · exact .fault missed'
      obtain ⟨pte', found', writable'⟩ : ∃ pte', translate (storeUser mem pte dst (kernelByte maps mem src))
          maps.root (dst + 1) = some pte' ∧ isWritable pte' := by
        unfold Unwritable at missed'
        simpa using missed'
      exact ih (storeUser_tables tree same found) buffer.tail (by omega) buffer.tail.fits missed'
        pte' found' writable'

end UserCopy

end Av6
