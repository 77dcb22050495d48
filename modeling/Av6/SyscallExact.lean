import Av6.SyscallModel
import Av6.UserCopyExact

/-!
# What system calls transfer

The bytes of the user that go through the kernel and those that come from it, and which calls leave
the saved registers alone.
-/

namespace Av6

namespace Syscall

open FallibleState Kmem Pmap Fork Sbrk Life
open Exec (Trapframe)
open Exec (userByte userBytes userRangeOk userBytes_lt userByte_lt UserTree TablesSame userStore
  setByte translate isWritable)
open UserCopy (Writable)

variable {memory : Memory} {root va a b len p n done : Nat} {bytes sofar : List UInt8} {v : VmState}
  {s t : Sys} {setting : Setting}

theorem userBytes_add (first : userBytes memory root a va = some sofar)
    (second : userBytes memory root b (va + a) = some bytes) :
    userBytes memory root (a + b) va = some (sofar ++ bytes) := by
  induction a generalizing va sofar with
  | zero =>
      cases first
      rw [Nat.zero_add]
      exact second
  | succ a ih =>
      obtain ⟨byte, rest, rfl, head, tail⟩ := Exec.userBytes_succ first
      rw [Nat.add_right_comm]
      unfold userBytes
      rw [head]
      dsimp only
      rw [ih tail (by rwa [Nat.add_assoc, Nat.add_comm 1])]
      rfl

/-- Where bytes are missing, one is. -/
theorem exists_userByte_none (missing : userBytes memory root len va = none) :
    ∃ k < len, userByte memory root (va + k) = none := by
  induction len generalizing va with
  | zero => cases missing
  | succ len ih =>
      unfold userBytes at missing
      cases head : userByte memory root va with
      | none => exact ⟨0, Nat.succ_pos len, head⟩
      | some byte =>
          rw [head] at missing
          obtain ⟨k, less, none_⟩ := ih (Option.map_eq_none_iff.mp missing)
          exact ⟨k + 1, by omega, by rwa [Nat.add_assoc, Nat.add_comm 1] at none_⟩

/-- `copyin` gets the bytes that the user could read. -/
theorem copyin_eq (root va len : Nat) (v : VmState) :
    Exec.copyin root va len v = .ok (userBytes v.memory root len va, v) := by
  unfold Exec.copyin
  by_cases zero : len = 0
  · rw [if_pos zero, zero]
    rfl
  by_cases range : userRangeOk va len
  · rw [if_neg zero, if_neg (not_not_intro range), Exec.copyinBytes_eq]
    unfold userRangeOk at range
    omega
  · have missing : userBytes v.memory root len va = none := by
      obtain ⟨less, rfl⟩ := Nat.exists_eq_succ_of_ne_zero zero
      by_contra found
      obtain ⟨bytes, found⟩ := Option.ne_none_iff_exists'.mp found
      have bound := userBytes_lt found
      unfold userRangeOk at range
      omega
    rw [if_neg zero, if_pos range, missing]
    rfl

section

variable (space : (s.kernel.procs p).pagetable = some root)
include space

/-- A program that reads the memory of the caller. -/
theorem onUser_eq {α : Type} {m : Nat → Vm α} {x : α}
    (runs : m root s.kernel.vm = .ok (x, s.kernel.vm)) : onUser p m s = .ok (x, s) := by
  have reads : Yields (onTable (s.kernel.procs p).pagetable m) s.kernel.vm fun r t =>
      r = x ∧ t = s.kernel.vm := by
    rw [space]
    exact .of_eq runs ⟨rfl, rfl⟩
  have whole : Yields (onUser p m) s fun r t => r = x ∧ t = s := by
    apply Yields.read_bind
    apply (Yields.onPart (Yields.onPart (Yields.onPart reads))).mono
    rintro _ _ ⟨_, rfl, _, rfl, _, rfl, rfl, rfl⟩
    exact ⟨rfl, rfl⟩
  obtain ⟨_, _, reading, rfl, rfl⟩ := whole
  exact reading

/-- The loop of `sys_write`, when some bytes have been written. -/
theorem writeLoop_yields (buf : Nat) (le : done ≤ n) : ∃ w bytes, done ≤ w ∧ w ≤ n ∧
    writeLoop p buf n done s = .ok (if w = 0 ∧ 0 < n then MINUS_ONE else w,
      { s with output := s.output ++ bytes }) ∧
    (buf < 2 ^ 64 → WRITE_BOUNCE_SZ ∣ done ∨ done = n →
      ∀ sofar, userBytes s.kernel.vm.memory root done buf = some sofar →
        userBytes s.kernel.vm.memory root w buf = some (sofar ++ bytes) ∧
        (w = n ∨ WRITE_BOUNCE_SZ ∣ w ∧ ∃ k < n, w ≤ k ∧ k < w + WRITE_BOUNCE_SZ ∧
          userByte s.kernel.vm.memory root (buf + k) = none)) := by
  induction left : n - done using Nat.strong_induction_on generalizing done s with
  | _ left ih =>
  rw [writeLoop]
  split
  · rename_i more
    let chunk := if WRITE_BOUNCE_SZ < n - done then WRITE_BOUNCE_SZ else n - done
    have fits : 0 < chunk ∧ done + chunk ≤ n ∧ chunk ≤ WRITE_BOUNCE_SZ := by
      dsimp only [chunk]
      unfold WRITE_BOUNCE_SZ
      split <;> omega
    have address : buf < 2 ^ 64 → ∀ sofar, userBytes s.kernel.vm.memory root done buf = some sofar →
        (buf + done) % 2 ^ 64 = buf + done := by
      intro small sofar before
      apply Nat.mod_eq_of_lt
      cases done with
      | zero => exact small
      | succ done =>
          have bound := userBytes_lt before
          unfold MAXUVA at bound
          omega
    have copied : onUser p (Exec.copyin · ((buf + done) % 2 ^ 64) chunk) s = _ :=
      onUser_eq space (copyin_eq root ((buf + done) % 2 ^ 64) chunk s.kernel.vm)
    show ∃ w bytes, _ ∧ _ ∧ (onUser p (Exec.copyin · ((buf + done) % 2 ^ 64) chunk) >>= _) s = _ ∧ _
    rw [bind_eq_of_ok copied]
    cases outcome : userBytes s.kernel.vm.memory root chunk ((buf + done) % 2 ^ 64) with
    | none =>
        refine ⟨done, [], Nat.le_refl done, le, ?_, ?_⟩
        · rw [List.append_nil]
          have same : (done = 0 ∧ 0 < n) = (done = 0) := propext ⟨And.left, fun none_ => ⟨none_, by omega⟩⟩
          simp only [same]
          rfl
        · intro small whole sofar before
          rw [address small sofar before] at outcome
          obtain ⟨k, less, missing⟩ := exists_userByte_none outcome
          rw [List.append_nil]
          refine ⟨before, .inr ⟨whole.resolve_right (by omega), done + k, by omega, by omega, by omega, ?_⟩⟩
          rw [← Nat.add_assoc]
          exact missing
    | some bytes =>
        obtain ⟨w, more, lower, upper, runs, ends⟩ :=
          ih (n - (done + chunk)) (by omega) (s := { s with output := s.output ++ bytes }) space fits.2.1 rfl
        refine ⟨w, bytes ++ more, by omega, upper, ?_, ?_⟩
        · rw [← List.append_assoc]
          exact runs
        · intro small whole sofar before
          rw [address small sofar before] at outcome
          rw [← List.append_assoc]
          apply ends small ?_ _ (userBytes_add before outcome)
          have aligned := whole.resolve_right (by omega)
          dsimp only [chunk]
          split
          · exact .inl (Nat.dvd_add aligned (Nat.dvd_refl _))
          · omega
  · obtain rfl : done = n := by omega
    refine ⟨done, [], Nat.le_refl done, Nat.le_refl done, ?_, ?_⟩
    · rw [List.append_nil, if_neg (by omega)]
      rfl
    · intro _ _ sofar before
      rw [List.append_nil]
      exact ⟨before, .inl rfl⟩

end

/-- A user that may store to an address may load from it. -/
theorem readable_of_writable {pte : Nat} (writable : isWritable pte) :
    pte &&& Exec.PTE_AP_RW_ALL ≠ 0 := by
  have less : Exec.PTE_AP_RO_ALL &&& Exec.PTE_AP_RW_ALL = Exec.PTE_AP_RW_ALL := by decide
  rw [← less, ← Nat.land_assoc, writable]
  decide

theorem userStore_of_not_writable {byte : UInt8} (missed : ¬ Writable memory root va) :
    userStore memory root va byte = memory := by
  unfold userStore
  cases found : translate memory root va with
  | none => rfl
  | some pte => exact if_neg fun allowed => missed ⟨pte, found, allowed⟩

/-- `sttrb` is a store of the user, or it faults. -/
theorem sttrb_cases (root va : Nat) (byte : UInt8) (v : VmState) :
    Writable v.memory root va ∧ sttrb (some root) va byte v =
        .ok (true, { v with memory := userStore v.memory root va byte }) ∨
      ¬ Writable v.memory root va ∧ sttrb (some root) va byte v = .ok (false, v) := by
  have reads : (get : Vm VmState) v = .ok (v, v) := rfl
  unfold sttrb Writable userStore
  rw [bind_eq_of_ok reads, Option.bind_some]
  cases translate v.memory root va with
  | none => exact .inr ⟨by simp, rfl⟩
  | some pte =>
      by_cases writable : isWritable pte
      · simp only [if_pos writable]
        exact .inl ⟨⟨pte, rfl, writable⟩, rfl⟩
      · simp only [if_neg writable]
        refine .inr ⟨?_, rfl⟩
        rintro ⟨_, ⟨⟩, allowed⟩
        exact writable allowed

section

variable {live : CacheRef → Multiset Nat} {place : Place} {m m' : Memory} {dst k : Nat} {byte : UInt8}
  (tree : UserTree root live place v) (same : TablesSame place root v.memory m)
include tree same

/-- What a user that may store to an address sees after the store. -/
theorem userByte_userStore (writable : Writable m root dst) (va : Nat) :
    userByte (userStore m root dst byte) root va = if va = dst then some byte else userByte m root va := by
  obtain ⟨pte, found, allowed⟩ := writable
  have stored : userStore m root dst byte = setByte m (ptePage pte) (dst % PGSIZE) byte := by
    unfold userStore
    rw [found]
    exact if_pos allowed
  have tables : TablesSame place root v.memory (userStore m root dst byte) :=
    same.userStore tree.twins same tree.rooted
  have translation := tables.translate_eq tree.twins tree.rooted va
  rw [← same.translate_eq tree.twins tree.rooted va] at translation
  unfold userByte
  rw [translation, stored]
  by_cases here : va = dst
  · rw [if_pos here, here, found]
    dsimp only
    rw [if_pos (readable_of_writable allowed)]
    exact congrArg some (if_pos ⟨rfl, rfl⟩)
  · rw [if_neg here]
    cases found' : translate m root va with
    | none => rfl
    | some pte' =>
        have other : ¬ (ptePage pte' = ptePage pte ∧ va % PGSIZE = dst % PGSIZE) := by
          rintro ⟨page, off⟩
          rw [same.translate_eq tree.twins tree.rooted] at found found'
          have leaf := Exec.translate_leaf tree.twins tree.rooted found
          have leaf' := Exec.translate_leaf tree.twins tree.rooted found'
          rw [page] at leaf'
          have slot := tree.twins.ok.unique leaf' leaf
          unfold leafSlot at slot
          injection slot with _ above
          have upper := Nat.div_add_mod va PGSIZE
          have lower := Nat.div_add_mod dst PGSIZE
          rw [above, off] at upper
          exact here (upper.symm.trans lower)
        dsimp only
        rw [show setByte m (ptePage pte) (dst % PGSIZE) byte (ptePage pte') (va % PGSIZE) =
          m (ptePage pte') (va % PGSIZE) from if_neg other]

end

/-- The first `k` of the bytes are at the addresses of the user from `dst` on, and nothing else has
changed for the user. -/
structure Delivered (root dst : Nat) (bytes : List UInt8) (k : Nat) (m m' : Memory) : Prop where
  le : k ≤ bytes.length
  writable : ∀ i < k, Writable m root (dst + i)
  stops : k < bytes.length → ¬ Writable m root (dst + k) ∨ k = 0 ∧ MAXUVA < dst + bytes.length
  translation : ∀ va, translate m' root va = translate m root va
  seen : ∀ va, userByte m' root va =
    if dst ≤ va ∧ va < dst + k then bytes[va - dst]? else userByte m root va

theorem Delivered.none {root dst : Nat} {m : Memory}
    (stops : 0 < bytes.length → ¬ Writable m root dst ∨ MAXUVA < dst + bytes.length) :
    Delivered root dst bytes 0 m m := by
  refine ⟨Nat.zero_le _, nofun, fun less => ?_, fun _ => rfl, fun va => ?_⟩
  · exact (stops less).imp_right fun high => ⟨rfl, high⟩
  · rw [if_neg (by omega)]

section

variable {live : CacheRef → Multiset Nat} {place : Place} {m m' : Memory} {dst k : Nat} {byte : UInt8}
  (tree : UserTree root live place v) (same : TablesSame place root v.memory m)
include tree same

theorem Delivered.cons (writable : Writable m root dst)
    (rest : Delivered root (dst + 1) bytes k (userStore m root dst byte) m')
    (inUser : dst + 1 + bytes.length ≤ MAXUVA) :
    Delivered root dst (byte :: bytes) (k + 1) m m' := by
  have tables : TablesSame place root v.memory (userStore m root dst byte) :=
    same.userStore tree.twins same tree.rooted
  have translation : ∀ va, translate (userStore m root dst byte) root va = translate m root va := by
    intro va
    rw [tables.translate_eq tree.twins tree.rooted, same.translate_eq tree.twins tree.rooted]
  have allowed : ∀ va, Writable (userStore m root dst byte) root va ↔ Writable m root va := by
    intro va
    unfold Writable
    rw [translation]
  refine ⟨Nat.succ_le_succ rest.le, ?_, ?_, fun va => (rest.translation va).trans (translation va), ?_⟩
  · intro i less
    cases i with
    | zero => exact writable
    | succ i =>
        have next := (allowed _).mp (rest.writable i (by omega))
        rwa [Nat.add_assoc, Nat.add_comm 1] at next
  · intro less
    rcases rest.stops (Nat.lt_of_succ_lt_succ less) with missing | ⟨-, high⟩
    · rw [allowed, Nat.add_assoc, Nat.add_comm 1] at missing
      exact .inl missing
    · omega
  · intro va
    rw [rest.seen, userByte_userStore tree same writable]
    by_cases here : va = dst
    · subst here
      rw [if_neg (by omega), if_pos rfl, if_pos (by omega), Nat.sub_self]
      rfl
    · by_cases within : dst ≤ va ∧ va < dst + (k + 1)
      · have index : va - dst = (va - (dst + 1)) + 1 := by omega
        rw [if_pos (by omega), if_pos within, index]
        rfl
      · rw [if_neg (by omega), if_neg here, if_neg within]

end

/-- The saved registers, and where the processes have theirs. -/
def registers (k : Kernel) : (Nat → Trapframe) × (Nat → Nat) := (k.frames, fun q => (k.procs q).tf)

end Syscall

end Av6
