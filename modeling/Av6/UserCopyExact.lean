import Av6.ExecLimits
import Av6.TransitionSystem
import Av6.UserCopyLoops

/-!
# What the copies come to

A copy arms the data abort handler, runs its loop and disarms it again.  Whatever the page table of
the user is, it returns, and its result tells whether all of the bytes have been copied.
-/

namespace Av6

namespace UserCopy

open A64 Kmem Pmap Exec TransitionSystem

variable {s : VmState} {live : CacheRef → Multiset Nat} {place : Place} {maps : Regime}
  {buffer user len n : Nat} {m m' : Machine} {r : Int}

/-- The user may load from the address. -/
def Readable (memory : Memory) (root va : Nat) : Prop := userByte memory root va ≠ none

/-- The user may store to the address. -/
def Writable (memory : Memory) (root va : Nat) : Prop :=
  ∃ pte, translate memory root va = some pte ∧ isWritable pte

theorem unwritable_iff {memory : Memory} {root va : Nat} :
    Unwritable memory root va ↔ ¬ Writable memory root va := by
  unfold Unwritable Writable
  simp

theorem toInt32_of_lt {x : Nat} (small : x < 2 ^ 31) : toInt32 x = x := by
  unfold toInt32
  rw [if_pos (by omega)]
  omega

theorem toInt32_fault : toInt32 (2 ^ 64 - 1) = -1 := by decide

/-- The machine at the entry of a guarded call. -/
def entered (entry a b c : Nat) (m : Machine) : Machine :=
  { m with
    cpu := { m.cpu with
      x := fun r => match r with
        | 0 => a
        | 1 => b
        | 2 => c
        | 30 => callerPc
        | r => m.cpu.x r
      pc := entry }
    onfault := some copyFault }

/-- A call of the section that comes to an end. -/
theorem guarded_of_path {entry a b c : Nat} {v : View} (path : Path maps
    ⟨entry, a, b, c, m.cpu.x 3, m.cpu.x 4, m.cpu.z, m.cpu.mem, some copyFault⟩ v)
    (stops : v.pc = callerPc) :
    ∃ m' enough, m'.cpu.mem = v.mem ∧ m'.onfault = none ∧
      ∀ fuel ≥ enough, guarded maps fuel entry a b c m = .ok (toInt32 v.x0, m') := by
  obtain ⟨last, leads, there⟩ :=
    path (entered entry a b c m) ⟨rfl, rfl, rfl, rfl, rfl, rfl, rfl, rfl, rfl, rfl⟩
  have stuck : ∀ m m' : Machine, m.cpu.pc = callerPc → step maps m ≠ .ok m' := by
    intro m m' out taken
    unfold step at taken
    rw [out] at taken
    cases taken
  obtain ⟨enough, runs⟩ := leads.runUntil (there.pc.trans stops) stuck
  refine ⟨{ last with onfault := none }, enough, there.mem, rfl, fun fuel more => ?_⟩
  have called := runs fuel more
  unfold guarded call
  rw [← there.x0]
  exact congrArg (· >>= fun m => Except.ok (toInt32 (m.cpu.x 0), { m with onfault := none })) called

/-- The outcome of a copy of `len` bytes from or to the addresses from `user` on; `copied n` says
that the first `n` bytes have been transferred, and that nothing else has been written. -/
structure CopyOutcome (access copied : Nat → Prop) (user len : Nat) (r : Int) : Prop where
  result : r = 0 ∨ r = -1
  zero : r = 0 ↔ len = 0 ∨ user + len ≤ MAXUVA ∧ ∀ k < len, access (user + k)
  complete : r = 0 → copied len
  refused : len ≠ 0 → MAXUVA < user + len → copied 0
  fault : len ≠ 0 → user + len ≤ MAXUVA → ∀ n < len, (∀ k < n, access (user + k)) →
    ¬ access (user + n) → copied n

section

variable {access copied : Nat → Prop}

theorem CopyOutcome.empty (none : copied 0) : CopyOutcome access copied user 0 0 :=
  ⟨.inl rfl, ⟨fun _ => .inl rfl, fun _ => rfl⟩, fun _ => none, fun nonzero => absurd rfl nonzero,
    fun nonzero => absurd rfl nonzero⟩

theorem not_userRangeOk (nonzero : len ≠ 0) (bad : ¬ userRangeOk user len) : MAXUVA < user + len := by
  unfold userRangeOk at bad
  omega

/-- The range check has failed. -/
theorem CopyOutcome.outside (nonzero : len ≠ 0) (bad : ¬ userRangeOk user len) (none : copied 0) :
    CopyOutcome access copied user len (-1) := by
  have high := not_userRangeOk nonzero bad
  refine ⟨.inr rfl, ⟨by simp, ?_⟩, by simp, fun _ _ => none, fun _ inUser => by omega⟩
  rintro (zero | ⟨inUser, -⟩)
  · exact absurd zero nonzero
  · omega

/-- The loop has come to an end after some bytes. -/
theorem CopyOutcome.of_loop {k : Nat} (inUser : user + len ≤ MAXUVA)
    (before : ∀ j < k, access (user + j)) (done : copied k)
    (ends : k = len ∧ r = 0 ∨ k < len ∧ r = -1 ∧ ¬ access (user + k)) :
    CopyOutcome access copied user len r := by
  rcases ends with ⟨rfl, rfl⟩ | ⟨less, rfl, missed⟩
  · refine ⟨.inl rfl, ⟨fun _ => .inr ⟨inUser, before⟩, fun _ => rfl⟩, fun _ => done,
      fun _ high => by omega, ?_⟩
    intro _ _ n less _ missed
    exact absurd (before n less) missed
  · refine ⟨.inr rfl, ⟨by simp, ?_⟩, by simp, fun _ high => by omega, ?_⟩
    · rintro (rfl | ⟨-, all⟩)
      · omega
      · exact absurd (all k less) missed
    · intro _ _ n _ below missed'
      -- There is only one first fault.
      obtain lower | rfl | higher := Nat.lt_trichotomy n k
      · exact absurd (before n lower) missed'
      · exact done
      · exact absurd (below k higher) missed

end

/-- What `copyin` and `copyout` have in common, from what the loop comes to. -/
theorem copy_returns {entry a b : Nat} {access : Nat → Prop} (copied : Memory → Nat → Prop)
    (disarmed : m.onfault = none) (nothing : copied m.cpu.mem 0)
    (before : ∀ mem k, copied mem k → ∀ j < k, access (user + j))
    (loop : len ≠ 0 → user + len ≤ MAXUVA → ∃ k v, Path maps
      ⟨entry, a, b, len, m.cpu.x 3, m.cpu.x 4, m.cpu.z, m.cpu.mem, some copyFault⟩ v ∧
      v.pc = callerPc ∧ copied v.mem k ∧
      (k = len ∧ v.x0 = 0 ∨ k < len ∧ v.x0 = 2 ^ 64 - 1 ∧ ¬ access (user + k))) :
    ∃ r m' enough, (∀ fuel ≥ enough, (if len = 0 then .ok (0, m)
        else if ¬ userRangeOk user len then .ok (-1, m)
        else guarded maps fuel entry a b len m) = .ok (r, m')) ∧
      m'.onfault = none ∧ CopyOutcome access (copied m'.cpu.mem) user len r := by
  by_cases zero : len = 0
  · subst zero
    exact ⟨0, m, 0, fun _ _ => if_pos rfl, disarmed, .empty nothing⟩
  by_cases range : userRangeOk user len
  · have inUser : user + len ≤ MAXUVA := by
      unfold userRangeOk at range
      omega
    obtain ⟨k, v, path, stops, done, ends⟩ := loop zero inUser
    obtain ⟨m', enough, mem, disarmed', runs⟩ := guarded_of_path path stops
    rw [← mem] at done
    refine ⟨toInt32 v.x0, m', enough, fun fuel more => ?_, disarmed', ?_⟩
    · rw [if_neg zero, if_neg (not_not_intro range)]
      exact runs fuel more
    · apply CopyOutcome.of_loop inUser (before _ k done) done
      rcases ends with ⟨all, value⟩ | ⟨less, value, missed⟩
      · left
        rw [value]
        exact ⟨all, rfl⟩
      · right
        rw [value]
        exact ⟨less, toInt32_fault, missed⟩
  · exact ⟨-1, m, 0, fun _ _ => (if_neg zero).trans (if_pos range), disarmed,
      .outside zero range nothing⟩

theorem copyin_returns (tree : UserTree maps.root live place s) (same : m.cpu.mem = s.memory)
    (kernel : Buffer place maps buffer len) (disarmed : m.onfault = none) :
    ∃ r m' enough, (∀ fuel ≥ enough, copyin maps fuel buffer user len m = .ok (r, m')) ∧
      m'.onfault = none ∧ CopyOutcome (Readable m.cpu.mem maps.root)
        (CopiedIn maps m.cpu.mem m'.cpu.mem buffer user) user len r := by
  apply copy_returns (fun mem => CopiedIn maps m.cpu.mem mem buffer user) disarmed .zero
  · intro mem k copied j less
    unfold Readable
    rw [copied.bytes j less]
    exact Option.some_ne_none _
  · intro nonzero inUser
    obtain ⟨n, rfl⟩ := Nat.exists_eq_succ_of_ne_zero nonzero
    have pages : TreeSame place maps.root s.memory m.cpu.mem := by
      rw [same]
      exact fun _ _ _ _ _ => rfl
    obtain ⟨k, v, path, stops, -, copied, ends⟩ : EndsIn maps ⟨1, buffer, user, n + 1, m.cpu.x 3,
        m.cpu.x 4, m.cpu.z, m.cpu.mem, some copyFault⟩ buffer user (n + 1) :=
      copyin_loop tree pages kernel inUser
    refine ⟨k, v, (steps_cbz rfl).path path, stops, copied, ends.imp_right ?_⟩
    rintro ⟨less, value, missed⟩
    exact ⟨less, value, not_not_intro missed⟩

theorem copyout_returns (tree : UserTree maps.root live place s) (same : m.cpu.mem = s.memory)
    (kernel : Buffer place maps buffer len) (disarmed : m.onfault = none) :
    ∃ r m' enough, (∀ fuel ≥ enough, copyout maps fuel user buffer len m = .ok (r, m')) ∧
      m'.onfault = none ∧ CopyOutcome (Writable m.cpu.mem maps.root)
        (CopiedOut maps m.cpu.mem m'.cpu.mem user buffer) user len r := by
  apply copy_returns (fun mem => CopiedOut maps m.cpu.mem mem user buffer) disarmed .zero
  · intro mem k copied j less
    obtain ⟨pte, found, writable, -⟩ := copied.bytes j less
    exact ⟨pte, found, writable⟩
  · intro nonzero inUser
    obtain ⟨n, rfl⟩ := Nat.exists_eq_succ_of_ne_zero nonzero
    have tables : TablesSame place maps.root s.memory m.cpu.mem := by
      rw [same]
      exact fun _ _ _ _ _ => rfl
    obtain ⟨k, v, path, stops, -, copied, ends⟩ : EndsOut maps ⟨9, user, buffer, n + 1, m.cpu.x 3,
        m.cpu.x 4, m.cpu.z, m.cpu.mem, some copyFault⟩ user buffer (n + 1) :=
      copyout_loop tree tables kernel inUser
    refine ⟨k, v, (steps_cbz rfl).path path, stops, copied, ends.imp_right ?_⟩
    rintro ⟨less, value, missed⟩
    exact ⟨less, value, unwritable_iff.mp missed⟩

/-- What changes the machine while a process lives: the copies, and everything else, which leaves
`onfault` as it is. -/
inductive CopyStep : Machine → Machine → Prop where
  | copyin {maps fuel dst userSrc len m r m'} (runs : copyin maps fuel dst userSrc len m = .ok (r, m')) :
      CopyStep m m'
  | copyout {maps fuel userDst src len m r m'}
      (runs : copyout maps fuel userDst src len m = .ok (r, m')) : CopyStep m m'
  | copyinstr {maps fuel dst userSrc max m r m'}
      (runs : copyinstr maps fuel dst userSrc max m = .ok (r, m')) : CopyStep m m'
  | elsewhere {m cpu} : CopyStep m { m with cpu }

/-- `allocproc` sets `onfault` to NULL. -/
def Allocated (m : Machine) : Prop := m.onfault = none

theorem guarded_disarms {fuel entry a b c : Nat} (runs : guarded maps fuel entry a b c m = .ok (r, m')) :
    m'.onfault = none := by
  unfold guarded at runs
  cases called : call maps fuel entry a b c { m with onfault := some copyFault } with
  | error why =>
      rw [called] at runs
      cases runs
  | ok last =>
      rw [called] at runs
      cases runs
      rfl

theorem wrapper_disarms {fuel entry a b c : Nat} {empty bad : Int} {P Q : Prop} [Decidable P]
    [Decidable Q] (disarmed : m.onfault = none) (runs : (if P then .ok (empty, m)
      else if Q then .ok (bad, m) else guarded maps fuel entry a b c m) = .ok (r, m')) :
    m'.onfault = none := by
  split_ifs at runs
  · cases runs
    exact disarmed
  · cases runs
    exact disarmed
  · exact guarded_disarms runs

/-- Between the copies nothing is armed. -/
theorem disarmed_of_reachable (reached : Reachable Allocated CopyStep m) : m.onfault = none := by
  apply reached.invariant (I := fun m => m.onfault = none)
  · exact fun _ allocated => allocated
  · rintro m m' - disarmed (runs | runs | runs | _)
    · exact wrapper_disarms disarmed runs
    · exact wrapper_disarms disarmed runs
    · exact wrapper_disarms disarmed runs
    · exact disarmed

/-- Copies are exact under faults. -/
theorem copies_exact (reached : Reachable Allocated CopyStep m)
    (tree : UserTree maps.root live place s) (same : m.cpu.mem = s.memory)
    (kernel : Buffer place maps buffer len) :
    (∃ r m' enough, (∀ fuel ≥ enough, copyin maps fuel buffer user len m = .ok (r, m')) ∧
      m'.onfault = none ∧ CopyOutcome (Readable m.cpu.mem maps.root)
        (CopiedIn maps m.cpu.mem m'.cpu.mem buffer user) user len r) ∧
    (∃ r m' enough, (∀ fuel ≥ enough, copyout maps fuel user buffer len m = .ok (r, m')) ∧
      m'.onfault = none ∧ CopyOutcome (Writable m.cpu.mem maps.root)
        (CopiedOut maps m.cpu.mem m'.cpu.mem user buffer) user len r) := by
  have disarmed := disarmed_of_reachable reached
  exact ⟨copyin_returns tree same kernel disarmed, copyout_returns tree same kernel disarmed⟩

/-- A buffer in a page that the allocator does not have. -/
theorem kernel_buffer {root : Nat} (tree : UserTree root live place s) (le : n ≤ PGSIZE) :
    Buffer place ⟨root, fun _ => 0⟩ KERN_BASE n := by
  have whole : Buffer place ⟨root, fun _ => 0⟩ KERN_BASE PGSIZE := by
    refine ⟨fun k _ slot _ there => ?_, fun k less k' less' _ => ?_, by decide⟩
    · have direct := tree.twins.ok.direct_of_place there
      exact absurd direct.1 (by rw [Nat.zero_mul]; decide)
    · have base : KERN_BASE = KERN_BASE / PGSIZE * PGSIZE := by decide
      unfold PGSIZE at *
      omega
  exact whole.take le

/-- A process with one page copies the page. -/
theorem copies_page : ∃ maps m,
    (∃ r m' enough, (∀ fuel ≥ enough, copyin maps fuel KERN_BASE 0x1000 PGSIZE m = .ok (r, m')) ∧
      m'.onfault = none ∧ CopyOutcome (Readable m.cpu.mem maps.root)
        (CopiedIn maps m.cpu.mem m'.cpu.mem KERN_BASE 0x1000) 0x1000 PGSIZE r) ∧
    (∃ r m' enough, (∀ fuel ≥ enough, copyout maps fuel 0x1000 KERN_BASE PGSIZE m = .ok (r, m')) ∧
      m'.onfault = none ∧ CopyOutcome (Writable m.cpu.mem maps.root)
        (CopiedOut maps m.cpu.mem m'.cpu.mem 0x1000 KERN_BASE) 0x1000 PGSIZE r) := by
  obtain ⟨live, place, root, page, s, onePage, -⟩ := exists_onePage (n := 0) (fun _ => 0)
    (by decide : 0x1000 % PGSIZE = 0) (by decide) (by decide)
  exact ⟨⟨root, fun _ => 0⟩, ⟨⟨fun _ => 0, false, 0, s.memory⟩, none⟩,
    copies_exact (.start rfl) onePage.tree rfl (kernel_buffer onePage.tree (Nat.le_refl PGSIZE))⟩

end UserCopy

end Av6
