import Av6.UserCopyExact

/-!
# Copies of strings

`copyinstr` checks the range of its whole buffer before it looks at the string.  In a range that
passes it accepts just the strings that the user can read and that end in it.
-/

namespace Av6

namespace UserCopy

open A64 Kmem Pmap Exec TransitionSystem

variable {s : VmState} {live : CacheRef → Multiset Nat} {place : Place} {maps : Regime}
  {dst src n k x3 x4 : Nat} {z : Bool} {mem : Memory} {byte : UInt8} {onfault : Option Nat}

/-- At an address is a string of the user with so many bytes before its NUL. -/
structure StringAt (memory : Memory) (root va len : Nat) : Prop where
  nul : userByte memory root (va + len) = some 0
  before : ∀ k < len, ∃ byte, userByte memory root (va + k) = some byte ∧ byte ≠ 0

theorem StringAt.unique {memory : Memory} {root va len len' : Nat}
    (string : StringAt memory root va len) (string' : StringAt memory root va len') : len = len' := by
  obtain less | same | more := Nat.lt_trichotomy len len'
  · obtain ⟨byte, found, nonzero⟩ := string'.before len less
    rw [string.nul] at found
    exact absurd (Option.some.inj found).symm nonzero
  · exact same
  · obtain ⟨byte, found, nonzero⟩ := string.before len' more
    rw [string'.nul] at found
    exact absurd (Option.some.inj found).symm nonzero

theorem StringAt.zero_iff {memory : Memory} {root va : Nat} :
    StringAt memory root va 0 ↔ userByte memory root va = some 0 := by
  constructor
  · intro string
    exact string.nul
  · intro nul
    exact ⟨nul, fun k less => absurd less (Nat.not_lt_zero k)⟩

/-- A string goes on after a byte that is not the NUL. -/
theorem StringAt.succ_iff {memory : Memory} {root va len : Nat}
    (found : userByte memory root va = some byte) (nonzero : byte ≠ 0) :
    StringAt memory root va (len + 1) ↔ StringAt memory root (va + 1) len := by
  have shift : ∀ k, va + (k + 1) = va + 1 + k := fun k => by omega
  constructor
  · intro string
    refine ⟨?_, fun k less => ?_⟩
    · rw [← shift]
      exact string.nul
    · rw [← shift]
      exact string.before (k + 1) (by omega)
  · intro string
    refine ⟨?_, fun k less => ?_⟩
    · rw [shift]
      exact string.nul
    · cases k with
      | zero => exact ⟨byte, found, nonzero⟩
      | succ k =>
          rw [shift]
          exact string.before k (by omega)

/-- The user can read the first byte of a string. -/
theorem StringAt.first {memory : Memory} {root va len : Nat} (string : StringAt memory root va len) :
    userByte memory root va ≠ none := by
  intro missed
  cases len with
  | zero =>
      rw [StringAt.zero_iff, missed] at string
      cases string
  | succ len =>
      obtain ⟨byte, found, -⟩ := string.before 0 (Nat.succ_pos len)
      rw [Nat.add_zero, missed] at found
      cases found

theorem low_word (byte : UInt8) : byte.toNat % 2 ^ 32 = 0 ↔ byte = 0 := by
  rw [Nat.mod_eq_of_lt (Nat.lt_trans byte.toNat_lt (by decide)), ← UInt8.toNat_inj]
  rfl

/-- The round of `_copyinstr_bytes` that finds the NUL. -/
theorem string_last (found : userByte mem maps.root src = some 0) (low : src + 1 < 2 ^ 64) :
    Path maps ⟨18, dst, src, n, x3, x4, z, mem, onfault⟩
      ⟨26, (dst + 1) % 2 ^ 64, src + 1, n, 0, x4, z, storeKernel maps mem dst 0, onfault⟩ := by
  have first : Path maps ⟨18, dst, src, n, x3, x4, z, mem, onfault⟩ _ :=
    (steps_ldtrb rfl found).path <| (steps_strb rfl).path <| (steps_add1 rfl).path <|
      (steps_cbzw rfl).path (.refl _)
  simp only [Nat.mod_eq_of_lt low, UInt8.ofNat_toNat] at first
  exact first

/-- A round that does not. -/
theorem string_round (found : userByte mem maps.root src = some byte) (nonzero : byte ≠ 0)
    (low : src + 1 < 2 ^ 64) (small : n + 1 < 2 ^ 64) :
    Path maps ⟨18, dst, src, n + 1, x3, x4, z, mem, onfault⟩
      ⟨if n = 0 then 24 else 18, (dst + 1) % 2 ^ 64, src + 1, n, byte.toNat, x4, n = 0,
        storeKernel maps mem dst byte, onfault⟩ := by
  have word : ¬ byte.toNat % 2 ^ 32 = 0 := fun zero => nonzero ((low_word byte).mp zero)
  have first : Path maps ⟨18, dst, src, n + 1, x3, x4, z, mem, onfault⟩ _ :=
    (steps_ldtrb rfl found).path <| (steps_strb rfl).path <| (steps_add1 rfl).path <|
      (steps_cbzw rfl).path <| by
        dsimp only
        rw [if_neg word]
        exact (steps_subs rfl).path <| (steps_bne rfl).path (.refl _)
  simp only [minus_one small, Nat.mod_eq_of_lt low, UInt8.ofNat_toNat, decide_eq_true_eq] at first
  exact first

/-- What `_copyinstr_bytes` comes to, from a view that is at the start of a round: `x4` is where the
buffer starts. -/
def EndsString (maps : Regime) (v : View) (dst src n : Nat) : Prop :=
  ∃ k v', Path maps v v' ∧ v'.pc = callerPc ∧ k ≤ n ∧ CopiedIn maps v.mem v'.mem dst src k ∧
    ((∃ len < n, StringAt v.mem maps.root src len ∧ k = len + 1 ∧
        v'.x0 = minus (minus ((dst + k) % 2 ^ 64) v.x4) 1) ∨
      (∀ len < n, ¬ StringAt v.mem maps.root src len) ∧ v'.x0 = 2 ^ 64 - 1)

/-- The load faults. -/
theorem EndsString.fault (missed : userByte mem maps.root src = none) :
    EndsString maps ⟨18, dst, src, n + 1, x3, x4, z, mem, some copyFault⟩ dst src (n + 1) := by
  have faults : Path maps ⟨18, dst, src, n + 1, x3, x4, z, mem, some copyFault⟩ _ :=
    (steps_abort rfl (fun m here => aborts_ldtrb (v := ⟨18, dst, src, n + 1, x3, x4, z, mem,
      some copyFault⟩) missed here) rfl).path <| path_fault rfl
  exact ⟨0, _, faults, rfl, Nat.zero_le _, .zero, .inr ⟨fun len _ string => string.first missed, rfl⟩⟩

section

variable (tree : UserTree maps.root live place s) (same : TreeSame place maps.root s.memory mem)
  (buffer : Buffer place maps dst (n + 1)) (found : userByte mem maps.root src = some byte)
include tree same buffer found

/-- The byte of a round has been copied. -/
theorem CopiedIn.one : CopiedIn maps mem (storeKernel maps mem dst byte) dst src 1 :=
  CopiedIn.zero.cons tree same (buffer.take (Nat.succ_le_succ (Nat.zero_le n))) found

/-- The loop ends at the NUL. -/
theorem EndsString.nul (zero : byte = 0) (low : src + 1 < 2 ^ 64) :
    EndsString maps ⟨18, dst, src, n + 1, x3, x4, z, mem, onfault⟩ dst src (n + 1) := by
  have copied := CopiedIn.one tree same buffer found
  subst zero
  have path : Path maps ⟨18, dst, src, n + 1, x3, x4, z, mem, onfault⟩ _ :=
    (string_last found low).trans <| (steps_sub rfl).path <| (steps_subImm rfl).path <|
      (steps_ret rfl).path (.refl _)
  exact ⟨1, _, path, rfl, by omega, copied, .inl ⟨0, by omega, StringAt.zero_iff.mpr found, rfl, rfl⟩⟩

/-- The loop after a round. -/
theorem EndsString.next (nonzero : byte ≠ 0) {v v' : View} (once : Path maps v v')
    (here : v.mem = mem) (there : v'.mem = storeKernel maps mem dst byte) (start : v'.x4 = v.x4)
    (ends : EndsString maps v' (dst + 1) (src + 1) n) :
    EndsString maps v dst src (n + 1) := by
  obtain ⟨k, last, path, stops, le, copied, outcome⟩ := ends
  have sees : ∀ va, userByte v'.mem maps.root va = userByte mem maps.root va := by
    intro va
    rw [there, (storeKernel_tree same buffer).userByte_eq tree.twins tree.rooted,
      same.userByte_eq tree.twins tree.rooted]
  have strings : ∀ len, StringAt v'.mem maps.root (src + 1) len ↔
      StringAt v.mem maps.root src (len + 1) := by
    intro len
    rw [here, StringAt.succ_iff found nonzero]
    constructor
    · rintro ⟨nul, before⟩
      exact ⟨sees _ ▸ nul, fun k less => sees _ ▸ before k less⟩
    · rintro ⟨nul, before⟩
      exact ⟨(sees _).trans nul, fun k less => sees _ ▸ before k less⟩
  rw [there] at copied
  refine ⟨k + 1, last, once.trans path, stops, by omega, ?_, ?_⟩
  · rw [here]
    exact copied.cons tree same (buffer.take (Nat.succ_le_succ le)) found
  · rcases outcome with ⟨len, less, string, rfl, value⟩ | ⟨missed, value⟩
    · left
      rw [start, show dst + 1 + (len + 1) = dst + (len + 1 + 1) by omega] at value
      exact ⟨len + 1, by omega, (strings len).mp string, rfl, value⟩
    · right
      refine ⟨?_, value⟩
      rintro (_ | len) less string
      · rw [here, StringAt.zero_iff, found] at string
        exact nonzero (Option.some.inj string)
      · exact missed len (by omega) ((strings len).mpr string)

end

/-- `_copyinstr_bytes` finds the string, or that there is none. -/
theorem copyinstr_loop (tree : UserTree maps.root live place s)
    (same : TreeSame place maps.root s.memory mem) (buffer : Buffer place maps dst (n + 1))
    (inUser : src + (n + 1) ≤ MAXUVA) :
    EndsString maps ⟨18, dst, src, n + 1, x3, x4, z, mem, some copyFault⟩ dst src (n + 1) := by
  have bound : MAXUVA < 2 ^ 64 := by decide
  have fits := buffer.fits
  induction n generalizing dst src x3 z mem with
  | zero =>
      cases found : userByte mem maps.root src with
      | none => exact .fault found
      | some byte =>
          by_cases zero : byte = 0
          · exact .nul tree same buffer found zero (by omega)
          · apply EndsString.next tree same buffer found zero
              (string_round (n := 0) found zero (by omega) (by omega)) rfl rfl rfl
            exact ⟨0, _, (steps_movImm rfl).path ((steps_ret rfl).path (.refl _)), rfl, Nat.le_refl 0,
              .zero, .inr ⟨fun len less => absurd less (Nat.not_lt_zero len), rfl⟩⟩
  | succ n ih =>
      cases found : userByte mem maps.root src with
      | none => exact .fault found
      | some byte =>
          by_cases zero : byte = 0
          · exact .nul tree same buffer found zero (by omega)
          · apply EndsString.next tree same buffer found zero
              (string_round (n := n + 1) found zero (by omega) (by omega)) rfl rfl rfl
            rw [if_neg (Nat.succ_ne_zero n), Nat.mod_eq_of_lt (by omega : dst + 1 < 2 ^ 64)]
            exact ih (storeKernel_tree same buffer) buffer.tail (by omega) buffer.tail.fits

/-- The outcome of a copy of a string into a buffer of `max` bytes.  The result is an `int`. -/
structure StringOutcome (maps : Regime) (memory memory' : Memory) (dst user max : Nat) (r : Int) :
    Prop where
  refused : ¬ userRangeOk user max → r = -1 ∧ memory' = memory
  copied : userRangeOk user max → ∀ len < max, StringAt memory maps.root user len →
    CopiedIn maps memory memory' dst user (len + 1) ∧ (len < 2 ^ 31 → r = len)
  missed : userRangeOk user max → (∀ len < max, ¬ StringAt memory maps.root user len) → r = -1
  exact : userRangeOk user max → max ≤ 2 ^ 31 → ∀ len : Nat,
    r = len ↔ len < max ∧ StringAt memory maps.root user len

variable {buffer user max : Nat} {m : Machine}

/-- The length that `_copyinstr_bytes` computes from its pointers. -/
theorem length_eq {len : Nat} (fits : buffer + (len + 1) ≤ 2 ^ 64) (small : len + 1 < 2 ^ 64) :
    minus (minus ((buffer + (len + 1)) % 2 ^ 64) buffer) 1 = len := by
  unfold minus
  omega

/-- `copyinstr` accepts exactly the readable strings, once the range of the buffer has passed. -/
theorem copyinstr_accepts (reached : Reachable Allocated CopyStep m)
    (tree : UserTree maps.root live place s) (same : m.cpu.mem = s.memory)
    (kernel : Buffer place maps buffer max) (nonzero : 0 < max) :
    ∃ r m' enough, (∀ fuel ≥ enough, copyinstr maps fuel buffer user max m = .ok (r, m')) ∧
      m'.onfault = none ∧ StringOutcome maps m.cpu.mem m'.cpu.mem buffer user max r := by
  have disarmed := disarmed_of_reachable reached
  by_cases range : userRangeOk user max
  · obtain ⟨n, rfl⟩ := Nat.exists_eq_succ_of_ne_zero nonzero.ne'
    have inUser : user + (n + 1) ≤ MAXUVA := by
      unfold userRangeOk at range
      omega
    have bound : MAXUVA < 2 ^ 64 := by decide
    have fits := kernel.fits
    have pages : TreeSame place maps.root s.memory m.cpu.mem := by
      rw [same]
      exact fun _ _ _ _ _ => rfl
    obtain ⟨k, v, path, stops, -, copied, ends⟩ : EndsString maps ⟨18, buffer, user, n + 1,
        m.cpu.x 3, buffer, m.cpu.z, m.cpu.mem, some copyFault⟩ buffer user (n + 1) :=
      copyinstr_loop tree pages kernel inUser
    have enters : Path maps ⟨copyinstrBytes, buffer, user, n + 1, m.cpu.x 3, m.cpu.x 4, m.cpu.z,
        m.cpu.mem, some copyFault⟩ v :=
      (steps_cbz rfl).path <| (steps_mov rfl).path path
    obtain ⟨m', enough, mem, disarmed', runs⟩ := guarded_of_path enters stops
    rw [← mem] at copied
    refine ⟨toInt32 v.x0, m', enough, fun fuel more => ?_, disarmed', ?_⟩
    · unfold copyinstr
      rw [if_neg nonzero.ne', if_neg (not_not_intro range)]
      exact runs fuel more
    rcases ends with ⟨len, less, string, rfl, value⟩ | ⟨missed, value⟩
    · rw [length_eq (by omega) (by omega)] at value
      rw [value]
      refine ⟨fun bad => absurd range bad, ?_, ?_, ?_⟩
      · intro _ len' _ string'
        cases string.unique string'
        exact ⟨copied, toInt32_of_lt⟩
      · intro _ missed
        exact absurd string (missed len less)
      · intro _ short len'
        rw [toInt32_of_lt (by omega)]
        constructor
        · intro same
          obtain rfl : len = len' := by exact_mod_cast same
          exact ⟨less, string⟩
        · rintro ⟨-, string'⟩
          rw [string.unique string']
    · rw [value, toInt32_fault]
      refine ⟨fun bad => absurd range bad, ?_, fun _ _ => rfl, ?_⟩
      · intro _ len less string
        exact absurd string (missed len less)
      · intro _ _ len
        constructor
        · intro negative
          omega
        · rintro ⟨less, string⟩
          exact absurd string (missed len less)
  · refine ⟨-1, m, 0, fun fuel _ => ?_, disarmed, ?_⟩
    · unfold copyinstr
      rw [if_neg nonzero.ne', if_pos range]
    · exact ⟨fun _ => ⟨rfl, rfl⟩, fun good => absurd good range, fun good => absurd good range,
        fun good => absurd good range⟩

/-- A process with the string "A" in the last two bytes of user space. -/
theorem exists_string : ∃ maps live place s m, Reachable Allocated CopyStep m ∧
    UserTree maps.root live place s ∧ m.cpu.mem = s.memory ∧
    (∀ n ≤ PGSIZE, Buffer place maps KERN_BASE n) ∧
    StringAt m.cpu.mem maps.root (MAXUVA - 2) 1 := by
  obtain ⟨live, place, root, page, s, onePage, -, holds⟩ := exists_onePage (n := 0)
    (fun off => if off = PGSIZE - 2 then 0x41 else 0)
    (by decide : (MAXUVA - PGSIZE) % PGSIZE = 0) (by decide) (by decide)
  have userPage : UserPage root page (MAXUVA - PGSIZE) live s s :=
    ⟨place, onePage.tree.twins, onePage.tree.rooted, onePage.leaf, onePage.maps⟩
  have sees : ∀ off < PGSIZE, userByte s.memory root (MAXUVA - PGSIZE + off) =
      some (if off = PGSIZE - 2 then 0x41 else 0) := by
    intro off less
    rw [userPage.userByte_eq (by decide) (by decide) less, holds off less]
  refine ⟨⟨root, fun _ => 0⟩, live, place, s, ⟨⟨fun _ => 0, false, 0, s.memory⟩, none⟩, .start rfl,
    onePage.tree, rfl, fun n le => kernel_buffer onePage.tree le, sees (PGSIZE - 1) (by decide), ?_⟩
  intro k less
  obtain rfl : k = 0 := by omega
  exact ⟨0x41, sees (PGSIZE - 2) (by decide), by decide⟩

/-- A buffer of two bytes takes the string. -/
theorem copyinstr_accepts_last : ∃ maps m, StringAt m.cpu.mem maps.root (MAXUVA - 2) 1 ∧
    ∃ r m' enough,
      (∀ fuel ≥ enough, copyinstr maps fuel KERN_BASE (MAXUVA - 2) 2 m = .ok (r, m')) ∧
      m'.onfault = none ∧ StringOutcome maps m.cpu.mem m'.cpu.mem KERN_BASE (MAXUVA - 2) 2 r := by
  obtain ⟨maps, live, place, s, m, reached, tree, same, buffers, string⟩ := exists_string
  exact ⟨maps, m, string, copyinstr_accepts reached tree same (buffers 2 (by decide)) (by decide)⟩

/-- A buffer of 128 bytes is refused, for the same string. -/
theorem copyinstr_refuses_last : ∃ maps live place s m, Reachable Allocated CopyStep m ∧
    UserTree maps.root live place s ∧ m.cpu.mem = s.memory ∧ Buffer place maps KERN_BASE 128 ∧
    StringAt m.cpu.mem maps.root (MAXUVA - 2) 1 ∧
    ∀ fuel, copyinstr maps fuel KERN_BASE (MAXUVA - 2) 128 m = .ok (-1, m) := by
  obtain ⟨maps, live, place, s, m, reached, tree, same, buffers, string⟩ := exists_string
  exact ⟨maps, live, place, s, m, reached, tree, same, buffers 128 (by decide), string, fun _ => rfl⟩

end UserCopy

end Av6
