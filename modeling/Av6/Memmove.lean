import Mathlib.Data.BitVec
import Mathlib.Tactic.Abel
import Mathlib.Tactic.IntervalCases

/-!
# memcpy and memmove

Both copy bytes up to an aligned destination, then words of eight bytes, then the bytes that are
left; `memmove` goes downwards when the destination is above the source.  A word is read as a whole
before it is written, so each loop copies a window, and the windows of a loop add up as long as
none of them is read after it has been written.
-/

namespace Av6

namespace Memmove

abbrev Address := BitVec 64

abbrev Bytes := Address → BitVec 8

/-- A read of eight bytes, of which the first is the least significant. -/
def loadWord (mem : Bytes) (s : Address) : BitVec 64 :=
  mem (s + 7) ++ mem (s + 6) ++ mem (s + 5) ++ mem (s + 4) ++
    mem (s + 3) ++ mem (s + 2) ++ mem (s + 1) ++ mem s

def storeWord (mem : Bytes) (d : Address) (word : BitVec 64) : Bytes := fun a =>
  if (a - d).toNat < 8 then word.extractLsb' (8 * (a - d).toNat) 8 else mem a

def storeByte (mem : Bytes) (d : Address) (byte : BitVec 8) : Bytes := Function.update mem d byte

/-- The variables of the loops. -/
structure Copy where
  mem : Bytes
  d : Address
  s : Address
  n : Nat

/-- `while (n > 0 && ((uintptr)d & 7)) { *d++ = *s++; n--; }` -/
def alignUp (mem : Bytes) (d s : Address) : Nat → Copy
  | 0 => ⟨mem, d, s, 0⟩
  | n + 1 =>
      if d &&& 7 ≠ 0 then alignUp (storeByte mem d (mem s)) (d + 1) (s + 1) n
      else ⟨mem, d, s, n + 1⟩

/-- `while (n >= 8) { *wd++ = *ws++; n -= 8; }` -/
def wordsUp (mem : Bytes) (d s : Address) : Nat → Copy
  | n + 8 => wordsUp (storeWord mem d (loadWord mem s)) (d + 8) (s + 8) n
  | n => ⟨mem, d, s, n⟩

/-- `while (n-- > 0) { *d++ = *s++; }` -/
def tailUp (mem : Bytes) (d s : Address) : Nat → Bytes
  | 0 => mem
  | n + 1 => tailUp (storeByte mem d (mem s)) (d + 1) (s + 1) n

/-- `while (n > 0 && ((uintptr)d & 7)) { *--d = *--s; n--; }` -/
def alignDown (mem : Bytes) (d s : Address) : Nat → Copy
  | 0 => ⟨mem, d, s, 0⟩
  | n + 1 =>
      if d &&& 7 ≠ 0 then alignDown (storeByte mem (d - 1) (mem (s - 1))) (d - 1) (s - 1) n
      else ⟨mem, d, s, n + 1⟩

/-- `while (n >= 8) { *--wd = *--ws; n -= 8; }` -/
def wordsDown (mem : Bytes) (d s : Address) : Nat → Copy
  | n + 8 => wordsDown (storeWord mem (d - 8) (loadWord mem (s - 8))) (d - 8) (s - 8) n
  | n => ⟨mem, d, s, n⟩

/-- `while (n-- > 0) { *--d = *--s; }` -/
def tailDown (mem : Bytes) (d s : Address) : Nat → Bytes
  | 0 => mem
  | n + 1 => tailDown (storeByte mem (d - 1) (mem (s - 1))) (d - 1) (s - 1) n

/-- The three loops of `memcpy`, which `memmove` has as well. -/
def copyUp (mem : Bytes) (d s : Address) (n : Nat) : Bytes :=
  let aligned := alignUp mem d s n
  let words := wordsUp aligned.mem aligned.d aligned.s aligned.n
  tailUp words.mem words.d words.s words.n

def copyDown (mem : Bytes) (d s : Address) (n : Nat) : Bytes :=
  let aligned := alignDown mem d s n
  let words := wordsDown aligned.mem aligned.d aligned.s aligned.n
  tailDown words.mem words.d words.s words.n

/-- `memcpy`: the result, and the memory after it. -/
def memcpy (mem : Bytes) (dst src n : BitVec 64) : Address × Bytes :=
  (dst, copyUp mem dst src n.toNat)

def memmove (mem : Bytes) (dst src n : BitVec 64) : Address × Bytes :=
  if dst = src then (dst, mem)
  else if dst < src then (dst, copyUp mem dst src n.toNat)
  else (dst, copyDown mem (dst + n) (src + n) n.toNat)

/-- The memory once the window of `n` bytes at `s` has been copied to `d` at once. -/
def moved (mem : Bytes) (d s : Address) (n : Nat) : Bytes := fun a =>
  if (a - d).toNat < n then mem (s + (a - d)) else mem a

variable {mem : Bytes} {d s x : Address} {j k n : Nat}

theorem byte_loadWord (mem : Bytes) (s : Address) (small : k < 8) :
    (loadWord mem s).extractLsb' (8 * k) 8 = mem (s + BitVec.ofNat 64 k) := by
  unfold loadWord
  apply BitVec.eq_of_getLsbD_eq
  intro i inside
  rw [BitVec.getLsbD_extractLsb']
  interval_cases k <;> simp [inside] <;> grind

theorem storeByte_eq (mem : Bytes) (d s : Address) : storeByte mem d (mem s) = moved mem d s 1 := by
  ext1 a
  unfold storeByte moved
  by_cases here : a = d
  · rw [here, Function.update_self, BitVec.sub_self, BitVec.add_zero, if_pos (by decide)]
  · have apart : ¬(a - d).toNat < 1 := by
      intro less
      apply here
      exact sub_eq_zero.mp (BitVec.eq_of_toNat_eq (Nat.lt_one_iff.mp less))
    rw [Function.update_of_ne here, if_neg apart]

theorem storeWord_eq (mem : Bytes) (d s : Address) :
    storeWord mem d (loadWord mem s) = moved mem d s 8 := by
  ext1 a
  unfold storeWord moved
  by_cases inside : (a - d).toNat < 8
  · rw [if_pos inside, if_pos inside, byte_loadWord mem s inside, BitVec.ofNat_toNat,
      BitVec.setWidth_eq]
  · rw [if_neg inside, if_neg inside]

@[simp]
theorem moved_zero : moved mem d s 0 = mem := by
  ext1 a
  exact if_neg (Nat.not_lt_zero _)

theorem moved_self (mem : Bytes) (d : Address) (n : Nat) : moved mem d d n = mem := by
  ext1 a
  unfold moved
  rw [BitVec.add_comm, BitVec.sub_add_cancel, ite_self]

theorem toNat_sub_of_le (le : j ≤ x.toNat) : (x - BitVec.ofNat 64 j).toNat = x.toNat - j := by
  have low := x.isLt
  rw [BitVec.toNat_sub, BitVec.toNat_ofNat]
  omega

theorem toNat_sub_of_lt (less : x.toNat < j) (small : j ≤ 2 ^ 64) :
    (x - BitVec.ofNat 64 j).toNat = 2 ^ 64 + x.toNat - j := by
  rw [BitVec.toNat_sub, BitVec.toNat_ofNat]
  omega

/-- Two windows one above the other, when the second does not reach round to the first. -/
theorem moved_up (apart : (s - d).toNat + (j + k) ≤ 2 ^ 64) :
    moved (moved mem d s j) (d + BitVec.ofNat 64 j) (s + BitVec.ofNat 64 j) k =
      moved mem d s (j + k) := by
  ext1 a
  have next : a - (d + BitVec.ofNat 64 j) = (a - d) - BitVec.ofNat 64 j := by abel
  have source : s + BitVec.ofNat 64 j + ((a - d) - BitVec.ofNat 64 j) = s + (a - d) := by abel
  have back : s + (a - d) - d = (s - d) + (a - d) := by abel
  unfold moved
  rw [next, source, back]
  generalize a - d = x
  rcases Nat.lt_or_ge x.toNat j with first | after
  · rw [toNat_sub_of_lt first (by omega), if_neg (by omega), if_pos first, if_pos (by omega)]
  · rw [toNat_sub_of_le after, if_neg (not_lt.mpr after)]
    by_cases inside : x.toNat < j + k
    · have unwritten : ((s - d) + x).toNat = (s - d).toNat + x.toNat := by
        rw [BitVec.toNat_add, Nat.mod_eq_of_lt (by omega)]
      rw [unwritten, if_pos (by omega), if_pos inside, if_neg (by omega)]
    · rw [if_neg (by omega), if_neg inside]

/-- Two windows one below the other. -/
theorem moved_down (apart : j + k ≤ (s - d).toNat) :
    moved (moved mem (d - BitVec.ofNat 64 j) (s - BitVec.ofNat 64 j) j)
        (d - BitVec.ofNat 64 (j + k)) (s - BitVec.ofNat 64 (j + k)) k =
      moved mem (d - BitVec.ofNat 64 (j + k)) (s - BitVec.ofNat 64 (j + k)) (j + k) := by
  ext1 a
  have low := (s - d).isLt
  have total : BitVec.ofNat 64 (j + k) = BitVec.ofNat 64 j + BitVec.ofNat 64 k :=
    BitVec.ofNat_add ..
  have upper : a - (d - BitVec.ofNat 64 j) =
      (a - (d - BitVec.ofNat 64 (j + k))) - BitVec.ofNat 64 k := by
    rw [total]
    abel
  have source : s - BitVec.ofNat 64 j +
      ((a - (d - BitVec.ofNat 64 (j + k))) - BitVec.ofNat 64 k) =
        s - BitVec.ofNat 64 (j + k) + (a - (d - BitVec.ofNat 64 (j + k))) := by
    rw [total]
    abel
  have back : s - BitVec.ofNat 64 (j + k) + (a - (d - BitVec.ofNat 64 (j + k))) -
      (d - BitVec.ofNat 64 j) =
        ((s - d) - BitVec.ofNat 64 k) + (a - (d - BitVec.ofNat 64 (j + k))) := by
    rw [total]
    abel
  unfold moved
  rw [upper, source, back]
  generalize a - (d - BitVec.ofNat 64 (j + k)) = x
  rcases Nat.lt_or_ge x.toNat k with first | after
  · have unwritten : ((s - d) - BitVec.ofNat 64 k + x).toNat = (s - d).toNat - k + x.toNat := by
      rw [BitVec.toNat_add, toNat_sub_of_le (by omega), Nat.mod_eq_of_lt (by omega)]
    rw [unwritten, if_pos first, if_neg (by omega), if_pos (by omega)]
  · rw [toNat_sub_of_le after, if_neg (not_lt.mpr after)]
    by_cases inside : x.toNat < j + k
    · rw [if_pos (by omega), if_pos inside]
    · rw [if_neg (by omega), if_neg inside]

/-- The part of a copy upwards that the loops have done: the windows up to the cursors. -/
def Upwards (mem : Bytes) (d s : Address) (n : Nat) (c : Copy) : Prop :=
  ∃ j, j + c.n = n ∧ c.mem = moved mem d s j ∧ c.d = d + BitVec.ofNat 64 j ∧
    c.s = s + BitVec.ofNat 64 j

/-- The part of a copy downwards: the cursors begin above the windows. -/
def Downwards (mem : Bytes) (d s : Address) (n : Nat) (c : Copy) : Prop :=
  ∃ j, j + c.n = n ∧ c.mem = moved mem (d - BitVec.ofNat 64 j) (s - BitVec.ofNat 64 j) j ∧
    c.d = d - BitVec.ofNat 64 j ∧ c.s = s - BitVec.ofNat 64 j

variable {m : Bytes} {e t : Address} {l : Nat}

theorem Upwards.start : Upwards mem d s n ⟨mem, d, s, n⟩ :=
  ⟨0, Nat.zero_add n, moved_zero.symm, (BitVec.add_zero d).symm, (BitVec.add_zero s).symm⟩

theorem Downwards.start : Downwards mem d s n ⟨mem, d, s, n⟩ :=
  ⟨0, Nat.zero_add n, moved_zero.symm, (BitVec.sub_zero d).symm, (BitVec.sub_zero s).symm⟩

/-- One more window upwards. -/
theorem Upwards.next (up : Upwards mem d s n ⟨m, e, t, l + k⟩)
    (apart : (s - d).toNat + n ≤ 2 ^ 64) :
    Upwards mem d s n ⟨moved m e t k, e + BitVec.ofNat 64 k, t + BitVec.ofNat 64 k, l⟩ := by
  obtain ⟨j, total, rfl, rfl, rfl⟩ := up
  dsimp only at total
  have above (x : Address) : x + BitVec.ofNat 64 j + BitVec.ofNat 64 k =
      x + BitVec.ofNat 64 (j + k) := by
    rw [BitVec.add_assoc, BitVec.ofNat_add]
  exact ⟨j + k, by dsimp only; omega, moved_up (by omega), above d, above s⟩

theorem Downwards.next (down : Downwards mem d s n ⟨m, e, t, l + k⟩)
    (apart : n ≤ (s - d).toNat) :
    Downwards mem d s n ⟨moved m (e - BitVec.ofNat 64 k) (t - BitVec.ofNat 64 k) k,
      e - BitVec.ofNat 64 k, t - BitVec.ofNat 64 k, l⟩ := by
  obtain ⟨j, total, rfl, rfl, rfl⟩ := down
  dsimp only at total
  have below (x : Address) : x - BitVec.ofNat 64 j - BitVec.ofNat 64 k =
      x - BitVec.ofNat 64 (j + k) := by
    rw [sub_sub, BitVec.ofNat_add]
  refine ⟨j + k, by dsimp only; omega, ?_, below d, below s⟩
  dsimp only
  rw [below, below, moved_down (by omega)]

theorem Upwards.alignUp (up : Upwards mem d s n ⟨m, e, t, l⟩)
    (apart : (s - d).toNat + n ≤ 2 ^ 64) : Upwards mem d s n (alignUp m e t l) := by
  induction l generalizing m e t with
  | zero => exact up
  | succ l ih =>
      unfold Memmove.alignUp
      split
      · apply ih
        rw [storeByte_eq]
        exact up.next apart
      · exact up

theorem Upwards.wordsUp (up : Upwards mem d s n ⟨m, e, t, l⟩)
    (apart : (s - d).toNat + n ≤ 2 ^ 64) : Upwards mem d s n (wordsUp m e t l) := by
  fun_induction Memmove.wordsUp m e t l with
  | case1 m e t l ih =>
      apply ih
      rw [storeWord_eq]
      exact up.next apart
  | case2 m e t l => exact up

theorem Upwards.tailUp (up : Upwards mem d s n ⟨m, e, t, l⟩)
    (apart : (s - d).toNat + n ≤ 2 ^ 64) : tailUp m e t l = moved mem d s n := by
  induction l generalizing m e t with
  | zero =>
      obtain ⟨j, rfl, rfl, -⟩ := up
      rfl
  | succ l ih =>
      unfold Memmove.tailUp
      apply ih
      rw [storeByte_eq]
      exact up.next apart

theorem Downwards.alignDown (down : Downwards mem d s n ⟨m, e, t, l⟩)
    (apart : n ≤ (s - d).toNat) : Downwards mem d s n (alignDown m e t l) := by
  induction l generalizing m e t with
  | zero => exact down
  | succ l ih =>
      unfold Memmove.alignDown
      split
      · apply ih
        rw [storeByte_eq]
        exact down.next apart
      · exact down

theorem Downwards.wordsDown (down : Downwards mem d s n ⟨m, e, t, l⟩)
    (apart : n ≤ (s - d).toNat) : Downwards mem d s n (wordsDown m e t l) := by
  fun_induction Memmove.wordsDown m e t l with
  | case1 m e t l ih =>
      apply ih
      rw [storeWord_eq]
      exact down.next apart
  | case2 m e t l => exact down

theorem Downwards.tailDown (down : Downwards mem d s n ⟨m, e, t, l⟩)
    (apart : n ≤ (s - d).toNat) :
    tailDown m e t l = moved mem (d - BitVec.ofNat 64 n) (s - BitVec.ofNat 64 n) n := by
  induction l generalizing m e t with
  | zero =>
      obtain ⟨j, rfl, rfl, -⟩ := down
      rfl
  | succ l ih =>
      unfold Memmove.tailDown
      apply ih
      rw [storeByte_eq]
      exact down.next apart

/-- A copy upwards is exact unless a source byte lies in a window below it. -/
theorem copyUp_eq (apart : (s - d).toNat + n ≤ 2 ^ 64) : copyUp mem d s n = moved mem d s n :=
  ((Upwards.start.alignUp apart).wordsUp apart).tailUp apart

theorem copyDown_eq (apart : n ≤ (s - d).toNat) :
    copyDown mem d s n = moved mem (d - BitVec.ofNat 64 n) (s - BitVec.ofNat 64 n) n :=
  ((Downwards.start.alignDown apart).wordsDown apart).tailDown apart

/-- What a copy of the `n` bytes at `src` to `dst` leaves, as seen byte by byte. -/
structure Exact (mem after : Bytes) (dst src n : BitVec 64) : Prop where
  copied : ∀ i < n, after (dst + i) = mem (src + i)
  rest : ∀ a, (∀ i < n, a ≠ dst + i) → after a = mem a

theorem exact_moved (mem : Bytes) (dst src n : BitVec 64) :
    Exact mem (moved mem dst src n.toNat) dst src n := by
  constructor
  · intro i inside
    unfold moved
    rw [add_sub_cancel_left]
    exact if_pos inside
  · intro a outside
    apply if_neg
    intro inside
    apply outside (a - dst) inside
    abel

variable {dst src n : BitVec 64}

/-- `memmove` copies exactly, however the ranges overlap, and so does `memcpy` when they are
disjoint or the destination is not above the source. -/
theorem memmove_exact (mem : Bytes) (dstFits : dst.toNat + n.toNat ≤ 2 ^ 64)
    (srcFits : src.toNat + n.toNat ≤ 2 ^ 64) :
    ((memmove mem dst src n).1 = dst ∧ Exact mem (memmove mem dst src n).2 dst src n) ∧
      (dst.toNat + n.toNat ≤ src.toNat ∨ src.toNat + n.toNat ≤ dst.toNat ∨ dst ≤ src →
        (memcpy mem dst src n).1 = dst ∧ Exact mem (memcpy mem dst src n).2 dst src n) := by
  constructor
  · unfold memmove
    split
    · rename_i same
      rw [← same]
      refine ⟨rfl, ?_⟩
      have whole := exact_moved mem dst dst n
      rwa [moved_self] at whole
    · rename_i distinct
      split
      · rename_i below
        refine ⟨rfl, ?_⟩
        have apart : (src - dst).toNat + n.toNat ≤ 2 ^ 64 := by
          rw [BitVec.toNat_sub_of_le (BitVec.le_of_lt below)]
          omega
        rw [copyUp_eq apart]
        exact exact_moved mem dst src n
      · rename_i above
        refine ⟨rfl, ?_⟩
        have apart : n.toNat ≤ (src + n - (dst + n)).toNat := by
          rw [add_sub_add_right_eq_sub, BitVec.toNat_sub]
          have distinct' : dst.toNat ≠ src.toNat := fun same => distinct (BitVec.eq_of_toNat_eq same)
          have above' : ¬dst.toNat < src.toNat := above
          omega
        rw [copyDown_eq apart, BitVec.ofNat_toNat, BitVec.setWidth_eq, add_sub_cancel_right,
          add_sub_cancel_right]
        exact exact_moved mem dst src n
  · intro order
    refine ⟨rfl, ?_⟩
    unfold memcpy
    have low := src.isLt
    have apart : (src - dst).toNat + n.toNat ≤ 2 ^ 64 := by
      rw [BitVec.toNat_sub]
      rcases order with below | above | atMost
      · omega
      · omega
      · have atMost' : dst.toNat ≤ src.toNat := atMost
        omega
    rw [copyUp_eq apart]
    exact exact_moved mem dst src n

/-- Twenty bytes moved three bytes up, from an address that is not aligned. -/
theorem memmove_exact_overlap :
    Exact (fun a => a.setWidth 8) (memmove (fun a => a.setWidth 8) 0x1005 0x1002 20).2
      0x1005 0x1002 20 :=
  (memmove_exact _ (by decide) (by decide)).1.2

end Memmove

end Av6
