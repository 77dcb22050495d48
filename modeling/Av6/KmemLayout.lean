import Av6.AlignedWords
import Av6.SlabLayout
import Mathlib.Tactic.IntervalCases

/-!
# The layout of a cache

What `cache_setup` computes, with its wraparounds, for every size and every alignment that is a
power of two.
-/

namespace Av6

namespace Kmem

open AlignedWords

/-- The alignment that `cache_setup` works with. -/
def usedAlign (align : BitVec 64) : BitVec 64 :=
  if align < 16 then 16 else align

/-- The layout serves objects of the size at the alignment: every slot lies inside the page behind
the header, is aligned, and has a bit. -/
structure Layout.Serves (l : Layout) (size align : Nat) : Prop where
  size_le : size ≤ l.objsize
  objsize : max align KMEM_MIN_ALIGN ∣ l.objsize
  offset : max align KMEM_MIN_ALIGN ∣ l.objOffset
  header : slabHeaderSize ≤ l.objOffset
  slots : 1 ≤ l.slotsPerSlab
  bits : l.slotsPerSlab ≤ SLAB_MAX_OBJS
  within : l.objOffset + l.slotsPerSlab * l.objsize ≤ PGSIZE

/-- Rounding the size up does not leave 64 bits, and either the alignment is at most a page or
the number of slots, computed with a room that has wrapped around, is zero in 32 bits. -/
def SizeFits (size align : Nat) : Prop :=
  let align := max align KMEM_MIN_ALIGN
  size + align ≤ 2 ^ 64 ∧
    (align ≤ PGSIZE ∨
      (2 ^ 64 + PGSIZE - align) / ((size + align - 1) / align * align) % 2 ^ 32 = 0)

section Align

variable {align : BitVec 64}

theorem usedAlign_toNat : (usedAlign align).toNat = max align.toNat KMEM_MIN_ALIGN := by
  unfold usedAlign KMEM_MIN_ALIGN
  split
  · rename_i small
    have less : align.toNat < 16 := small
    exact (Nat.max_eq_right (Nat.le_of_lt less)).symm
  · rename_i large
    have more : 16 ≤ align.toNat := Nat.not_lt.mp large
    exact (Nat.max_eq_left more).symm

theorem exists_usedAlign (power : align = 0 ∨ ∃ k, align = BitVec.twoPow 64 k) :
    ∃ k, 4 ≤ k ∧ k < 64 ∧ usedAlign align = BitVec.twoPow 64 k ∧
      max align.toNat KMEM_MIN_ALIGN = 2 ^ k := by
  have least : ∃ k, 4 ≤ k ∧ k < 64 ∧ (16 : BitVec 64) = BitVec.twoPow 64 k :=
    ⟨4, by decide, by decide, by decide⟩
  have found : ∃ k, 4 ≤ k ∧ k < 64 ∧ usedAlign align = BitVec.twoPow 64 k := by
    unfold usedAlign
    split
    · exact least
    · rename_i large
      rcases power with rfl | ⟨k, rfl⟩
      · exact absurd (by decide) large
      · have more : 16 ≤ 2 ^ k % 2 ^ 64 := by
          rw [← BitVec.toNat_twoPow]
          exact Nat.not_lt.mp large
        have small : k < 64 := by
          by_contra wide
          have divides : 2 ^ 64 ∣ 2 ^ k := Nat.pow_dvd_pow 2 (Nat.not_lt.mp wide)
          rw [Nat.mod_eq_zero_of_dvd divides] at more
          omega
        refine ⟨k, ?_, small, rfl⟩
        by_contra few
        have less : 2 ^ k < 2 ^ 4 := Nat.pow_lt_pow_right (by decide) (Nat.not_le.mp few)
        have bound := Nat.mod_le (2 ^ k) (2 ^ 64)
        omega
  obtain ⟨k, least, most, same⟩ := found
  refine ⟨k, least, most, same, ?_⟩
  rw [← usedAlign_toNat, same, BitVec.toNat_twoPow,
    Nat.mod_eq_of_lt (Nat.pow_lt_pow_right (by decide) most)]

end Align

section Rounding

variable {size k : Nat}

theorem roundUp_toNat (small : k < 64) (x : BitVec 64) :
    (roundUp x (BitVec.twoPow 64 k)).toNat = (x.toNat + 2 ^ k - 1) % 2 ^ 64 / 2 ^ k * 2 ^ k :=
  toNat_roundUp small x

/-- Past the last multiple of the alignment, rounding up gives zero. -/
theorem rounded_eq_zero (large : 2 ^ 64 < size + 2 ^ k) (word : size < 2 ^ 64)
    (small : k < 64) : (size + 2 ^ k - 1) % 2 ^ 64 / 2 ^ k * 2 ^ k = 0 := by
  have less : 2 ^ k < 2 ^ 64 := Nat.pow_lt_pow_right (by decide) small
  have wrapped : (size + 2 ^ k - 1) % 2 ^ 64 = size + 2 ^ k - 1 - 2 ^ 64 := by omega
  rw [wrapped, Nat.div_eq_of_lt (by omega), Nat.zero_mul]

theorem le_rounded (size k : Nat) : size ≤ (size + 2 ^ k - 1) / 2 ^ k * 2 ^ k := by
  have positive : 0 < 2 ^ k := Nat.two_pow_pos k
  have below := Nat.lt_div_mul_add positive (a := size + 2 ^ k - 1)
  omega

theorem align_le_rounded (nonzero : 0 < size) : 2 ^ k ≤ (size + 2 ^ k - 1) / 2 ^ k * 2 ^ k := by
  have positive : 0 < 2 ^ k := Nat.two_pow_pos k
  have one : 1 ≤ (size + 2 ^ k - 1) / 2 ^ k := (Nat.one_le_div_iff positive).mpr (by omega)
  exact Nat.le_mul_of_pos_left _ one

/-- Where the slots begin: behind the header, at the first multiple of the alignment. -/
theorem headerEnd_eq (least : 4 ≤ k) (most : k < 64) :
    (64 + 2 ^ k - 1) % 2 ^ 64 / 2 ^ k * 2 ^ k = max 64 (2 ^ k) := by
  rcases Nat.lt_or_ge k 7 with few | many
  · interval_cases k
    all_goals norm_num
  · have large : 2 ^ 7 ≤ 2 ^ k := Nat.pow_le_pow_right (by decide) many
    have bound : 2 ^ k ≤ 2 ^ 63 := Nat.pow_le_pow_right (by decide) (by omega)
    have one : (64 + 2 ^ k - 1) / 2 ^ k = 1 := Nat.div_eq_of_lt_le (by omega) (by omega)
    rw [Nat.mod_eq_of_lt (by omega), one]
    omega

end Rounding

section Layout

variable {size align : BitVec 64} {k : Nat}

theorem cacheLayout_objsize (used : usedAlign align = BitVec.twoPow 64 k) (most : k < 64) :
    (cacheLayout size align).objsize = (size.toNat + 2 ^ k - 1) % 2 ^ 64 / 2 ^ k * 2 ^ k := by
  show (roundUp size (usedAlign align)).toNat = _
  rw [used, roundUp_toNat most]

theorem cacheLayout_objOffset (used : usedAlign align = BitVec.twoPow 64 k) (least : 4 ≤ k)
    (most : k < 64) : (cacheLayout size align).objOffset = max 64 (2 ^ k) % 2 ^ 32 := by
  show (roundUp 64 (usedAlign align)).toNat % 2 ^ 32 = _
  rw [used, roundUp_toNat most]
  exact congrArg (· % 2 ^ 32) (headerEnd_eq least most)

theorem cacheLayout_slots (used : usedAlign align = BitVec.twoPow 64 k) (least : 4 ≤ k)
    (most : k < 64) : (cacheLayout size align).slotsPerSlab =
      (2 ^ 64 - max 64 (2 ^ k) + 4096) % 2 ^ 64 / (cacheLayout size align).objsize % 2 ^ 32 := by
  have offset : (roundUp 64 (usedAlign align)).toNat = max 64 (2 ^ k) := by
    rw [used, roundUp_toNat most]
    exact headerEnd_eq least most
  show ((4096 - roundUp 64 (usedAlign align)) / roundUp size (usedAlign align)).toNat % 2 ^ 32 = _
  rw [BitVec.toNat_udiv, BitVec.toNat_sub, offset]
  rfl

theorem toNat_pos (nonzero : size ≠ 0) : 0 < size.toNat :=
  Nat.pos_of_ne_zero fun zero => nonzero (BitVec.eq_of_toNat_eq zero)

/-- An alignment of at most a page divides the offset of the slots, which is in the page. -/
theorem headerEnd_facts (page : k ≤ 12) :
    2 ^ k ∣ max 64 (2 ^ k) ∧ 64 ≤ max 64 (2 ^ k) ∧ max 64 (2 ^ k) ≤ 4096 := by
  have high : 2 ^ k ≤ 2 ^ 12 := Nat.pow_le_pow_right (by decide) page
  refine ⟨?_, Nat.le_max_left _ _, by omega⟩
  rcases Nat.le_total (2 ^ k) 64 with inHeader | past
  · have few : k ≤ 6 := (Nat.pow_le_pow_iff_right (by decide)).mp inHeader
    rw [Nat.max_eq_left inHeader]
    exact Nat.pow_dvd_pow 2 few
  · rw [Nat.max_eq_right past]

variable (used : usedAlign align = BitVec.twoPow 64 k) (most : k < 64)
  (rounds : size.toNat + 2 ^ k ≤ 2 ^ 64) (same : max align.toNat KMEM_MIN_ALIGN = 2 ^ k)
include used most rounds

theorem cacheLayout_objsize_of_fits :
    (cacheLayout size align).objsize = (size.toNat + 2 ^ k - 1) / 2 ^ k * 2 ^ k := by
  have positive : 0 < 2 ^ k := Nat.two_pow_pos k
  rw [cacheLayout_objsize used most, Nat.mod_eq_of_lt (by omega)]

include same

/-- With an alignment of at most a page, slots that are found are good. -/
theorem serves_of_small (least : 4 ≤ k) (page : k ≤ 12) (nonzero : size ≠ 0)
    (slots : (cacheLayout size align).slotsPerSlab ≠ 0) :
    (cacheLayout size align).Serves size.toNat align.toNat := by
  have objsize := cacheLayout_objsize_of_fits used most rounds
  have offset := @cacheLayout_objOffset size align k used least most
  have count := @cacheLayout_slots size align k used least most
  have wide := align_le_rounded (k := k) (toNat_pos nonzero)
  obtain ⟨divides, behind, inPage⟩ := headerEnd_facts page
  have low : 2 ^ 4 ≤ 2 ^ k := Nat.pow_le_pow_right (by decide) least
  rw [← objsize] at wide
  have room : (2 ^ 64 - max 64 (2 ^ k) + 4096) % 2 ^ 64 = 4096 - max 64 (2 ^ k) := by omega
  have few : (4096 - max 64 (2 ^ k)) / (cacheLayout size align).objsize ≤ 4096 / 16 :=
    Nat.div_le_div (Nat.sub_le _ _) (by omega) (by decide)
  rw [room, Nat.mod_eq_of_lt (by omega)] at count
  rw [Nat.mod_eq_of_lt (by omega)] at offset
  have filled := Nat.div_mul_le_self (4096 - max 64 (2 ^ k)) (cacheLayout size align).objsize
  constructor
  · rw [objsize]
    exact le_rounded size.toNat k
  · rw [same, objsize]
    exact Nat.dvd_mul_left _ _
  · rw [same, offset]
    exact divides
  · rw [offset]
    exact behind
  · exact Nat.pos_of_ne_zero slots
  · rw [count]
    exact few
  · rw [offset, count]
    unfold PGSIZE
    omega

/-- With a larger alignment, slots that are found do not fit the page. -/
theorem not_serves_of_large (pages : 12 < k) (nonzero : size ≠ 0) :
    ¬ (cacheLayout size align).Serves size.toNat align.toNat := by
  intro serves
  have objsize := cacheLayout_objsize_of_fits used most rounds
  have wide := align_le_rounded (k := k) (toNat_pos nonzero)
  have high : 2 ^ 13 ≤ 2 ^ k := Nat.pow_le_pow_right (by decide) pages
  have within := serves.within
  have one := Nat.mul_le_mul_right (cacheLayout size align).objsize serves.slots
  unfold PGSIZE at within
  omega

end Layout

/-- The division of `cache_setup` is sound, and the layout is good if it has slots, exactly for
the sizes and alignments that fit. -/
theorem sizeFits_iff {size align : BitVec 64} (nonzero : size ≠ 0)
    (power : align = 0 ∨ ∃ k, align = BitVec.twoPow 64 k) :
    SizeFits size.toNat align.toNat ↔ (cacheLayout size align).objsize ≠ 0 ∧
      ((cacheLayout size align).slotsPerSlab ≠ 0 →
        (cacheLayout size align).Serves size.toNat align.toNat) := by
  obtain ⟨k, least, most, used, same⟩ := exists_usedAlign power
  have objsize := @cacheLayout_objsize size align k used most
  have positive : 0 < 2 ^ k := Nat.two_pow_pos k
  unfold SizeFits
  dsimp only
  rw [same]
  rcases Nat.lt_or_ge (2 ^ 64) (size.toNat + 2 ^ k) with wraps | rounds
  · have zero := rounded_eq_zero wraps size.isLt most
    rw [← objsize] at zero
    constructor
    · intro fits
      exact absurd fits.1 (Nat.not_le.mpr wraps)
    · intro sound
      exact absurd zero sound.1
  · have wide := align_le_rounded (k := k) (toNat_pos nonzero)
    have objsize := cacheLayout_objsize_of_fits used most rounds
    have count := @cacheLayout_slots size align k used least most
    have sound : (cacheLayout size align).objsize ≠ 0 := by omega
    rcases Nat.lt_or_ge 12 k with pages | page
    · have past : 2 ^ 12 < 2 ^ k := Nat.pow_lt_pow_right (by decide) pages
      have room : (2 ^ 64 - max 64 (2 ^ k) + 4096) % 2 ^ 64 = 2 ^ 64 + PGSIZE - 2 ^ k := by
        unfold PGSIZE
        omega
      have large : ¬ 2 ^ k ≤ PGSIZE := Nat.not_le.mpr past
      have never := not_serves_of_large used most rounds same pages nonzero
      rw [room, objsize] at count
      simp only [rounds, sound, large, ← count, false_or, true_and, ne_eq, not_false_iff, never,
        imp_false, not_not]
    · have small : 2 ^ k ≤ PGSIZE := Nat.pow_le_pow_right (by decide) page
      have serves := serves_of_small used most rounds same least page nonzero
      exact ⟨fun _ => ⟨sound, serves⟩, fun _ => ⟨rounds, .inl small⟩⟩

end Kmem

end Av6
