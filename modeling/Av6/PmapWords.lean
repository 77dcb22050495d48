import Av6.PmapModel
import Mathlib.Data.Nat.Bitwise

/-!
# Page-table entries

Words of a page after a write, and what an entry that has been written says: that it is
valid, and which page it points at.
-/

namespace Av6

namespace Pmap

open Kmem

variable {memory : Memory} {page q i j word flags : Nat}

theorem wordAt_lt (memory : Memory) (page i : Nat) : wordAt memory page i < 2 ^ 64 := by
  have b0 := (memory page (8 * i)).toNat_lt
  have b1 := (memory page (8 * i + 1)).toNat_lt
  have b2 := (memory page (8 * i + 2)).toNat_lt
  have b3 := (memory page (8 * i + 3)).toNat_lt
  have b4 := (memory page (8 * i + 4)).toNat_lt
  have b5 := (memory page (8 * i + 5)).toNat_lt
  have b6 := (memory page (8 * i + 6)).toNat_lt
  have b7 := (memory page (8 * i + 7)).toNat_lt
  unfold wordAt
  omega

theorem setWord_byte {k : Nat} (small : k < 8) :
    (setWord memory page i word page (8 * i + k)).toNat = word / 2 ^ (8 * k) % 2 ^ 8 := by
  have index : (8 * i + k) / 8 = i := by omega
  have rest : (8 * i + k) % 8 = k := by omega
  unfold setWord
  rw [if_pos ⟨rfl, index⟩, rest, UInt8.toNat_ofNat']

theorem wordAt_setWord_mod : wordAt (setWord memory page i word) page i = word % 2 ^ 64 := by
  have first := @setWord_byte memory page i word 0 (by omega)
  rw [Nat.add_zero] at first
  unfold wordAt
  rw [first, setWord_byte (by omega), setWord_byte (by omega), setWord_byte (by omega),
    setWord_byte (by omega), setWord_byte (by omega), setWord_byte (by omega),
    setWord_byte (by omega)]
  simp only [Nat.reduceMul, Nat.pow_zero, Nat.div_one]
  omega

theorem wordAt_setWord (lt : word < 2 ^ 64) : wordAt (setWord memory page i word) page i = word := by
  rw [wordAt_setWord_mod, Nat.mod_eq_of_lt lt]

/-- The bytes of other words stay. -/
theorem setWord_apply_of_ne {off : Nat} (other : q ≠ page ∨ off / 8 ≠ i) :
    setWord memory page i word q off = memory q off := by
  unfold setWord
  exact if_neg (by tauto)

theorem wordAt_congr {memory' : Memory} (same : ∀ k < 8, memory' q (8 * j + k) =
    memory page (8 * i + k)) : wordAt memory' q j = wordAt memory page i := by
  have first := same 0 (by omega)
  rw [Nat.add_zero, Nat.add_zero] at first
  unfold wordAt
  rw [first, same 1 (by omega), same 2 (by omega), same 3 (by omega), same 4 (by omega),
    same 5 (by omega), same 6 (by omega), same 7 (by omega)]

theorem wordAt_setWord_of_ne (other : q ≠ page ∨ j ≠ i) :
    wordAt (setWord memory page i word) q j = wordAt memory q j := by
  refine wordAt_congr fun k small => setWord_apply_of_ne ?_
  rw [show (8 * j + k) / 8 = j by omega]
  exact other

theorem wordAt_zeroPage (small : i < TABLE_ENTRIES) : wordAt (zeroPage memory page) page i = 0 := by
  have bytes : ∀ k < 8, zeroPage memory page page (8 * i + k) = 0 := by
    intro k less
    unfold zeroPage
    unfold TABLE_ENTRIES at small
    exact if_pos ⟨rfl, by unfold PGSIZE; omega⟩
  have first := bytes 0 (by omega)
  rw [Nat.add_zero] at first
  unfold wordAt
  rw [first, bytes 1 (by omega), bytes 2 (by omega), bytes 3 (by omega), bytes 4 (by omega),
    bytes 5 (by omega), bytes 6 (by omega), bytes 7 (by omega)]
  rfl

theorem zeroPage_apply_of_ne {off : Nat} (other : q ≠ page) :
    zeroPage memory page q off = memory q off :=
  if_neg fun here => other here.1

/-- A page of the direct map. -/
def Direct (page : Nat) : Prop := KERN_BASE ≤ page * PGSIZE ∧ page * PGSIZE < 2 ^ 64

/-- The bits of an entry beside its address; the entry is valid. -/
structure Attributes (flags : Nat) : Prop where
  noAddress : pteAddr flags = 0
  valid : isValid flags
  lt : flags < 2 ^ 64

instance (flags : Nat) : Decidable (Attributes flags) :=
  decidable_of_iff (pteAddr flags = 0 ∧ isValid flags ∧ flags < 2 ^ 64)
    ⟨fun h => ⟨h.1, h.2.1, h.2.2⟩, fun h => ⟨h.noAddress, h.valid, h.lt⟩⟩

theorem attributes_table : Attributes (PTE_VALID ||| PTE_TABLE) := by decide

theorem attributes_user : Attributes PAGE_USER := by decide

theorem Direct.kvaToPa_eq (direct : Direct page) :
    ∃ k < 2 ^ 36, kvaToPa page = k * 2 ^ 12 ∧ paToKva (kvaToPa page) = page := by
  obtain ⟨above, below⟩ := direct
  unfold kvaToPa paToKva
  unfold KERN_BASE PGSIZE at *
  exact ⟨page - 0xFFFF000000000, by omega, by omega, by omega⟩

theorem pteAddr_shift {k : Nat} (lt : k < 2 ^ 36) : pteAddr (k * 2 ^ 12) = k * 2 ^ 12 := by
  unfold pteAddr
  rw [← Nat.shiftLeft_eq, ← Nat.shiftLeft_and_distrib, Nat.and_two_pow_sub_one_eq_mod,
    Nat.mod_eq_of_lt lt]

theorem pteAddr_entry (direct : Direct page) (attributes : Attributes flags) :
    pteAddr (kvaToPa page ||| flags) = kvaToPa page := by
  obtain ⟨k, lt, eq, -⟩ := direct.kvaToPa_eq
  have address := pteAddr_shift lt
  have none_ := attributes.noAddress
  unfold pteAddr at address none_ ⊢
  rw [Nat.and_or_distrib_right, none_, eq, address, Nat.or_zero]

@[simp]
theorem ptePage_entry (direct : Direct page) (attributes : Attributes flags) :
    ptePage (kvaToPa page ||| flags) = page := by
  obtain ⟨k, -, -, back⟩ := direct.kvaToPa_eq
  unfold ptePage
  rw [pteAddr_entry direct attributes, back]

theorem isValid_entry (attributes : Attributes flags) : isValid (word ||| flags) := by
  have valid := attributes.valid
  unfold isValid at valid ⊢
  rw [Nat.and_or_distrib_right]
  intro zero
  exact valid (Nat.or_eq_zero_iff.mp zero).2

theorem not_isValid_zero : ¬ isValid 0 := by decide

theorem entry_lt (direct : Direct page) (attributes : Attributes flags) :
    kvaToPa page ||| flags < 2 ^ 64 := by
  obtain ⟨k, lt, eq, -⟩ := direct.kvaToPa_eq
  exact Nat.or_lt_two_pow (by omega) attributes.lt

/-- An entry without its address is its attributes. -/
theorem entry_xor (direct : Direct page) (attributes : Attributes flags) :
    (kvaToPa page ||| flags) ^^^ pteAddr (kvaToPa page ||| flags) = flags := by
  obtain ⟨k, lt, eq, -⟩ := direct.kvaToPa_eq
  have disjoint : kvaToPa page &&& flags = 0 := by
    have inside := pteAddr_shift lt
    have none_ := attributes.noAddress
    unfold pteAddr at inside none_
    rw [eq, ← inside, Nat.and_assoc, Nat.and_comm _ flags, none_, Nat.and_zero]
  rw [pteAddr_entry direct attributes]
  refine Nat.eq_of_testBit_eq fun i => ?_
  have bit : (kvaToPa page &&& flags).testBit i = false := by
    rw [disjoint, Nat.zero_testBit]
  rw [Nat.testBit_and] at bit
  rw [Nat.testBit_xor, Nat.testBit_or]
  cases h : (kvaToPa page).testBit i <;> cases h' : flags.testBit i <;> simp_all

end Pmap

end Av6
