import Av6.KmemModel

/-!
# Slots and addresses

A layout that fits one page puts every slot of a slab behind the header and inside the
page, so that the page and the slot can be read off the address of an object.
-/

namespace Av6

namespace Kmem

open Bitstring

/-- The slots lie behind the header, inside the page, and have a bit each. -/
structure Layout.Fits (l : Layout) : Prop where
  objsize : 0 < l.objsize
  slots : 0 < l.slotsPerSlab
  bits : l.slotsPerSlab ≤ SLAB_MAX_OBJS
  header : slabHeaderSize ≤ l.objOffset
  within : l.objOffset + l.slotsPerSlab * l.objsize ≤ PGSIZE

instance (l : Layout) : Decidable l.Fits :=
  decidable_of_iff (0 < l.objsize ∧ 0 < l.slotsPerSlab ∧ l.slotsPerSlab ≤ SLAB_MAX_OBJS ∧
      slabHeaderSize ≤ l.objOffset ∧ l.objOffset + l.slotsPerSlab * l.objsize ≤ PGSIZE)
    ⟨fun ⟨h₁, h₂, h₃, h₄, h₅⟩ => ⟨h₁, h₂, h₃, h₄, h₅⟩,
      fun ⟨h₁, h₂, h₃, h₄, h₅⟩ => ⟨h₁, h₂, h₃, h₄, h₅⟩⟩

/-- The direct map ends with the address space. -/
def pageLimit : Nat := 2 ^ 52

variable {l : Layout} {p q : Nat} {slot slot' : Nat} {a : Nat}

theorem Layout.Fits.slot_le (fits : l.Fits) (inside : slot < l.slotsPerSlab) :
    l.objOffset + slot * l.objsize + l.objsize ≤ PGSIZE := by
  have within := fits.within
  have room : (slot + 1) * l.objsize ≤ l.slotsPerSlab * l.objsize :=
    Nat.mul_le_mul_right _ inside
  rw [Nat.add_mul, Nat.one_mul] at room
  omega

theorem slabObj_eq (fits : l.Fits) (low : p < pageLimit) (inside : slot < l.slotsPerSlab) :
    slabObj l p slot = p * PGSIZE + (l.objOffset + slot * l.objsize) := by
  have room := fits.slot_le inside
  have size := fits.objsize
  unfold slabObj
  unfold pageLimit at low
  unfold PGSIZE at *
  rw [Nat.mod_eq_of_lt (by omega)]
  omega

theorem slabObj_div (fits : l.Fits) (low : p < pageLimit) (inside : slot < l.slotsPerSlab) :
    slabObj l p slot / PGSIZE = p := by
  have room := fits.slot_le inside
  have size := fits.objsize
  rw [slabObj_eq fits low inside]
  unfold PGSIZE at *
  omega

theorem toInt32_of_le {n : Nat} (small : n ≤ SLAB_MAX_OBJS) : toInt32 n = n := by
  unfold SLAB_MAX_OBJS at small
  rw [toInt32, BitVec.toInt_eq_toNat_of_lt]
  · rw [BitVec.toNat_ofNat, Nat.mod_eq_of_lt (by omega)]
  · rw [BitVec.toNat_ofNat]
    omega

theorem slotOf_slabObj (fits : l.Fits) (low : p < pageLimit) (inside : slot < l.slotsPerSlab) :
    slotOf l p (slabObj l p slot) = slot := by
  have room := fits.slot_le inside
  have size := fits.objsize
  have bits := fits.bits
  have offset : (slabObj l p slot + 2 ^ 64 - (p * PGSIZE + l.objOffset) % 2 ^ 64) % 2 ^ 64 =
      slot * l.objsize := by
    rw [slabObj_eq fits low inside]
    unfold pageLimit at low
    unfold PGSIZE at *
    rw [Nat.mod_eq_of_lt (by omega : p * 4096 + l.objOffset < 2 ^ 64)]
    omega
  rw [slotOf, offset, Nat.mul_div_cancel _ size, toInt32_of_le (by omega)]

theorem slabObj_inj (fits : l.Fits) (low : p < pageLimit) (low' : q < pageLimit)
    (inside : slot < l.slotsPerSlab) (inside' : slot' < l.slotsPerSlab)
    (same : slabObj l p slot = slabObj l q slot') : p = q ∧ slot = slot' := by
  have page : p = q := by
    rw [← slabObj_div fits low inside, same, slabObj_div fits low' inside']
  subst page
  have number := slotOf_slabObj fits low inside
  rw [same, slotOf_slabObj fits low inside'] at number
  exact ⟨rfl, by exact_mod_cast number.symm⟩

end Kmem

end Av6
