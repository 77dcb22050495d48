import Av6.SlabLayout

/-!
# The check of an address that is freed

`slab_free_locked` reads the slot off the address and asserts that the slot is one of the slab and
in use.  An address in the header gives a number that is no slot, and one in the tail of the page a
slot that there is not.  The division drops the place inside the slot, so that an address in the
middle of an object is taken for the object.
-/

namespace Av6

namespace Kmem

open Bitstring FallibleState

/-- `obj` is the address of an object in use. -/
def IsObject (l : Layout) (used : Bitstr) (p obj : Nat) : Prop :=
  ∃ slot < l.slotsPerSlab, bitTest used slot = true ∧ obj = slabObj l p slot

/-- `obj` is inside an object in use, and not its address. -/
def InsideObject (l : Layout) (used : Bitstr) (p obj : Nat) : Prop :=
  ∃ slot < l.slotsPerSlab, bitTest used slot = true ∧ slabObj l p slot < obj ∧
    obj < slabObj l p slot + l.objsize

variable {l : Layout} {used : Bitstr} {p obj slot : Nat} {c : CacheRef} {s : AllocState}

theorem toInt32_eq_iff {n v : Nat} (small : v < 2 ^ 31) :
    toInt32 n = (v : Int) ↔ n % 2 ^ 32 = v := by
  rw [toInt32, BitVec.toInt_eq_toNat_bmod, BitVec.toNat_ofNat, Int.bmod]
  split <;> omega

/-- A distance of at most a page below zero, divided by a size, is no small number in 32 bits. -/
theorem quotient_of_negative {size : Nat} (v below : Nat) (positive : 0 < size) (negative : 1 ≤ below)
    (small : below + size * (v + 1) ≤ 2 ^ 32) : (2 ^ 64 - below) / size % 2 ^ 32 ≠ v := by
  intro same
  have split := Nat.div_add_mod ((2 ^ 64 - below) / size) (2 ^ 32)
  rw [same] at split
  generalize (2 ^ 64 - below) / size / 2 ^ 32 = high at split
  have low := Nat.div_mul_le_self (2 ^ 64 - below) size
  have next := Nat.lt_mul_div_succ (2 ^ 64 - below) positive
  rw [← split] at low next
  -- The high part of the quotient would lie strictly between two consecutive numbers.
  have expand : (2 ^ 32 * high + v) * size = 2 ^ 32 * (size * high) + size * v := by ring
  have expand' : size * (2 ^ 32 * high + v + 1) = 2 ^ 32 * (size * high) + size * (v + 1) := by ring
  rw [expand] at low
  rw [expand'] at next
  generalize size * high = product at low next
  generalize size * (v + 1) = room at small next
  omega

/-- The slot that is computed is the one that the address lies in. -/
theorem slotOf_eq_iff (fits : l.Fits) (width : obj < 2 ^ 64) (inside : slot < l.slotsPerSlab) :
    slotOf l (obj / PGSIZE) obj = slot ↔
      slabObj l (obj / PGSIZE) slot ≤ obj ∧ obj < slabObj l (obj / PGSIZE) slot + l.objsize := by
  have size := fits.objsize
  have bits := fits.bits
  have room := fits.slot_le inside
  have low : obj / PGSIZE < pageLimit := by
    unfold PGSIZE pageLimit
    omega
  rw [slabObj_eq fits low inside, slotOf, toInt32_eq_iff (by unfold SLAB_MAX_OBJS at bits; omega)]
  unfold pageLimit at low
  unfold PGSIZE at *
  rw [Nat.mod_eq_of_lt (by omega : obj / 4096 * 4096 + l.objOffset < 2 ^ 64)]
  rcases Nat.lt_or_ge obj (obj / 4096 * 4096 + l.objOffset) with header | body
  · have distance : (obj + 2 ^ 64 - (obj / 4096 * 4096 + l.objOffset)) % 2 ^ 64 =
        2 ^ 64 - (obj / 4096 * 4096 + l.objOffset - obj) := by
      omega
    have expand : l.objsize * (slot + 1) = slot * l.objsize + l.objsize := by ring
    have never := quotient_of_negative slot (obj / 4096 * 4096 + l.objOffset - obj) size
      (by omega) (by omega)
    rw [distance]
    constructor
    · intro same
      exact absurd same never
    · intro within
      omega
  · have distance : (obj + 2 ^ 64 - (obj / 4096 * 4096 + l.objOffset)) % 2 ^ 64 =
        obj - (obj / 4096 * 4096 + l.objOffset) := by
      omega
    have short : (obj - (obj / 4096 * 4096 + l.objOffset)) / l.objsize < 2 ^ 32 := by
      apply (Nat.div_le_self ..).trans_lt
      omega
    rw [distance, Nat.mod_eq_of_lt short, Nat.div_eq_iff size]
    have expand : l.objsize * slot = slot * l.objsize := Nat.mul_comm ..
    omega

theorem not_inside_of_isObject (fits : l.Fits) (width : obj < 2 ^ 64)
    (object : IsObject l used (obj / PGSIZE) obj) : ¬ InsideObject l used (obj / PGSIZE) obj := by
  obtain ⟨slot, inside, -, start⟩ := object
  rintro ⟨slot', inside', -, after, before⟩
  have size := fits.objsize
  have first := (slotOf_eq_iff fits width inside).mpr ⟨start.ge, by omega⟩
  have second := (slotOf_eq_iff fits width inside').mpr ⟨after.le, before⟩
  have same : slot = slot' := by
    rw [first] at second
    exact_mod_cast second
  rw [← same, ← start] at after
  exact lt_irrefl _ after

/-- The condition of the assertion. -/
theorem check_iff (fits : l.Fits) (width : obj < 2 ^ 64) :
    (0 ≤ slotOf l (obj / PGSIZE) obj ∧ slotOf l (obj / PGSIZE) obj < l.slotsPerSlab ∧
      bitTest used (slotOf l (obj / PGSIZE) obj).toNat = true) ↔
    IsObject l used (obj / PGSIZE) obj ∨ InsideObject l used (obj / PGSIZE) obj := by
  have size := fits.objsize
  constructor
  · rintro ⟨positive, less, set⟩
    obtain ⟨slot, number⟩ := Int.eq_ofNat_of_zero_le positive
    rw [number] at less set
    have inside : slot < l.slotsPerSlab := by exact_mod_cast less
    obtain ⟨after, before⟩ := (slotOf_eq_iff fits width inside).mp number
    rcases after.eq_or_lt with start | later
    · exact Or.inl ⟨slot, inside, set, start.symm⟩
    · exact Or.inr ⟨slot, inside, set, later, before⟩
  · have passes : ∀ slot < l.slotsPerSlab, bitTest used slot = true →
        slotOf l (obj / PGSIZE) obj = slot →
        0 ≤ slotOf l (obj / PGSIZE) obj ∧ slotOf l (obj / PGSIZE) obj < l.slotsPerSlab ∧
          bitTest used (slotOf l (obj / PGSIZE) obj).toNat = true := by
      intro slot inside set number
      rw [number]
      exact ⟨Int.natCast_nonneg slot, by exact_mod_cast inside, set⟩
    rintro (⟨slot, inside, set, start⟩ | ⟨slot, inside, set, after, before⟩)
    · exact passes slot inside set ((slotOf_eq_iff fits width inside).mpr ⟨start.ge, by omega⟩)
    · exact passes slot inside set ((slotOf_eq_iff fits width inside).mpr ⟨after.le, before⟩)

/-- On a slab of the cache, `slab_free_locked` stops at the assertion or takes the slot back. -/
theorem slabFreeLocked_fails_iff (own : (s.slabs (obj / PGSIZE)).cache = c)
    (fits : (s.caches c).layout.Fits) (width : obj < 2 ^ 64) :
    Fails (slabFreeLocked c obj) s .badAddress ↔
      ¬ (IsObject (s.caches c).layout (s.slabs (obj / PGSIZE)).used (obj / PGSIZE) obj ∨
        InsideObject (s.caches c).layout (s.slabs (obj / PGSIZE)).used (obj / PGSIZE) obj) := by
  rw [← check_iff fits width]
  unfold slabFreeLocked
  constructor
  · intro fails passes
    apply Yields.not_fails ?_ fails
    · exact fun _ _ => True
    · exact .read_bind (.check_bind own (.check_bind passes (.write trivial)))
  · intro unmet
    apply Fails.read_bind
    apply Yields.bind_fails (P := fun _ t => t = s)
    · unfold check
      rw [if_pos own]
      exact .ret rfl
    · rintro _ _ rfl
      exact Fails.check_bind unmet

/-- The assertion is exact for an address unless this is inside an object in use. -/
theorem slabFree_check_exact_iff (own : (s.slabs (obj / PGSIZE)).cache = c)
    (fits : (s.caches c).layout.Fits) (width : obj < 2 ^ 64) :
    (¬ Fails (slabFreeLocked c obj) s .badAddress ↔
      IsObject (s.caches c).layout (s.slabs (obj / PGSIZE)).used (obj / PGSIZE) obj) ↔
    ¬ InsideObject (s.caches c).layout (s.slabs (obj / PGSIZE)).used (obj / PGSIZE) obj := by
  rw [slabFreeLocked_fails_iff own fits width, not_not]
  have apart : IsObject _ (s.slabs (obj / PGSIZE)).used _ obj → ¬ InsideObject _ _ _ obj :=
    not_inside_of_isObject fits width
  tauto

/-- Whether the first object of a slab of `cache_cache` is taken on the page, at that address. -/
def takesFirst (page obj : Nat) : Bool :=
  match allocDirect .cacheCache (kmemInit [page]) with
  | .ok (found, s) => found = some obj ∧ (s.slabs page).cache = .cacheCache ∧
      (s.caches .cacheCache).layout = ⟨640, 64, 6⟩ ∧ bitTest (s.slabs page).used 0 = true
  | .error _ => false

/-- The first allocation from `cache_cache`. -/
theorem exists_first_object : ∃ s,
    allocDirect .cacheCache (kmemInit [0xffff000040000]) = .ok (some 0xffff000040000040, s) ∧
      (s.slabs 0xffff000040000).cache = .cacheCache ∧
      (s.caches .cacheCache).layout = ⟨640, 64, 6⟩ ∧
      bitTest (s.slabs 0xffff000040000).used 0 = true := by
  have takes : takesFirst 0xffff000040000 0xffff000040000040 = true := by decide +kernel
  unfold takesFirst at takes
  cases outcome : allocDirect .cacheCache (kmemInit [0xffff000040000]) with
  | error e =>
      rw [outcome] at takes
      cases takes
  | ok result =>
      obtain ⟨found, s⟩ := result
      rw [outcome] at takes
      obtain ⟨rfl, facts⟩ := of_decide_eq_true takes
      exact ⟨s, rfl, facts⟩

/-- The address of the first object passes. -/
theorem slabFree_check_exact_iff_object : ∃ s,
    allocDirect .cacheCache (kmemInit [0xffff000040000]) = .ok (some 0xffff000040000040, s) ∧
      (¬ Fails (slabFreeLocked .cacheCache 0xffff000040000040) s .badAddress ↔
        IsObject (s.caches .cacheCache).layout (s.slabs 0xffff000040000).used 0xffff000040000
          0xffff000040000040) := by
  obtain ⟨s, runs, own, layout, -⟩ := exists_first_object
  refine ⟨s, runs, ?_⟩
  apply (slabFree_check_exact_iff own (by rw [layout]; decide) (by decide)).mpr
  rw [layout]
  rintro ⟨slot, inside, -, after, -⟩
  rw [slabObj_eq (by decide) (by decide) inside] at after
  unfold PGSIZE at after
  dsimp only at after
  omega

/-- Eight bytes into the first object, the assertion passes as well. -/
theorem inner_address_passes : ∃ s,
    allocDirect .cacheCache (kmemInit [0xffff000040000]) = .ok (some 0xffff000040000040, s) ∧
      (s.slabs 0xffff000040000).cache = .cacheCache ∧ (s.caches .cacheCache).layout.Fits ∧
      ¬ (¬ Fails (slabFreeLocked .cacheCache 0xffff000040000048) s .badAddress ↔
        IsObject (s.caches .cacheCache).layout (s.slabs 0xffff000040000).used 0xffff000040000
          0xffff000040000048) := by
  obtain ⟨s, runs, own, layout, set⟩ := exists_first_object
  have fits : (s.caches .cacheCache).layout.Fits := by
    rw [layout]
    decide
  have inner : InsideObject (s.caches .cacheCache).layout (s.slabs 0xffff000040000).used
      0xffff000040000 0xffff000040000048 := by
    rw [layout]
    exact ⟨0, by decide, set, by decide, by decide⟩
  refine ⟨s, runs, own, fits, ?_⟩
  intro exact_
  have width : 0xffff000040000048 < 2 ^ 64 := by decide
  have passes := mt (slabFreeLocked_fails_iff own fits width).mp (not_not.mpr (Or.inr inner))
  exact not_inside_of_isObject fits width (exact_.mp passes) inner

end Kmem

end Av6
