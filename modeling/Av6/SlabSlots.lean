import Av6.SlabLayer

/-!
# Taking and returning a slot

`slab_alloc_locked` and `slab_free_locked` at the slab layer: one object more is handed
out, or one less, and the slab is on the list that its count dictates.
-/

namespace Av6

namespace Kmem

open Bitstring

variable {s t : AllocState} {c d : CacheRef} {p q slot : Nat} {spare : Option Nat} {k : Cache}
  {l : Layout} {used : Bitstr} {whole : Multiset Nat} {caches : List CacheRef}

/-- One more bit set, one more object handed out. -/
theorem usedObjs_raise {used' : Bitstr} (inside : slot < l.slotsPerSlab)
    (clear : bitTest used slot = false) (set : bitTest used' slot = true)
    (same : ∀ i, i ≠ slot → bitTest used' i = bitTest used i) :
    usedObjs l p used' = slabObj l p slot ::ₘ usedObjs l p used := by
  rw [usedObjs, usedObjs, Multiset.cons_coe, ← List.map_cons, Multiset.coe_eq_coe]
  refine List.Perm.map _ ((List.perm_ext_iff_of_nodup ?_ ?_).mpr fun i => ?_)
  · exact List.nodup_range.filter _
  · rw [List.nodup_cons]
    exact ⟨by simp [clear], List.nodup_range.filter _⟩
  · by_cases here : i = slot
    · simp [here, set, inside]
    · simp [here, same i here]

theorem slabPages_removeSlab (nodup : k.slabPages.Nodup) (p : Nat) :
    (k.removeSlab p).slabPages = k.slabPages.erase p := by
  simp only [Cache.slabPages, List.append_assoc, List.nodup_append', List.disjoint_append_right]
    at nodup
  obtain ⟨-, ⟨-, -, apart⟩, full, empty⟩ := nodup
  simp only [Cache.slabPages, Cache.removeSlab, List.append_assoc]
  by_cases here : p ∈ k.partialSlabs
  · rw [List.erase_append_left _ here, List.erase_of_not_mem (full here),
      List.erase_of_not_mem (empty here)]
  · rw [List.erase_append_right _ here, List.erase_of_not_mem here]
    by_cases there : p ∈ k.fullSlabs
    · rw [List.erase_append_left _ there, List.erase_of_not_mem (apart there)]
    · rw [List.erase_append_right _ there, List.erase_of_not_mem there]

/-- The members of the three lists after a removal. -/
theorem mem_removeSlab (nodup : k.slabPages.Nodup) (p q : Nat) :
    (q ∈ (k.removeSlab p).partialSlabs ↔ q ≠ p ∧ q ∈ k.partialSlabs) ∧
      (q ∈ (k.removeSlab p).fullSlabs ↔ q ≠ p ∧ q ∈ k.fullSlabs) ∧
        (q ∈ (k.removeSlab p).emptySlabs ↔ q ≠ p ∧ q ∈ k.emptySlabs) := by
  simp only [Cache.slabPages, List.append_assoc, List.nodup_append'] at nodup
  obtain ⟨first, ⟨second, third, -⟩, -⟩ := nodup
  exact ⟨first.mem_erase_iff, second.mem_erase_iff, third.mem_erase_iff⟩

section Moves

variable (nodup : k.slabPages.Nodup) (member : p ∈ k.slabPages)
include nodup member

theorem perm_slabPages_removeSlab : List.Perm (p :: (k.removeSlab p).slabPages) k.slabPages := by
  rw [slabPages_removeSlab nodup]
  exact (List.perm_cons_erase member).symm

theorem slabPages_toPartial :
    (({ k.removeSlab p with partialSlabs := p :: (k.removeSlab p).partialSlabs } : Cache).slabPages :
      Multiset Nat) = k.slabPages :=
  Multiset.coe_eq_coe.mpr (perm_slabPages_removeSlab nodup member)

theorem slabPages_toFull :
    (({ k.removeSlab p with fullSlabs := p :: (k.removeSlab p).fullSlabs } : Cache).slabPages :
      Multiset Nat) = k.slabPages := by
  refine Multiset.coe_eq_coe.mpr (.trans ?_ (perm_slabPages_removeSlab nodup member))
  simp only [Cache.slabPages, List.append_assoc, List.cons_append]
  exact List.perm_middle

theorem slabPages_toEmpty :
    (({ k.removeSlab p with emptySlabs := p :: (k.removeSlab p).emptySlabs } : Cache).slabPages :
      Multiset Nat) = k.slabPages := by
  refine Multiset.coe_eq_coe.mpr (.trans ?_ (perm_slabPages_removeSlab nodup member))
  simp only [Cache.slabPages]
  exact List.perm_middle

end Moves

/-- A slab is on one list. -/
theorem CacheSlabsOk.apart_of_partial {out : Multiset Nat} (ok : CacheSlabsOk s c out spare)
    (listed : p ∈ (s.caches c).partialSlabs) :
    p ∉ (s.caches c).fullSlabs ∧ p ∉ (s.caches c).emptySlabs := by
  have nodup := ok.nodup
  simp only [Cache.slabPages, List.append_assoc, List.nodup_append', List.disjoint_append_right]
    at nodup
  exact ⟨nodup.2.2.1 listed, nodup.2.2.2 listed⟩

/-- Only a slab on the partial list can be the spare one. -/
theorem CacheSlabsOk.unspare {out : Multiset Nat} (ok : CacheSlabsOk s c out spare) (spare' : Option Nat)
    (elsewhere : ∀ q ∈ (s.caches c).partialSlabs, spare ≠ some q) :
    CacheSlabsOk s c out spare' :=
  { ok with
    partly := fun q member =>
      ⟨(ok.partly q member).1, fun unused => (elsewhere q member ((ok.partly q member).2 unused)).elim⟩ }

theorem SlabLayer.takeSlot {out : CacheRef → Multiset Nat}
    (ok : SlabLayer s caches out whole spare) (member : c ∈ caches)
    (listed : p ∈ (s.caches c).partialSlabs) (here : ∀ q, spare = some q → q = p)
    (inside : slot < (s.caches c).layout.slotsPerSlab)
    (clear : bitTest (s.slabs p).used slot = false) :
    SlabLayer (s.takeSlot c p slot) caches
      (out + Pi.single c {slabObj (s.caches c).layout p slot}) whole none := by
  have cache := ok.cache c member
  have inPages : p ∈ (s.caches c).slabPages := by simp [Cache.slabPages, listed]
  have page := cache.page p inPages
  have bits := cache.fits.bits
  have word : slot / 64 < (s.slabs p).used.length := by
    rw [page.words]
    unfold SLAB_MAX_OBJS at *
    omega
  have count := page.inuse
  have grown := popcount_bitSet word inside clear
  have slab : (s.takeSlot c p slot).slabs p =
      { s.slabs p with
        inuse := (s.slabs p).inuse + 1, used := bitSet (s.slabs p).used slot } := by
    simp [AllocState.takeSlot]
  have other : ∀ q, q ≠ p → (s.takeSlot c p slot).slabs q = s.slabs q := by
    intro q distinct
    simp [AllocState.takeSlot, distinct]
  have moved : (s.takeSlot c p slot).caches c =
      if (s.slabs p).inuse + 1 = (s.caches c).layout.slotsPerSlab then
        { (s.caches c).removeSlab p with
          fullSlabs := p :: ((s.caches c).removeSlab p).fullSlabs }
      else s.caches c := by
    simp [AllocState.takeSlot]
  have change : SlabChange s (s.takeSlot c p slot) c p := by
    refine ⟨inPages, ?_, ?_, ?_, other, ?_, ?_, ?_, rfl, rfl, rfl, rfl⟩
    · rw [slab]
      exact page.cache
    · rw [slab, length_bitSet]
      exact page.words
    · rw [slab]
      simp only
      omega
    · intro d distinct
      simp [AllocState.takeSlot, distinct]
    · rw [moved]
      split <;> rfl
    · rw [moved]
      split
      · exact slabPages_toFull cache.nodup inPages
      · rfl
  have lists := mem_removeSlab cache.nodup p
  have apart := cache.apart_of_partial listed
  have inuse : ((s.takeSlot c p slot).slabs p).inuse = (s.slabs p).inuse + 1 := by rw [slab]
  have less := (cache.partly p listed).1
  obtain ⟨rest, before, after⟩ := change.handed cache.nodup
  refine ok.change change member ?_ ?_ ?_ ?_ ?_
  · rw [moved]
    have empty := cache.empty
    split <;> grind
  · rw [moved]
    have full := cache.full
    split <;> grind
  · rw [moved]
    have partly := cache.partly
    split <;> grind
  · intro d there distinct
    refine ⟨by simp [distinct], (ok.cache d there).unspare none ?_⟩
    intro q listed' same
    cases here q same
    exact cache.page_ne (ok.cache d there) distinct inPages (by simp [Cache.slabPages, listed']) rfl
  · have raised : usedObjs (s.caches c).layout p ((s.takeSlot c p slot).slabs p).used =
        slabObj (s.caches c).layout p slot ::ₘ usedObjs (s.caches c).layout p (s.slabs p).used := by
      rw [slab]
      refine usedObjs_raise inside clear ?_ fun i distinct => ?_
      · simp [bitTest_bitSet word]
      · simp [bitTest_bitSet word, distinct]
    rw [after, raised, Pi.add_apply, cache.objects, before, Pi.single_eq_same, add_comm,
      Multiset.singleton_add, Multiset.cons_add]

/-- The cache after one of its slabs has lost an object. -/
def Cache.putMove (k : Cache) (p : Nat) (inuse : Int) : Cache :=
  let k :=
    if inuse = k.layout.slotsPerSlab then
      { k.removeSlab p with partialSlabs := p :: (k.removeSlab p).partialSlabs }
    else k
  if inuse - 1 = 0 then
    { k.removeSlab p with emptySlabs := p :: (k.removeSlab p).emptySlabs }
  else k

theorem layout_putMove (k : Cache) (p : Nat) (inuse : Int) :
    (k.putMove p inuse).layout = k.layout := by
  unfold Cache.putMove
  by_cases full : inuse = k.layout.slotsPerSlab <;> by_cases last : inuse - 1 = 0 <;>
    simp [full, last, Cache.removeSlab] <;> split <;> rfl

theorem slabPages_putMove (nodup : k.slabPages.Nodup) (member : p ∈ k.slabPages) (inuse : Int) :
    ((k.putMove p inuse).slabPages : Multiset Nat) = k.slabPages := by
  unfold Cache.putMove
  by_cases full : inuse = k.layout.slotsPerSlab
  · have first := slabPages_toPartial nodup member
    have perm := Multiset.coe_eq_coe.mp first
    simp only [full, if_true]
    split
    · exact (slabPages_toEmpty (perm.nodup_iff.mpr nodup) (perm.mem_iff.mpr member)).trans first
    · exact first
  · simp only [full, if_false]
    split
    · exact slabPages_toEmpty nodup member
    · rfl

/-- Where the slabs are afterwards. -/
theorem mem_putMove (nodup : k.slabPages.Nodup) (member : p ∈ k.slabPages) (inuse : Int)
    (q : Nat) :
    (q ∈ (k.putMove p inuse).partialSlabs ↔ (q ≠ p ∧ q ∈ k.partialSlabs) ∨
      (q = p ∧ inuse ≠ 1 ∧ (inuse = k.layout.slotsPerSlab ∨ p ∈ k.partialSlabs))) ∧
    (q ∈ (k.putMove p inuse).fullSlabs ↔ (q ≠ p ∧ q ∈ k.fullSlabs) ∨
      (q = p ∧ inuse ≠ 1 ∧ inuse ≠ k.layout.slotsPerSlab ∧ p ∈ k.fullSlabs)) ∧
    (q ∈ (k.putMove p inuse).emptySlabs ↔ (q ≠ p ∧ q ∈ k.emptySlabs) ∨
      (q = p ∧ (inuse = 1 ∨ (inuse ≠ k.layout.slotsPerSlab ∧ p ∈ k.emptySlabs)))) := by
  have lists := mem_removeSlab nodup p
  have last : inuse - 1 = 0 ↔ inuse = 1 := by omega
  unfold Cache.putMove
  by_cases full : inuse = k.layout.slotsPerSlab
  · have perm := Multiset.coe_eq_coe.mp (slabPages_toPartial nodup member)
    have lists' := mem_removeSlab (perm.nodup_iff.mpr nodup) p
    simp only [full, if_true]
    split <;> grind
  · simp only [full, if_false]
    split <;> grind

theorem SlabLayer.putSlot {out : CacheRef → Multiset Nat} (member : c ∈ caches)
    (ok : SlabLayer s caches (out + Pi.single c {slabObj (s.caches c).layout p slot}) whole none)
    (listed : p ∈ (s.caches c).slabPages) (inside : slot < (s.caches c).layout.slotsPerSlab)
    (set : bitTest (s.slabs p).used slot = true) :
    SlabLayer (s.putSlot c p slot) caches out whole none := by
  have cache := ok.cache c member
  have page := cache.page p listed
  have bits := cache.fits.bits
  have word : slot / 64 < (s.slabs p).used.length := by
    rw [page.words]
    unfold SLAB_MAX_OBJS at *
    omega
  have count := page.inuse
  have shrunk := popcount_bitClear word inside set
  have slab : (s.putSlot c p slot).slabs p =
      { s.slabs p with
        inuse := (s.slabs p).inuse - 1, used := bitClear (s.slabs p).used slot } := by
    simp [AllocState.putSlot]
  have other : ∀ q, q ≠ p → (s.putSlot c p slot).slabs q = s.slabs q := by
    intro q distinct
    simp [AllocState.putSlot, distinct]
  have moved : (s.putSlot c p slot).caches c = (s.caches c).putMove p (s.slabs p).inuse := by
    simp [AllocState.putSlot, Cache.putMove]
  have change : SlabChange s (s.putSlot c p slot) c p := by
    refine ⟨listed, ?_, ?_, ?_, other, ?_, ?_, ?_, rfl, rfl, rfl, rfl⟩
    · rw [slab]
      exact page.cache
    · rw [slab, length_bitClear]
      exact page.words
    · rw [slab]
      simp only
      omega
    · intro d distinct
      simp [AllocState.putSlot, distinct]
    · rw [moved, layout_putMove]
    · rw [moved]
      exact slabPages_putMove cache.nodup listed _
  have lists := mem_putMove cache.nodup listed (s.slabs p).inuse
  have inuse : ((s.putSlot c p slot).slabs p).inuse = (s.slabs p).inuse - 1 := by rw [slab]
  obtain ⟨rest, before, after⟩ := change.handed cache.nodup
  refine ok.change change member ?_ ?_ ?_ ?_ ?_
  · rw [moved]
    have empty := cache.empty
    grind
  · rw [moved]
    have full := cache.full
    grind
  · rw [moved]
    have partly := cache.partly
    have bound : (s.slabs p).inuse ≤ (s.caches c).layout.slotsPerSlab := by
      rw [count]
      exact_mod_cast popcount_le
    grind
  · intro d there distinct
    have rest := ok.cache d there
    rw [Pi.add_apply, Pi.single_eq_of_ne distinct, add_zero] at rest ⊢
    exact ⟨rfl, rest⟩
  · have raised : usedObjs (s.caches c).layout p (s.slabs p).used =
        slabObj (s.caches c).layout p slot ::ₘ
          usedObjs (s.caches c).layout p ((s.putSlot c p slot).slabs p).used := by
      rw [slab]
      refine usedObjs_raise inside ?_ set fun i distinct => ?_
      · simp [bitTest_bitClear word]
      · simp [bitTest_bitClear word, distinct]
    have total := cache.objects
    rw [before, raised, Pi.add_apply, Pi.single_eq_same, add_comm, Multiset.singleton_add,
      Multiset.cons_add, Multiset.cons_inj_right] at total
    rw [total, after]

end Kmem

end Av6
