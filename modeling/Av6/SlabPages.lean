import Av6.SlabSlots

/-!
# Pages that come and go

The page allocator under the slab layer: a page is taken off the freelist or put back,
becomes a slab of a cache, or is an empty slab that is given back.
-/

namespace Av6

namespace Kmem

open Bitstring

variable {s t : AllocState} {c : CacheRef} {p : Nat} {rest : List Nat} {spare : Option Nat}
  {whole : Multiset Nat} {caches : List CacheRef} {out : CacheRef → Multiset Nat}

/-- A page that is no slab is in no cache. -/
theorem SlabLayer.not_slab (ok : SlabLayer s caches out whole spare) (flag : s.flags p ≠ .slab) :
    ∀ c ∈ caches, p ∉ (s.caches c).slabPages := fun c member listed =>
  flag ((ok.cache c member).page p listed).flag

/-- The caches do not see a page that is in none of them. -/
theorem SlabLayer.cache_frame (ok : SlabLayer s caches out whole spare)
    (cache : t.caches = s.caches) (managed : t.managed = s.managed)
    (outside : ∀ c ∈ caches, p ∉ (s.caches c).slabPages)
    (slabs : ∀ q, q ≠ p → t.slabs q = s.slabs q) (flags : ∀ q, q ≠ p → t.flags q = s.flags q)
    (refcnt : ∀ q, q ≠ p → t.refcnt q = s.refcnt q) :
    ∀ c ∈ caches, CacheSlabsOk t c (out c) spare := by
  intro c member
  have apart : ∀ q ∈ (s.caches c).slabPages, q ≠ p := by
    rintro q listed rfl
    exact outside c member listed
  refine (ok.cache c member).frame ?_ managed ⟨?_, ?_, ?_⟩
  · rw [cache]
    exact .refl _
  · exact fun q listed => slabs q (apart q listed)
  · exact fun q listed => flags q (apart q listed)
  · exact fun q listed => refcnt q (apart q listed)

theorem SlabLayer.popFree (ok : SlabLayer s caches out whole spare)
    (first : s.freelist = p :: rest) :
    SlabLayer (s.popFree p rest) caches out (p ::ₘ whole) spare := by
  obtain ⟨low, freeNodup, free, wholeNodup, client, complete⟩ := ok.pages
  rw [first] at freeNodup free complete
  obtain ⟨managed, flag, -⟩ := free p (by simp)
  rw [List.nodup_cons] at freeNodup
  refine ⟨ok.cache_frame (p := p) rfl rfl (ok.not_slab (by simp [flag])) (fun _ _ => rfl)
    (fun q distinct => Function.update_of_ne distinct ..)
    (fun q distinct => Function.update_of_ne distinct ..), ?_⟩
  refine ⟨low, freeNodup.2, ?_, ?_, ?_, ?_⟩
  · intro q there
    have distinct : q ≠ p := by
      rintro rfl
      exact freeNodup.1 there
    simpa [AllocState.popFree, distinct] using free q (List.mem_cons_of_mem _ there)
  · rw [Multiset.nodup_cons]
    refine ⟨fun there => ?_, wholeNodup⟩
    rw [(client p there).2.1] at flag
    cases flag
  · intro q there
    by_cases same : q = p
    · subst same
      simpa [AllocState.popFree] using managed
    · simpa [AllocState.popFree, same] using client q (by simpa [same] using there)
  · intro q there
    rcases complete q there with listed | held | slab
    · rcases List.mem_cons.mp listed with rfl | listed
      · exact Or.inr (Or.inl (by simp))
      · exact Or.inl listed
    · exact Or.inr (Or.inl (by simp [held]))
    · exact Or.inr (Or.inr slab)

theorem SlabLayer.pushFree (ok : SlabLayer s caches out (p ::ₘ whole) spare) :
    SlabLayer (s.pushFree p) caches out whole spare := by
  obtain ⟨low, freeNodup, free, wholeNodup, client, complete⟩ := ok.pages
  obtain ⟨managed, flag, -⟩ := client p (by simp)
  rw [Multiset.nodup_cons] at wholeNodup
  have unlisted : p ∉ s.freelist := fun there => by
    rw [(free p there).2.1] at flag
    cases flag
  refine ⟨ok.cache_frame (p := p) rfl rfl (ok.not_slab (by simp [flag])) (fun _ _ => rfl)
    (fun q distinct => Function.update_of_ne distinct ..)
    (fun q distinct => Function.update_of_ne distinct ..), ?_⟩
  refine ⟨low, ?_, ?_, wholeNodup.2, ?_, ?_⟩
  · exact List.nodup_cons.mpr ⟨unlisted, freeNodup⟩
  · intro q there
    by_cases same : q = p
    · subst same
      simpa [AllocState.pushFree] using managed
    · have listed : q ∈ s.freelist := by simpa [AllocState.pushFree, same] using there
      simpa [AllocState.pushFree, same] using free q listed
  · intro q there
    have distinct : q ≠ p := by
      rintro rfl
      exact wholeNodup.1 there
    simpa [AllocState.pushFree, distinct] using client q (by simp [there])
  · intro q there
    rcases complete q there with listed | held | slab
    · exact Or.inl (List.mem_cons_of_mem _ listed)
    · rcases Multiset.mem_cons.mp held with rfl | held
      · exact Or.inl List.mem_cons_self
      · exact Or.inr (Or.inl held)
    · exact Or.inr (Or.inr slab)

/-- The state after `slab_grow`, with the slab on the partial list. -/
def AllocState.grow (s : AllocState) (c : CacheRef) (p : Nat) : AllocState :=
  ({ s with flags := Function.update s.flags p .slab }.carve c p).updateCache c fun k =>
    { k with partialSlabs := p :: k.partialSlabs }

@[simp]
theorem bitTest_replicate (n b : Nat) : bitTest (List.replicate n 0#64) b = false := by
  rw [bitTest_eq, List.getD_eq_getElem?_getD, List.getElem?_replicate]
  split <;> simp

theorem SlabLayer.grow (ok : SlabLayer s caches out (p ::ₘ whole) none) (member : c ∈ caches) :
    SlabLayer (s.grow c p) caches out whole (some p) := by
  obtain ⟨low, freeNodup, free, wholeNodup, client, complete⟩ := ok.pages
  obtain ⟨managed, flag, refcnt⟩ := client p (by simp)
  have outside := ok.not_slab (p := p) (by simp [flag])
  have flags : ∀ q, q ≠ p → (s.grow c p).flags q = s.flags q := fun q distinct =>
    Function.update_of_ne distinct ..
  have slabs : ∀ q, q ≠ p → (s.grow c p).slabs q = s.slabs q := fun q distinct =>
    Function.update_of_ne distinct ..
  have fresh : (s.grow c p).slabs p =
      { cache := c, inuse := 0, used := List.replicate (SLAB_MAX_OBJS / 64) 0 } :=
    Function.update_self ..
  have here : (s.grow c p).caches c =
      { s.caches c with partialSlabs := p :: (s.caches c).partialSlabs } :=
    Function.update_self ..
  have others : ∀ d, d ≠ c → (s.grow c p).caches d = s.caches d := fun d distinct =>
    Function.update_of_ne distinct ..
  have pages : ((s.grow c p).caches c).slabPages = p :: (s.caches c).slabPages := by
    rw [here]
    rfl
  have unused : ∀ n, popcount (List.replicate (SLAB_MAX_OBJS / 64) 0) n = 0 := fun n =>
    popcount_eq_zero.mpr fun b _ => bitTest_replicate _ b
  have apart : ∀ d ∈ caches, ∀ q ∈ (s.caches d).slabPages, q ≠ p := by
    rintro d there q listed rfl
    exact outside d there listed
  have cache := ok.cache c member
  rw [Multiset.nodup_cons] at wholeNodup
  refine ⟨fun d there => ?_, ⟨low, freeNodup, ?_, wholeNodup.2, ?_, ?_⟩⟩
  · by_cases same : d = c
    · subst same
      refine ⟨?_, ?_, ?_, ?_, ?_, ?_, ?_⟩
      · rw [here]
        exact cache.fits
      · rw [pages, List.nodup_cons]
        exact ⟨outside d there, cache.nodup⟩
      · intro q listed
        rw [pages] at listed
        rcases List.mem_cons.mp listed with rfl | listed
        · exact ⟨by rw [fresh], by rw [fresh, List.length_replicate], by rw [fresh, unused]; rfl,
            managed, Function.update_self .., refcnt⟩
        · obtain ⟨owner, words, inuse, there, flag, refcnt⟩ := cache.page q listed
          have distinct := apart d member q listed
          exact ⟨by rwa [slabs q distinct], by rwa [slabs q distinct],
            by rwa [slabs q distinct, here], there, by rwa [flags q distinct], refcnt⟩
      · intro q listed
        rw [here] at listed
        rw [slabs q (apart d member q (by simp [Cache.slabPages, listed]))]
        exact cache.empty q listed
      · intro q listed
        rw [here] at listed ⊢
        rw [slabs q (apart d member q (by simp [Cache.slabPages, listed]))]
        exact cache.full q listed
      · intro q listed
        rw [here] at listed ⊢
        rcases List.mem_cons.mp listed with rfl | listed
        · rw [fresh]
          exact ⟨Int.natCast_pos.mpr cache.fits.slots, fun _ => rfl⟩
        · rw [slabs q (apart d member q (by simp [Cache.slabPages, listed]))]
          refine ⟨(cache.partly q listed).1, fun zero => ?_⟩
          cases (cache.partly q listed).2 zero
      · rw [cache.objects, handed, handed, pages, ← Multiset.cons_coe, Multiset.cons_bind, fresh,
          here]
        have none_ : usedObjs (s.caches d).layout p (List.replicate (SLAB_MAX_OBJS / 64) 0) = 0 := by
          simp [usedObjs]
        rw [none_, zero_add]
        refine Multiset.bind_congr fun q listed => ?_
        rw [slabs q (apart d member q (by simpa using listed))]
    · refine CacheSlabsOk.frame ((ok.cache d there).unspare (some p) (by simp)) ?_ rfl
        ⟨?_, ?_, ?_⟩
      · rw [others d same]
        exact .refl _
      · exact fun q listed => slabs q (apart d there q listed)
      · exact fun q listed => flags q (apart d there q listed)
      · exact fun q listed => rfl
  · intro q listed
    obtain ⟨there, state, count⟩ := free q listed
    have distinct : q ≠ p := by
      rintro rfl
      rw [state] at flag
      cases flag
    exact ⟨there, by rwa [flags q distinct], count⟩
  · intro q held
    have distinct : q ≠ p := by
      rintro rfl
      exact wholeNodup.1 held
    obtain ⟨there, state, count⟩ := client q (by simp [held])
    exact ⟨there, by rwa [flags q distinct], count⟩
  · intro q there
    rcases complete q there with listed | held | ⟨d, known, listed⟩
    · exact Or.inl listed
    · rcases Multiset.mem_cons.mp held with rfl | held
      · exact Or.inr (Or.inr ⟨c, member, by simp [pages]⟩)
      · exact Or.inr (Or.inl held)
    · refine Or.inr (Or.inr ⟨d, known, ?_⟩)
      by_cases same : d = c
      · subst same
        simp [pages, listed]
      · rwa [others d same]

/-- The state after an empty slab has been given back. -/
def AllocState.dropSlab (s : AllocState) (c : CacheRef) (p : Nat) : AllocState :=
  (s.updateCache c fun k => { k with emptySlabs := k.emptySlabs.erase p }).pushFree p

theorem usedObjs_eq_zero {l : Layout} {used : Bitstr} (unused : popcount used l.slotsPerSlab = 0) :
    usedObjs l p used = 0 := by
  rw [popcount_eq_zero] at unused
  have none_ : (List.range l.slotsPerSlab).filter (bitTest used) = [] := by
    rw [List.filter_eq_nil_iff]
    intro i inside
    simp [unused i (List.mem_range.mp inside)]
  rw [usedObjs, none_]
  rfl

theorem SlabLayer.dropSlab (ok : SlabLayer s caches out whole none) (member : c ∈ caches)
    (listed : p ∈ (s.caches c).emptySlabs) :
    SlabLayer (s.dropSlab c p) caches out whole none := by
  obtain ⟨low, freeNodup, free, wholeNodup, client, complete⟩ := ok.pages
  have cache := ok.cache c member
  have inPages : p ∈ (s.caches c).slabPages := by simp [Cache.slabPages, listed]
  have page := cache.page p inPages
  have flags : ∀ q, q ≠ p → (s.dropSlab c p).flags q = s.flags q := fun q distinct =>
    Function.update_of_ne distinct ..
  have refcnt : ∀ q, q ≠ p → (s.dropSlab c p).refcnt q = s.refcnt q := fun q distinct =>
    Function.update_of_ne distinct ..
  have here : (s.dropSlab c p).caches c =
      { s.caches c with emptySlabs := (s.caches c).emptySlabs.erase p } :=
    Function.update_self ..
  have others : ∀ d, d ≠ c → (s.dropSlab c p).caches d = s.caches d := fun d distinct =>
    Function.update_of_ne distinct ..
  have nodup := cache.nodup
  simp only [Cache.slabPages, List.nodup_append'] at nodup
  obtain ⟨before, emptyNodup, apart⟩ := nodup
  have outside : p ∉ (s.caches c).partialSlabs ++ (s.caches c).fullSlabs := fun there =>
    apart there listed
  have pages : ((s.dropSlab c p).caches c).slabPages = (s.caches c).slabPages.erase p := by
    rw [here, Cache.slabPages, Cache.slabPages, List.erase_append_right _ outside]
  have kept : ∀ d ∈ caches, ∀ q, q ∈ ((s.dropSlab c p).caches d).slabPages →
      q ∈ (s.caches d).slabPages ∧ q ≠ p := by
    intro d there q inside
    by_cases same : d = c
    · subst same
      rw [pages] at inside
      exact (cache.nodup.mem_erase_iff.mp inside).symm
    · rw [others d same] at inside
      exact ⟨inside, cache.page_ne (ok.cache d there) same inPages inside⟩
  have emptied : usedObjs (s.caches c).layout p (s.slabs p).used = 0 := by
    refine usedObjs_eq_zero ?_
    have count := page.inuse
    rw [cache.empty p listed] at count
    exact_mod_cast count.symm
  refine ⟨fun d there => ?_, ⟨low, ?_, ?_, wholeNodup, ?_, ?_⟩⟩
  · by_cases same : d = c
    · subst same
      refine ⟨?_, ?_, ?_, ?_, ?_, ?_, ?_⟩
      · rw [here]
        exact cache.fits
      · rw [pages]
        exact cache.nodup.erase p
      · intro q inside
        obtain ⟨inside, distinct⟩ := kept d there q inside
        obtain ⟨owner, words, inuse, managed, flag, count⟩ := cache.page q inside
        exact ⟨owner, words, by rw [here]; exact inuse, managed, by rwa [flags q distinct],
          by rwa [refcnt q distinct]⟩
      · intro q inside
        rw [here] at inside
        exact cache.empty q (List.mem_of_mem_erase inside)
      · rw [here]
        exact cache.full
      · rw [here]
        exact cache.partly
      · have split : ((s.caches d).slabPages : Multiset Nat) =
            p ::ₘ ((s.caches d).slabPages.erase p : List Nat) :=
          Multiset.coe_eq_coe.mpr (List.perm_cons_erase inPages)
        rw [cache.objects, handed, handed, pages, split, Multiset.cons_bind, emptied, zero_add, here]
        rfl
    · refine (ok.cache d there).frame ?_ rfl ⟨fun _ _ => rfl, ?_, ?_⟩
      · rw [others d same]
        exact .refl _
      · intro q inside
        exact flags q (cache.page_ne (ok.cache d there) same inPages inside)
      · intro q inside
        exact refcnt q (cache.page_ne (ok.cache d there) same inPages inside)
  · refine List.nodup_cons.mpr ⟨fun there => ?_, freeNodup⟩
    have flag := (free p there).2.1
    rw [page.flag] at flag
    cases flag
  · intro q there
    by_cases same : q = p
    · subst same
      exact ⟨page.managed, Function.update_self .., Function.update_self ..⟩
    · obtain ⟨managed, flag, count⟩ := free q (by simpa [AllocState.dropSlab,
        AllocState.pushFree, AllocState.updateCache, same] using there)
      exact ⟨managed, by rwa [flags q same], by rwa [refcnt q same]⟩
  · intro q held
    obtain ⟨managed, flag, count⟩ := client q held
    have distinct : q ≠ p := by
      rintro rfl
      rw [page.flag] at flag
      cases flag
    exact ⟨managed, by rwa [flags q distinct], by rwa [refcnt q distinct]⟩
  · intro q managed
    by_cases gone : q = p
    · exact Or.inl (by simp [gone, AllocState.dropSlab, AllocState.pushFree])
    rcases complete q managed with free | held | ⟨d, known, inside⟩
    · exact Or.inl (List.mem_cons_of_mem _ free)
    · exact Or.inr (Or.inl held)
    · refine Or.inr (Or.inr ⟨d, known, ?_⟩)
      by_cases same : d = c
      · subst same
        rw [pages]
        exact cache.nodup.mem_erase_iff.mpr ⟨gone, inside⟩
      · rwa [others d same]

end Kmem

end Av6
