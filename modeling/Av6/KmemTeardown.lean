import Av6.KmemConservation
import Av6.KmemOrder

/-!
# Destroying and reclaiming give everything back

A cache whose objects have all been freed is destroyed without fail: its slab pages are free
then, and its magazines are back in `magazine_cache`.  Reclaiming empties the depots and the
lists of empty slabs, and what the clients and the CPUs have stays as it is.
-/

namespace Av6

namespace Kmem

open Bitstring FallibleState TransitionSystem

variable {s t : AllocState} {c d : CacheRef} {p n addr : Nat} {cpu : Fin NCPU_MAX}
  {out : CacheRef → Multiset Nat} {live : CacheRef → Multiset Nat} {whole : Multiset Nat}
  {spare : Option Nat} {caches : List CacheRef}

/-- The cache has grown by the page, and not given it back. -/
structure Grown (s : AllocState) (c : CacheRef) (p : Nat) : Prop where
  managed : p ∈ s.managed
  flag : s.flags p = .slab
  header : (s.slabs p).cache = c

theorem PagesKept.grown_iff (kept : PagesKept s t) : Grown t c p ↔ Grown s c p := by
  constructor
  · rintro ⟨managed, flag, header⟩
    rw [kept.managed] at managed
    rw [kept.flags] at flag
    rw [kept.header] at header
    exact ⟨managed, flag, header⟩
  · rintro ⟨managed, flag, header⟩
    rw [← kept.managed] at managed
    rw [← kept.flags] at flag
    rw [← kept.header] at header
    exact ⟨managed, flag, header⟩

/-- The lists of a cache have all the pages that it has grown by. -/
theorem SlabLayer.mem_slabPages (ok : SlabLayer s caches out whole spare) (member : c ∈ caches) :
    p ∈ (s.caches c).slabPages ↔ Grown s c p := by
  constructor
  · intro listed
    have page := (ok.cache c member).page p listed
    exact ⟨page.managed, page.flag, page.cache⟩
  · rintro ⟨managed, flag, header⟩
    rcases ok.pages.complete p managed with free | client | ⟨d, there, listed⟩
    · rw [(ok.pages.free p free).2.1] at flag
      cases flag
    · rw [(ok.pages.client p client).2.1] at flag
      cases flag
    · have owner := ((ok.cache d there).page p listed).cache
      rw [header] at owner
      rwa [owner]

/-- If no object has been handed out, all slabs are empty. -/
theorem CacheSlabsOk.unused (ok : CacheSlabsOk s c 0 none) :
    (s.caches c).partialSlabs = [] ∧ (s.caches c).fullSlabs = [] := by
  have inuse : ∀ p ∈ (s.caches c).slabPages, (s.slabs p).inuse = 0 := by
    intro p listed
    rw [(ok.page p listed).inuse, Nat.cast_eq_zero, popcount_eq_zero]
    intro slot inside
    by_contra set
    have object : slabObj (s.caches c).layout p slot ∈ handed s c :=
      mem_handed.mpr ⟨p, listed, slot, inside, by simpa using set, rfl⟩
    rw [← ok.objects] at object
    exact Multiset.notMem_zero _ object
  have slots := ok.fits.slots
  constructor
  · apply List.eq_nil_iff_forall_not_mem.mpr
    intro p listed
    have zero := inuse p (by simp [Cache.slabPages, listed])
    cases (ok.partly p listed).2 zero
  · apply List.eq_nil_iff_forall_not_mem.mpr
    intro p listed
    have zero := inuse p (by simp [Cache.slabPages, listed])
    have all := ok.full p listed
    omega

section Magazines

/-- Objects of `magazine_cache` are the magazines of the caches, if no client has one. -/
theorem KmemOk.handed_magazineCache (ok : KmemOk s live whole) :
    handed s .magazineCache = live .magazineCache + allMags s := by
  have none_ : contents s .magazineCache = 0 := by
    rw [contents, (ok.mags _ ok.magazineCache).internal rfl, Multiset.zero_bind]
  rw [← (ok.slabs.cache _ ok.magazineCache).objects]
  simp [custody, none_]

theorem allMags_erase (list : t.kmemCaches = s.kmemCaches.erase c) (member : c ∈ s.kmemCaches)
    (nodup : s.kmemCaches.Nodup) (others : ∀ d, d ≠ c → DepotKept d s t) :
    allMags s = (s.caches c).mags + allMags t := by
  rw [allMags, allMags, list, ← List.sum_map_erase _ member]
  congr 2
  apply List.map_congr_left
  intro d there
  exact (mags_of_sameDepot (others d (nodup.mem_erase_iff.mp there).1)).symm

end Magazines

/-- What destroying a cache has given back: its pages and its magazines, each of them once. -/
structure TornDown (s : AllocState) (c : CacheRef) (t : AllocState) : Prop where
  pages : ∃ grown : List Nat, (∀ p, p ∈ grown ↔ Grown s c p) ∧
    t.freelist.Perm (grown ++ s.freelist)
  once : t.freelist.Nodup
  mags : handed s .magazineCache = (s.caches c).mags + handed t .magazineCache
  magsOnce : (s.caches c).mags.Nodup
  gone : c ∉ t.kmemCaches

/-- The pages that go to the freelist are those on the list of empty slabs after the drain. -/
theorem kmemCacheDestroy_freelist {u : AllocState}
    (detached : detachCache (.object addr) s = .ok ((), u))
    (runs : kmemCacheDestroy cpu addr s = .ok ((), t)) :
    t.freelist = (u.caches (.object addr)).emptySlabs.reverse ++ u.freelist := by
  unfold kmemCacheDestroy at runs
  obtain ⟨_, _, first, runs⟩ := exists_of_bind runs
  rw [detached] at first
  cases first
  obtain ⟨_, _, read, runs⟩ := exists_of_bind runs
  cases read
  obtain ⟨_, v, checked, runs⟩ := exists_of_bind runs
  have passed : v = u := by
    unfold check at checked
    split at checked
    · cases checked
      rfl
    · cases checked
  subst passed
  obtain ⟨_, w, slabs, runs⟩ := exists_of_bind runs
  obtain ⟨_, r, unlock, freed⟩ := exists_of_bind runs
  have unlocked := release_eq unlock
  subst unlocked
  have released := releaseSlabs_released _ v rfl _ w slabs
  have kept := (pagesKept_steps .cacheCache).freeDirect addr (.inl rfl) _ _ t freed
  exact kept.freelist.trans released.freelist

section Destroy

variable (ok : KmemOk s live whole) (member : .object addr ∈ s.kmemCaches) (none_ : s.held = [])
  (idle : live (.object addr) = 0)
include ok member none_ idle

/-- When the magazines of an idle cache have been drained, all its slabs are empty. -/
theorem detachCache_unused : ∃ u, detachCache (.object addr) s = .ok ((), u) ∧
    Draining (s.detached (.object addr)) (.object addr) s.kmemCaches
      (custody (s.without (.object addr)) live + Pi.single .cacheCache {addr}) whole u ∧
        (u.caches (.object addr)).mags = 0 ∧ (u.caches (.object addr)).partialSlabs = [] ∧
          (u.caches (.object addr)).fullSlabs = [] := by
  obtain ⟨_, u, runs, draining, drained⟩ := detachCache_yields ok member none_
  have cache := draining.slabs.cache _ member
  have cleared : ((s.without (.object addr)).caches (.object addr)).mags = 0 := by
    have here : (s.without (.object addr)).caches (.object addr) =
        (s.caches (.object addr)).clear := Function.update_self ..
    rw [here]
    exact mags_eq_zero (fun _ => rfl) (fun _ => rfl) rfl rfl
  simp only [custody, contents, Pi.add_apply, idle, cleared, drained, Multiset.zero_bind, ne_eq,
    reduceCtorEq, not_false_iff, Pi.single_eq_of_ne, Pi.single_zero, Pi.zero_apply,
    add_zero] at cache
  exact ⟨u, runs, draining, drained, cache.unused⟩

theorem kmemCacheDestroy_tornDown :
    Yields (kmemCacheDestroy cpu addr) s fun _ t => TornDown s (.object addr) t := by
  obtain ⟨u, detached, draining, drained, gone⟩ := detachCache_unused ok member none_ idle
  obtain ⟨_, t, runs, destroyed⟩ :=
    @kmemCacheDestroy_of_gone s u addr live whole cpu ok member none_ detached draining drained gone
  have kept : PagesKept s u :=
    (pagesKept_steps _).detachCache (fun _ => .of_slabs rfl rfl rfl rfl) s _ u detached
  have others : ∀ d, d ≠ .object addr → DepotKept d s t := fun d apart =>
    (depotKept_steps apart).kmemCacheDestroy (depotKept_free _ d) (fun _ => .refl _) s _ t runs
  have lists : (u.caches (.object addr)).slabPages = (u.caches (.object addr)).emptySlabs := by
    rw [Cache.slabPages, gone.1, gone.2]
    rfl
  refine ⟨(), t, runs, ⟨(u.caches (.object addr)).slabPages.reverse, fun p => ?_, ?_⟩,
    destroyed.ok.slabs.pages.free_nodup, ?_, (ok.mags_split member).1, ?_⟩
  · rw [List.mem_reverse, draining.slabs.mem_slabPages member]
    exact kept.grown_iff
  · rw [kmemCacheDestroy_freelist detached runs, lists, kept.freelist]
  · rw [ok.handed_magazineCache, destroyed.ok.handed_magazineCache,
      allMags_erase destroyed.kmemCaches member ok.nodup others]
    exact add_left_comm _ _ _
  · rw [destroyed.kmemCaches]
    exact ok.nodup.not_mem_erase

end Destroy

/-- What reclaiming has given back, and what it has left alone. -/
structure Reclaimed (s : System) (n : Nat) (t : AllocState) : Prop where
  grows : Grows n s.alloc t
  emptied : ∀ c ∈ t.kmemCaches, Emptied t c
  frame : Frame s.alloc t
  live : ∀ g ∈ s.grants, ∀ c, g.origin = some c → g.ptr ∈ handed t c
  books : ∀ c ∈ t.kmemCaches, Conserved { s with alloc := t } c

theorem SystemOk.reclaimed {s : System} (ok : SystemOk s)
    (last : MagazinesLast s.alloc.kmemCaches) :
    Yields kmemReclaim s.alloc fun n t => Reclaimed s n t := by
  obtain ⟨n, t, runs, kmem, frame⟩ := kmemReclaim_yields ok.kmem ok.pageLocks ok.notReclaimStuck
  have after : SystemOk { s with alloc := t } := ok.served frame.served kmem ok.grant ok.idle
  obtain ⟨grows, emptied⟩ := kmemReclaim_drained (fun c _ => by simp [ok.held]) ok.kmem.nodup last
    (fun c member => (ok.kmem.mags c member).noDepot) runs
  refine ⟨n, t, runs, grows, ?_, frame, ?_, fun c member => after.conserved member⟩
  · rw [frame.kmemCaches]
    exact emptied
  · intro g member c object
    have known : c ∈ t.kmemCaches := by
      rw [frame.kmemCaches]
      exact (ok.known member object).2
    have mine : g.ptr ∈ liveOf s.grants c := mem_liveOf.mpr ⟨g, member, object, rfl⟩
    rw [← (kmem.slabs.cache c known).objects]
    simp only [custody, Pi.add_apply, Multiset.mem_add]
    exact .inl (.inl (.inl mine))

/-- Teardown and reclaim return everything, in runs in which every cache fits one page. -/
theorem teardown_returns_all {s : System} (reached : KmemReachable Op.Fits s) :
    (∀ cpu addr, .object addr ∈ s.alloc.kmemCaches →
      (∀ g ∈ s.grants, g.origin ≠ some (.object addr)) →
        ∃ t, kmemCacheDestroy cpu addr s.alloc = .ok ((), t) ∧
          TornDown s.alloc (.object addr) t) ∧
      ∃ n t, kmemReclaim s.alloc = .ok (n, t) ∧ Reclaimed s n t := by
  have ok := systemOk_of_reachable (fun _ => id) reached
  constructor
  · intro cpu addr member none_
    have idle : liveOf s.grants (.object addr) = 0 := by
      apply Multiset.eq_zero_of_forall_notMem
      intro obj there
      obtain ⟨g, held, object, -⟩ := mem_liveOf.mp there
      exact none_ g held object
    obtain ⟨_, t, runs, down⟩ :=
      @kmemCacheDestroy_tornDown s.alloc addr cpu _ _ ok.kmem member ok.held idle
    exact ⟨t, runs, down⟩
  · exact ok.reclaimed (magazinesLast_of_reachable reached)

/-- A cache is used, and its object freed; one page is free before it is destroyed. -/
theorem teardown_returns_all_used : ∃ s : System, KmemReachable Op.Fits s ∧
    (∃ t, kmemCacheDestroy 2 10816 s.alloc = .ok ((), t) ∧
      TornDown s.alloc (.object 10816) t) ∧
      ∃ n t, kmemReclaim s.alloc = .ok (n, t) ∧ Reclaimed s n t := by
  have run : ((runFrom [1, 2, 3] [(0, .create 40 0), (1, .cacheAlloc (.object 10816)),
      (1, .cacheFree (.object 10816) 4160)]).any
      fun s => s.grants = [] ∧ .object 10816 ∈ s.alloc.kmemCaches) = true := by
    decide +kernel
  obtain ⟨s, reached, holds⟩ : ∃ s, KmemReachable Op.Fits s ∧ _ := by
    refine reachable_of_runFrom (by decide) (by simp) ?_ run
    intro step there
    simp only [List.mem_cons, List.not_mem_nil, or_false] at there
    rcases there with rfl | rfl | rfl
    · intro _
      decide
    · trivial
    · trivial
  have facts : s.grants = [] ∧ .object 10816 ∈ s.alloc.kmemCaches := by simpa using holds
  obtain ⟨destroys, reclaims⟩ := teardown_returns_all reached
  exact ⟨s, reached, destroys 2 10816 facts.2 (by simp [facts.1]), reclaims⟩

/-- With an alignment of two pages the object of a slab lies two pages behind it, on a slab of
another cache.  It is freed into a magazine, and `kmem_cache_destroy` stops at draining it. -/
theorem destroy_stops_at_wide_alignment : ∃ s : System, KmemReachable (fun _ => True) s ∧
    (Op.destroy 19008).Legal s ∧ s.grants = [] ∧
      Fails ((Op.destroy 19008).run 0 s.classes) s.alloc .wrongCache := by
  have run : ((runFrom [1, 2, 3, 4, 5] [(0, .create (BitVec.twoPow 64 63) 8192),
      (0, .cacheAlloc (.object 19008)), (0, .cacheFree (.object 19008) 20480)]).any
      fun s => decide ((Op.destroy 19008).Legal s ∧ s.grants = []) &&
        s.stopsAt 0 (.destroy 19008) .wrongCache) = true := by
    decide +kernel
  obtain ⟨s, reached, holds⟩ : ∃ s, KmemReachable (fun _ => True) s ∧ _ :=
    reachable_of_runFrom (by decide) (by simp) (fun _ _ => trivial) run
  rw [Bool.and_eq_true, decide_eq_true_eq] at holds
  exact ⟨s, reached, holds.1.1, holds.1.2, fails_of_stopsAt holds.2⟩

end Kmem

end Av6
