import Av6.SlabLayout
import Mathlib.Data.Multiset.Bind
import Mathlib.Data.Multiset.Fintype
import Mathlib.Algebra.Group.Pi.Basic
import Mathlib.Algebra.BigOperators.Pi

/-!
# The slab layer

What the slabs of a set of caches account for: every page is free, in the hands of a
client, or a slab of one cache, and the objects whose bits are set are exactly those that
have been handed out.  Magazines are clients here: the objects in them are handed out.
-/

namespace Av6

namespace Kmem

open Bitstring

/-- The pages of a cache. -/
def Cache.slabPages (k : Cache) : List Nat :=
  k.partialSlabs ++ k.fullSlabs ++ k.emptySlabs

/-- The objects of a slab whose bits are set. -/
def usedObjs (l : Layout) (p : Nat) (used : Bitstr) : Multiset Nat :=
  (((List.range l.slotsPerSlab).filter (bitTest used)).map (slabObj l p) : List Nat)

/-- The objects of a cache that have been handed out. -/
def handed (s : AllocState) (c : CacheRef) : Multiset Nat :=
  ((s.caches c).slabPages : Multiset Nat).bind fun p =>
    usedObjs (s.caches c).layout p (s.slabs p).used

/-- The header of a slab page, and its descriptor. -/
structure SlabPageOk (s : AllocState) (c : CacheRef) (p : Nat) : Prop where
  cache : (s.slabs p).cache = c
  words : (s.slabs p).used.length = SLAB_MAX_OBJS / 64
  inuse : (s.slabs p).inuse = popcount (s.slabs p).used (s.caches c).layout.slotsPerSlab
  managed : p ∈ s.managed
  flag : s.flags p = .slab
  refcnt : s.refcnt p = 1

/-- The slabs of one cache; `out` are the objects handed out.  A slab that is about to
be used may be on the partial list though it is empty: that is the one in `spare`. -/
structure CacheSlabsOk (s : AllocState) (c : CacheRef) (out : Multiset Nat)
    (spare : Option Nat) : Prop where
  fits : (s.caches c).layout.Fits
  nodup : (s.caches c).slabPages.Nodup
  page : ∀ p ∈ (s.caches c).slabPages, SlabPageOk s c p
  empty : ∀ p ∈ (s.caches c).emptySlabs, (s.slabs p).inuse = 0
  full : ∀ p ∈ (s.caches c).fullSlabs, (s.slabs p).inuse = (s.caches c).layout.slotsPerSlab
  partly : ∀ p ∈ (s.caches c).partialSlabs,
    (s.slabs p).inuse < (s.caches c).layout.slotsPerSlab ∧
      ((s.slabs p).inuse = 0 → spare = some p)
  objects : out = handed s c

/-- Every page is in one place: free, whole in the hands of a client, or a slab. -/
structure PagesOk (s : AllocState) (caches : List CacheRef) (whole : Multiset Nat) : Prop where
  low : ∀ p ∈ s.managed, 0 < p ∧ p < pageLimit
  free_nodup : s.freelist.Nodup
  free : ∀ p ∈ s.freelist, p ∈ s.managed ∧ s.flags p = .free ∧ s.refcnt p = 0
  whole_nodup : whole.Nodup
  client : ∀ p ∈ whole, p ∈ s.managed ∧ s.flags p = .used ∧ s.refcnt p = 1
  complete : ∀ p ∈ s.managed, p ∈ s.freelist ∨ p ∈ whole ∨
    ∃ c ∈ caches, p ∈ (s.caches c).slabPages

structure SlabLayer (s : AllocState) (caches : List CacheRef) (out : CacheRef → Multiset Nat)
    (whole : Multiset Nat) (spare : Option Nat) : Prop where
  cache : ∀ c ∈ caches, CacheSlabsOk s c (out c) spare
  pages : PagesOk s caches whole

variable {s t : AllocState} {c d : CacheRef} {p q slot : Nat} {out : Multiset Nat}
  {spare : Option Nat} {k : Cache} {l : Layout} {used : Bitstr} {whole : Multiset Nat}
  {caches : List CacheRef}

/-- The slab layer sees only these fields of a cache. -/
structure SameSlabs (k k' : Cache) : Prop where
  layout : k'.layout = k.layout
  partialSlabs : k'.partialSlabs = k.partialSlabs
  fullSlabs : k'.fullSlabs = k.fullSlabs
  emptySlabs : k'.emptySlabs = k.emptySlabs

theorem SameSlabs.refl (k : Cache) : SameSlabs k k :=
  ⟨rfl, rfl, rfl, rfl⟩

theorem SameSlabs.slabPages {k' : Cache} (same : SameSlabs k k') :
    k'.slabPages = k.slabPages := by
  rw [Cache.slabPages, same.partialSlabs, same.fullSlabs, same.emptySlabs, Cache.slabPages]

/-- The pages of the cache have kept their headers and descriptors. -/
structure SamePages (s t : AllocState) (pages : List Nat) : Prop where
  slabs : ∀ p ∈ pages, t.slabs p = s.slabs p
  flags : ∀ p ∈ pages, t.flags p = s.flags p
  refcnt : ∀ p ∈ pages, t.refcnt p = s.refcnt p

theorem SameSlabs.handed (same : SameSlabs (s.caches c) (t.caches c))
    (pages : ∀ p ∈ (s.caches c).slabPages, t.slabs p = s.slabs p) :
    handed t c = Kmem.handed s c := by
  unfold Kmem.handed
  rw [same.slabPages, same.layout]
  refine Multiset.bind_congr fun p member => ?_
  rw [pages p (by simpa using member)]

theorem CacheSlabsOk.frame (ok : CacheSlabsOk s c out spare)
    (same : SameSlabs (s.caches c) (t.caches c)) (managed : t.managed = s.managed)
    (pages : SamePages s t (s.caches c).slabPages) : CacheSlabsOk t c out spare := by
  have inuse : ∀ p ∈ (s.caches c).slabPages, t.slabs p = s.slabs p := pages.slabs
  obtain ⟨fits, nodup, page, empty, full, partly, objects⟩ := ok
  refine ⟨by rwa [same.layout], by rwa [same.slabPages], ?_, ?_, ?_, ?_, ?_⟩
  · intro p member
    rw [same.slabPages] at member
    obtain ⟨cache, words, count, there, flag, refcnt⟩ := page p member
    refine ⟨?_, ?_, ?_, ?_, ?_, ?_⟩
    · rwa [pages.slabs p member]
    · rwa [pages.slabs p member]
    · rwa [pages.slabs p member, same.layout]
    · rwa [managed]
    · rwa [pages.flags p member]
    · rwa [pages.refcnt p member]
  · intro p member
    rw [same.emptySlabs] at member
    rw [pages.slabs p (by simp [Cache.slabPages, member])]
    exact empty p member
  · intro p member
    rw [same.fullSlabs] at member
    rw [pages.slabs p (by simp [Cache.slabPages, member]), same.layout]
    exact full p member
  · intro p member
    rw [same.partialSlabs] at member
    rw [pages.slabs p (by simp [Cache.slabPages, member]), same.layout]
    exact partly p member
  · rw [objects, same.handed pages.slabs]

/-- Slabs of different caches are on different pages. -/
theorem CacheSlabsOk.page_ne {out' : Multiset Nat} (ok : CacheSlabsOk s c out spare)
    (ok' : CacheSlabsOk s d out' spare) (other : d ≠ c) (member : p ∈ (s.caches c).slabPages)
    (member' : q ∈ (s.caches d).slabPages) : q ≠ p := by
  rintro rfl
  exact other ((ok'.page q member').cache.symm.trans (ok.page q member).cache)

theorem mem_usedObjs {a : Nat} :
    a ∈ usedObjs l p used ↔
      ∃ slot < l.slotsPerSlab, bitTest used slot = true ∧ slabObj l p slot = a := by
  simp [usedObjs, and_assoc]

theorem mem_handed {a : Nat} : a ∈ handed s c ↔ ∃ p ∈ (s.caches c).slabPages,
    ∃ slot < (s.caches c).layout.slotsPerSlab,
      bitTest (s.slabs p).used slot = true ∧ slabObj (s.caches c).layout p slot = a := by
  simp [handed, mem_usedObjs]

theorem usedObjs_nodup (fits : l.Fits) (low : p < pageLimit) : (usedObjs l p used).Nodup := by
  rw [usedObjs, Multiset.coe_nodup]
  refine List.Nodup.map_on ?_ (List.nodup_range.filter _)
  intro i first j second same
  simp only [List.mem_filter, List.mem_range] at first second
  exact (slabObj_inj fits low low first.1 second.1 same).2

/-- No object has been handed out twice. -/
theorem CacheSlabsOk.out_nodup (ok : CacheSlabsOk s c out spare)
    (low : ∀ p ∈ s.managed, p < pageLimit) : out.Nodup := by
  rw [ok.objects, handed, Multiset.nodup_bind]
  refine ⟨fun p member => ?_, ?_⟩
  · exact usedObjs_nodup ok.fits (low p (ok.page p (by simpa using member)).managed)
  · rw [Multiset.pairwise_coe_iff_pairwise]
    refine ok.nodup.imp_of_mem ?_
    intro p q here there distinct
    refine Multiset.disjoint_left.mpr fun first second => ?_
    obtain ⟨i, inside, -, rfl⟩ := mem_usedObjs.mp first
    obtain ⟨j, inside', -, same⟩ := mem_usedObjs.mp second
    exact distinct (slabObj_inj ok.fits (low p (ok.page p here).managed)
      (low q (ok.page q there).managed) inside inside' same.symm).1

/-- What the slab layer needs to know about a cache after one of its slabs, on the page
`p`, has changed and has perhaps moved to another list. -/
structure SlabChange (s t : AllocState) (c : CacheRef) (p : Nat) : Prop where
  member : p ∈ (s.caches c).slabPages
  cache : (t.slabs p).cache = c
  words : (t.slabs p).used.length = SLAB_MAX_OBJS / 64
  inuse : (t.slabs p).inuse = popcount (t.slabs p).used (s.caches c).layout.slotsPerSlab
  other : ∀ q, q ≠ p → t.slabs q = s.slabs q
  caches : ∀ d, d ≠ c → t.caches d = s.caches d
  layout : (t.caches c).layout = (s.caches c).layout
  pages : ((t.caches c).slabPages : Multiset Nat) = (s.caches c).slabPages
  managed : t.managed = s.managed
  flags : t.flags = s.flags
  refcnt : t.refcnt = s.refcnt
  freelist : t.freelist = s.freelist

theorem SlabChange.mem_slabPages (change : SlabChange s t c p) (d : CacheRef) (q : Nat) :
    q ∈ (t.caches d).slabPages ↔ q ∈ (s.caches d).slabPages := by
  by_cases same : d = c
  · rw [same, ← Multiset.mem_coe, change.pages, Multiset.mem_coe]
  · rw [change.caches d same]

theorem SlabChange.handed (change : SlabChange s t c p) (nodup : (s.caches c).slabPages.Nodup) :
    ∃ rest, Kmem.handed s c = usedObjs (s.caches c).layout p (s.slabs p).used + rest ∧
      Kmem.handed t c = usedObjs (s.caches c).layout p (t.slabs p).used + rest := by
  have split : ((s.caches c).slabPages : Multiset Nat) =
      p ::ₘ ((s.caches c).slabPages.erase p : List Nat) :=
    Multiset.coe_eq_coe.mpr (List.perm_cons_erase change.member)
  refine ⟨((s.caches c).slabPages.erase p : Multiset Nat).bind fun q =>
    usedObjs (s.caches c).layout q (s.slabs q).used, ?_, ?_⟩
  · rw [Kmem.handed, split, Multiset.cons_bind]
  · rw [Kmem.handed, change.pages, split, Multiset.cons_bind, change.layout]
    congr 1
    refine Multiset.bind_congr fun q member => ?_
    rw [change.other q (nodup.mem_erase_iff.mp (Multiset.mem_coe.mp member)).1]

/-- The rest of the slab layer follows from what happens to the slab itself. -/
theorem SlabLayer.change {out out' : CacheRef → Multiset Nat} {spare' : Option Nat}
    (ok : SlabLayer s caches out whole spare) (change : SlabChange s t c p)
    (member : c ∈ caches)
    (empty : ∀ q ∈ (t.caches c).emptySlabs, (t.slabs q).inuse = 0)
    (full : ∀ q ∈ (t.caches c).fullSlabs,
      (t.slabs q).inuse = (s.caches c).layout.slotsPerSlab)
    (partly : ∀ q ∈ (t.caches c).partialSlabs,
      (t.slabs q).inuse < (s.caches c).layout.slotsPerSlab ∧
        ((t.slabs q).inuse = 0 → spare' = some q))
    (others : ∀ d ∈ caches, d ≠ c → out' d = out d ∧ CacheSlabsOk s d (out d) spare')
    (objects : out' c = Kmem.handed t c) : SlabLayer t caches out' whole spare' := by
  have here := ok.cache c member
  refine ⟨fun d there => ?_, ?_⟩
  · by_cases same : d = c
    · subst same
      refine ⟨?_, ?_, ?_, empty, ?_, ?_, objects⟩
      · rw [change.layout]
        exact here.fits
      · rw [← Multiset.coe_nodup, change.pages, Multiset.coe_nodup]
        exact here.nodup
      · intro q listed
        rw [change.mem_slabPages] at listed
        obtain ⟨cache, words, inuse, managed, flag, refcnt⟩ := here.page q listed
        by_cases moved : q = p
        · subst moved
          refine ⟨change.cache, change.words, ?_, ?_, ?_, ?_⟩
          · rw [change.layout]
            exact change.inuse
          · rwa [change.managed]
          · rwa [change.flags]
          · rwa [change.refcnt]
        · refine ⟨?_, ?_, ?_, ?_, ?_, ?_⟩
          · rwa [change.other q moved]
          · rwa [change.other q moved]
          · rwa [change.other q moved, change.layout]
          · rwa [change.managed]
          · rwa [change.flags]
          · rwa [change.refcnt]
      · rwa [change.layout]
      · rwa [change.layout]
    · obtain ⟨value, before⟩ := others d there same
      rw [value]
      refine before.frame ?_ change.managed ⟨fun q listed => ?_, ?_, ?_⟩
      · rw [change.caches d same]
        exact .refl _
      · exact change.other q (here.page_ne (ok.cache d there) same change.member listed)
      · simp [change.flags]
      · simp [change.refcnt]
  · obtain ⟨low, freeNodup, free, wholeNodup, client, complete⟩ := ok.pages
    refine ⟨?_, ?_, ?_, wholeNodup, ?_, ?_⟩
    · rwa [change.managed]
    · rwa [change.freelist]
    · rwa [change.freelist, change.managed, change.flags, change.refcnt]
    · rwa [change.managed, change.flags, change.refcnt]
    · intro q managed
      rw [change.managed] at managed
      simp only [change.freelist, change.mem_slabPages]
      exact complete q managed

end Kmem

end Av6
