import Av6.SlabPages

/-!
# The programs of the slab layer

One rule for each function of `slab.c` below the magazines, and for `kpage_free` and
`freelist_pop`: no assertion fails, and the slab layer accounts for what the function
takes or returns.
-/

namespace Av6

namespace Kmem

open Bitstring FallibleState

variable {s t r : AllocState} {c : CacheRef} {p obj m : Nat} {l : Lock} {spare : Option Nat}
  {whole : Multiset Nat} {caches : List CacheRef} {out : CacheRef → Multiset Nat}

theorem acquire_yields {Q : Unit → AllocState → Prop} (free : l ∉ s.held)
    (holds : Q () { s with held := l :: s.held }) : Yields (acquire l) s Q :=
  .read_bind (.check_bind free (.write holds))

theorem acquire_fails (taken : l ∈ s.held) : Fails (acquire l) s (.alreadyHeld l) :=
  .read_bind (.check_bind (not_not.mpr taken))

theorem release_yields {Q : Unit → AllocState → Prop} (taken : l ∈ s.held)
    (holds : Q () { s with held := s.held.erase l }) : Yields (release l) s Q :=
  .read_bind (.check_bind taken (.write holds))

theorem acquire_bind {α : Type} {f : Unit → Alloc α} {Q : α → AllocState → Prop}
    (free : l ∉ s.held) (rest : Yields (f ()) { s with held := l :: s.held } Q) :
    Yields (acquire l >>= f) s Q := by
  refine Yields.bind (acquire_yields (Q := fun _ t => t = { s with held := l :: s.held })
    free rfl) ?_
  rintro - _ rfl
  exact rest

theorem release_bind {α : Type} {f : Unit → Alloc α} {Q : α → AllocState → Prop}
    (taken : l ∈ s.held) (rest : Yields (f ()) { s with held := s.held.erase l } Q) :
    Yields (release l >>= f) s Q := by
  refine Yields.bind (release_yields (Q := fun _ t => t = { s with held := s.held.erase l })
    taken rfl) ?_
  rintro - _ rfl
  exact rest

theorem unlock_bind {α : Type} {f : Unit → Alloc α} {Q : α → AllocState → Prop}
    {held : List Lock} (last : s.held = l :: held)
    (rest : Yields (f ()) { s with held := held } Q) : Yields (release l >>= f) s Q :=
  release_bind (by simp [last]) (by rw [last, List.erase_cons_head]; exact rest)

/-- The slab layer does not see locks, magazines and depots. -/
theorem SlabLayer.congr (ok : SlabLayer s caches out whole spare)
    (same : ∀ c, SameSlabs (s.caches c) (t.caches c)) (managed : t.managed = s.managed)
    (freelist : t.freelist = s.freelist) (flags : t.flags = s.flags)
    (refcnt : t.refcnt = s.refcnt) (slabs : t.slabs = s.slabs) :
    SlabLayer t caches out whole spare := by
  refine ⟨fun c member => ?_, ?_⟩
  · refine (ok.cache c member).frame (same c) managed ⟨?_, ?_, ?_⟩
    · simp [slabs]
    · simp [flags]
    · simp [refcnt]
  · obtain ⟨low, freeNodup, free, wholeNodup, client, complete⟩ := ok.pages
    refine ⟨by rwa [managed], by rwa [freelist], ?_, wholeNodup, ?_, ?_⟩
    · rwa [freelist, managed, flags, refcnt]
    · rwa [managed, flags, refcnt]
    · simpa only [managed, freelist, (same _).slabPages] using complete

/-- The magazine layer sees only these fields of a cache. -/
structure SameDepot (k k' : Cache) : Prop where
  layout : k'.layout = k.layout
  fullMags : k'.fullMags = k.fullMags
  emptyMags : k'.emptyMags = k.emptyMags
  loaded : k'.loaded = k.loaded
  previous : k'.previous = k.previous

theorem SameDepot.refl (k : Cache) : SameDepot k k :=
  ⟨rfl, rfl, rfl, rfl, rfl⟩

theorem SameDepot.trans {k k' k'' : Cache} (first : SameDepot k k') (second : SameDepot k' k'') :
    SameDepot k k'' :=
  ⟨second.layout.trans first.layout, second.fullMags.trans first.fullMags,
    second.emptyMags.trans first.emptyMags, second.loaded.trans first.loaded,
    second.previous.trans first.previous⟩

/-- A step inside the slab layer. -/
structure Quiet (s t : AllocState) : Prop where
  held : t.held = s.held
  kmemCaches : t.kmemCaches = s.kmemCaches
  managed : t.managed = s.managed
  depot : ∀ c, SameDepot (s.caches c) (t.caches c)

theorem Quiet.refl (s : AllocState) : Quiet s s :=
  ⟨rfl, rfl, rfl, fun _ => .refl _⟩

theorem Quiet.trans (first : Quiet s t) (second : Quiet t r) : Quiet s r :=
  ⟨second.held.trans first.held, second.kmemCaches.trans first.kmemCaches,
    second.managed.trans first.managed, fun c => (first.depot c).trans (second.depot c)⟩

theorem SlabLayer.exists_slot (ok : SlabLayer s caches out whole spare) (member : c ∈ caches)
    (handedOut : obj ∈ out c) : ∃ p ∈ (s.caches c).slabPages,
      ∃ slot < (s.caches c).layout.slotsPerSlab, bitTest (s.slabs p).used slot = true ∧
        obj = slabObj (s.caches c).layout p slot ∧ obj / PGSIZE = p ∧
          slotOf (s.caches c).layout p obj = slot := by
  have cache := ok.cache c member
  rw [cache.objects] at handedOut
  obtain ⟨p, listed, slot, inside, set, rfl⟩ := mem_handed.mp handedOut
  have low := (ok.pages.low p (cache.page p listed).managed).2
  exact ⟨p, listed, slot, inside, set, rfl, slabObj_div cache.fits low inside,
    slotOf_slabObj cache.fits low inside⟩

theorem quiet_putSlot (s : AllocState) (c : CacheRef) (p slot : Nat) :
    Quiet s (s.putSlot c p slot) := by
  refine ⟨rfl, rfl, rfl, fun d => ?_⟩
  by_cases same : d = c
  · subst same
    simp only [AllocState.putSlot, Function.update_self]
    split <;> split <;> exact ⟨rfl, rfl, rfl, rfl, rfl⟩
  · simp only [AllocState.putSlot, Function.update_of_ne same]
    exact .refl _

theorem quiet_takeSlot (s : AllocState) (c : CacheRef) (p slot : Nat) :
    Quiet s (s.takeSlot c p slot) := by
  refine ⟨rfl, rfl, rfl, fun d => ?_⟩
  by_cases same : d = c
  · subst same
    simp only [AllocState.takeSlot, Function.update_self]
    split <;> exact ⟨rfl, rfl, rfl, rfl, rfl⟩
  · simp only [AllocState.takeSlot, Function.update_of_ne same]
    exact .refl _

theorem slabFreeLocked_yields (member : c ∈ caches)
    (ok : SlabLayer s caches (out + Pi.single c {obj}) whole none) :
    Yields (slabFreeLocked c obj) s fun _ t =>
      SlabLayer t caches out whole none ∧ Quiet s t ∧ t.magazines = s.magazines ∧
        t.freelist = s.freelist := by
  obtain ⟨p, listed, slot, inside, set, rfl, page, number⟩ :=
    ok.exists_slot member (show obj ∈ _ by simp)
  have owner := ((ok.cache c member).page p listed).cache
  refine .read_bind (.check_bind (by rw [page, owner]) (.check_bind ?_ (.write ?_)))
  · rw [page, number]
    exact ⟨by omega, by exact_mod_cast inside, set⟩
  · rw [page, number]
    exact ⟨ok.putSlot member listed inside set, quiet_putSlot s c p slot, rfl, rfl⟩

theorem freeDirect_yields (member : c ∈ caches) (free : .cache c ∉ s.held)
    (ok : SlabLayer s caches (out + Pi.single c {obj}) whole none) :
    Yields (freeDirect c obj) s fun _ t =>
      SlabLayer t caches out whole none ∧ Quiet s t ∧ t.magazines = s.magazines ∧
        t.freelist = s.freelist := by
  have inside := ok.congr (t := { s with held := .cache c :: s.held }) (fun _ => .refl _) rfl rfl
    rfl rfl rfl
  refine acquire_bind free ((slabFreeLocked_yields member inside).bind ?_)
  rintro - t ⟨layer, quiet, magazines, freelist⟩
  have held := quiet.held
  refine release_yields (by simp [held]) ⟨?_, ⟨?_, quiet.kmemCaches, quiet.managed, quiet.depot⟩,
    magazines, freelist⟩
  · exact layer.congr (fun _ => .refl _) rfl rfl rfl rfl rfl
  · simp [held]

theorem freeDirect_fails (taken : .cache c ∈ s.held) :
    Fails (freeDirect c obj) s (.alreadyHeld (.cache c)) :=
  (acquire_fails taken).bind

theorem single_cons (c : CacheRef) (obj : Nat) (objs : Multiset Nat) :
    (Pi.single c (obj ::ₘ objs) : CacheRef → Multiset Nat) =
      Pi.single c objs + Pi.single c {obj} := by
  rw [← Pi.single_add, add_comm, Multiset.singleton_add]

/-- The objects of a magazine go back to the slabs. -/
theorem drainObjects_yields (member : c ∈ caches) (objs : List Nat)
    (ok : SlabLayer s caches (out + Pi.single c (objs : Multiset Nat)) whole none) :
    Yields (objs.forM (slabFreeLocked c)) s fun _ t =>
      SlabLayer t caches out whole none ∧ Quiet s t ∧ t.magazines = s.magazines ∧
        t.freelist = s.freelist := by
  have loop := Yields.forM (b := slabFreeLocked c) (s := s)
    (I := fun rest t => SlabLayer t caches (out + Pi.single c (rest : Multiset Nat)) whole none ∧
      Quiet s t ∧ t.magazines = s.magazines ∧ t.freelist = s.freelist) ?_ objs
    ⟨ok, .refl s, rfl, rfl⟩
  · refine loop.mono ?_
    rintro - t ⟨layer, rest⟩
    exact ⟨by simpa using layer, rest⟩
  · rintro obj rest r ⟨layer, quiet, magazines, freelist⟩
    rw [← Multiset.cons_coe, single_cons, ← add_assoc] at layer
    refine (slabFreeLocked_yields member layer).mono ?_
    rintro - t ⟨layer, quiet', magazines', freelist'⟩
    exact ⟨layer, quiet.trans quiet', magazines'.trans magazines, freelist'.trans freelist⟩

section Drain

variable (member : c ∈ caches) (internal : .magazineCache ∈ caches)
  (ok : SlabLayer s caches
    (out + Pi.single .magazineCache {m} + Pi.single c (s.magazines m : Multiset Nat)) whole none)
include member ok

include internal in
theorem drainMagazine_yields (free : .cache .magazineCache ∉ s.held) :
    Yields (drainMagazine c m) s fun _ t =>
      SlabLayer t caches out whole none ∧ Quiet s t ∧
        t.magazines = Function.update s.magazines m [] ∧ t.freelist = s.freelist := by
  refine .read_bind ((drainObjects_yields member _ ok).bind ?_)
  rintro - t ⟨layer, quiet, magazines, freelist⟩
  refine .update_bind ?_
  have cleared := layer.congr (t := { t with magazines := Function.update t.magazines m [] })
    (fun _ => .refl _) rfl rfl rfl rfl rfl
  refine (freeDirect_yields internal (by rw [quiet.held]; exact free) cleared).mono ?_
  rintro - r ⟨layer, quiet', magazines', freelist'⟩
  refine ⟨layer, quiet.trans ⟨quiet'.held, quiet'.kmemCaches, quiet'.managed, quiet'.depot⟩, ?_,
    freelist'.trans freelist⟩
  rw [magazines', magazines]

theorem drainMagazine_fails (taken : .cache .magazineCache ∈ s.held) :
    Fails (drainMagazine c m) s (.alreadyHeld (.cache .magazineCache)) := by
  refine .read_bind ((drainObjects_yields member _ ok).bind_fails ?_)
  rintro - t ⟨-, quiet, -, -⟩
  exact .update_bind (freeDirect_fails (by rw [quiet.held]; exact taken))

end Drain

theorem kpageFree_yields {Q : Unit → AllocState → Prop} (managed : p ∈ s.managed)
    (flag : s.flags p = .used ∨ s.flags p = .slab) (refcnt : s.refcnt p = 1)
    (free : .kmem ∉ s.held) (holds : Q () (s.pushFree p)) :
    Yields (kpageFree (p * PGSIZE)) s Q := by
  have page : p * PGSIZE / PGSIZE = p := Nat.mul_div_cancel p (by decide)
  refine .check_bind (Nat.mul_mod_left ..) (.read_bind ?_)
  rw [page]
  refine .check_bind managed (acquire_bind free (.check_bind flag (.check_bind refcnt ?_)))
  refine .update_bind (release_yields (by simp [AllocState.pushFree]) ?_)
  simpa [AllocState.pushFree] using holds

theorem freelistPop_nil {Q : Option Nat → AllocState → Prop} (free : .kmem ∉ s.held)
    (empty : s.freelist = []) (holds : Q none s) : Yields freelistPop s Q := by
  refine acquire_bind free (.read_bind ?_)
  simp only [empty]
  refine release_bind (by simp) (.ret ?_)
  simpa [← empty] using holds

theorem freelistPop_cons {Q : Option Nat → AllocState → Prop} {rest : List Nat}
    (free : .kmem ∉ s.held) (first : s.freelist = p :: rest)
    (holds : Q (some p) (s.popFree p rest)) : Yields freelistPop s Q := by
  refine acquire_bind free (.read_bind ?_)
  simp only [first]
  refine .write_bind (release_bind (by simp [AllocState.popFree]) (.ret ?_))
  simpa [AllocState.popFree] using holds

theorem releaseSlab_yields {Q : Unit → AllocState → Prop} (member : c ∈ caches)
    (free : .kmem ∉ s.held) (ok : SlabLayer s caches out whole none)
    (listed : p ∈ (s.caches c).emptySlabs) (holds : Q () (s.dropSlab c p)) :
    Yields (releaseSlab c p) s Q := by
  have page := (ok.cache c member).page p (by simp [Cache.slabPages, listed])
  exact .update_bind (kpageFree_yields page.managed (Or.inr page.flag) page.refcnt free holds)

/-- A slab on the partial list has a free slot. -/
theorem takeObject_yields (member : c ∈ caches) (ok : SlabLayer s caches out whole spare)
    (listed : p ∈ (s.caches c).partialSlabs) (here : ∀ q, spare = some q → q = p) :
    Yields (takeObject c p) s fun obj t =>
      SlabLayer t caches (out + Pi.single c {obj}) whole none ∧ Quiet s t ∧
        t.magazines = s.magazines ∧ t.freelist = s.freelist := by
  have cache := ok.cache c member
  have page := cache.page p (by simp [Cache.slabPages, listed])
  have bits := cache.fits.bits
  have small := toInt32_of_le bits
  have less := (cache.partly p listed).1
  rw [page.inuse] at less
  refine .read_bind (.check_bind (by rw [small]; exact_mod_cast bits) ?_)
  rw [small]
  rcases bitFfc_spec (s.slabs p).used (s.caches c).layout.slotsPerSlab
    (by rw [page.words]; unfold SLAB_MAX_OBJS at *; omega) with
    ⟨slot, found, inside, clear, -⟩ | ⟨-, full⟩
  · rw [found]
    refine .check_bind (by omega) (.write_bind (.ret ?_))
    exact ⟨ok.takeSlot member listed here inside clear, quiet_takeSlot s c p slot, rfl, rfl⟩
  · rw [popcount_eq_iff.mpr full] at less
    omega

end Kmem

end Av6
