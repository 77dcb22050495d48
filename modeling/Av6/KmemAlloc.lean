import Av6.KmemReclaim

/-!
# Allocating a page and an object

The rules for `kpage_alloc` and `slab_alloc_locked`, with the one case in which they fail.
-/

namespace Av6

namespace Kmem

open FallibleState

variable {s t r : AllocState} {c d : CacheRef} {p m obj : Nat} {live : CacheRef → Multiset Nat}
  {whole : Multiset Nat} {caches : List CacheRef} {out : CacheRef → Multiset Nat}

/-- `kmem_reclaim` would come to `magazine_cache` again, which its caller has locked. -/
def ReclaimStuck (s : AllocState) : Prop :=
  .cache .magazineCache ∈ s.held ∧ ∃ c ∈ s.kmemCaches, .cache c ∉ s.held ∧ ¬ NoDepot s c

/-- The locks that `kpage_alloc` takes. -/
structure PageLocks (s : AllocState) : Prop where
  kmem : .kmem ∉ s.held
  list : .kmemCaches ∉ s.held

theorem Frame.pageLocks (frame : Frame s t) (locks : PageLocks s) : PageLocks t :=
  ⟨by rw [frame.held]; exact locks.kmem, by rw [frame.held]; exact locks.list⟩

theorem kmemReclaim_yields (ok : KmemOk s live whole) (locks : PageLocks s)
    (free : ¬ ReclaimStuck s) :
    Yields kmemReclaim s fun _ t => KmemOk t live whole ∧ Frame s t := by
  refine Yields.bind (acquire_bind locks.list (.ret (Q := fun _ t =>
    t = { s with held := .kmemCaches :: s.held }) rfl)) ?_
  rintro - _ rfl
  have loop : Yields (reclaimCaches s.kmemCaches) { s with held := .kmemCaches :: s.held }
      fun _ t => KmemOk t live whole ∧ Frame { s with held := .kmemCaches :: s.held } t := by
    by_cases taken : .cache .magazineCache ∈ s.held
    · have drained : ∀ c ∈ s.kmemCaches, .cache c ∉ s.held → NoDepot s c := by
        intro c member unlocked
        by_contra filled
        exact free ⟨taken, c, member, unlocked, filled⟩
      refine (reclaimCaches_quiet _ (fun _ => id) (ok.setHeld (.kmemCaches :: s.held))
        (fun c member unlocked => drained c member (by simpa using unlocked))
        (by simp [locks.kmem])).mono ?_
      rintro - t ⟨ok, quiet, magazines⟩
      exact ⟨ok, quiet.frame magazines⟩
    · exact reclaimCaches_yields _ (fun _ => id) (ok.setHeld (.kmemCaches :: s.held))
        (by simp [taken]) (by simp [locks.kmem])
  refine .read_bind (loop.bind ?_)
  rintro freed t ⟨ok, frame⟩
  have held := frame.held
  refine release_bind (by simp [held]) (.ret ⟨ok.setHeld _, ?_⟩)
  exact ⟨by simp [held], frame.kmemCaches, frame.managed, frame.layout, frame.loaded,
    frame.previous, frame.magazines⟩

theorem kmemReclaim_fails (ok : KmemOk s live whole) (locks : PageLocks s)
    (stuck : ReclaimStuck s) : Fails kmemReclaim s (.alreadyHeld (.cache .magazineCache)) := by
  obtain ⟨taken, c, member, unlocked, filled⟩ := stuck
  refine Yields.bind_fails (acquire_bind locks.list (.ret (Q := fun _ t =>
    t = { s with held := .kmemCaches :: s.held }) rfl)) ?_
  rintro - _ rfl
  refine .read_bind (Fails.bind (reclaimCaches_fails _ (fun _ => id)
    (ok.setHeld (.kmemCaches :: s.held)) (by simp [taken])
    ⟨c, member, by simpa using unlocked, filled⟩ (by simp [locks.kmem])))

theorem freelistPop_yields (ok : KmemOk s live whole) (free : .kmem ∉ s.held) :
    Yields freelistPop s fun r t => Frame s t ∧
      (r = none ∧ KmemOk t live whole ∨ ∃ p, r = some p ∧ KmemOk t live (p ::ₘ whole)) := by
  cases first : s.freelist with
  | nil => exact freelistPop_nil free first ⟨.refl s, Or.inl ⟨rfl, ok⟩⟩
  | cons p rest =>
      have quiet : Quiet s (s.popFree p rest) := ⟨rfl, rfl, rfl, fun _ => .refl _⟩
      exact freelistPop_cons free first ⟨quiet.frame rfl, Or.inr ⟨p, rfl,
        ok.quiet quiet rfl (ok.slabs.popFree first)⟩⟩

theorem kpageAlloc_yields (ok : KmemOk s live whole) (locks : PageLocks s)
    (free : s.freelist = [] → ¬ ReclaimStuck s) :
    Yields kpageAlloc s fun r t => Frame s t ∧
      (r = none ∧ KmemOk t live whole ∨
        ∃ p, r = some (p * PGSIZE) ∧ KmemOk t live (p ::ₘ whole)) := by
  cases first : s.freelist with
  | cons p rest =>
      have quiet : Quiet s (s.popFree p rest) := ⟨rfl, rfl, rfl, fun _ => .refl _⟩
      refine Yields.bind (freelistPop_cons (Q := fun r t => r = some p ∧ t = s.popFree p rest)
        locks.kmem first ⟨rfl, rfl⟩) ?_
      rintro _ _ ⟨rfl, rfl⟩
      exact .ret ⟨quiet.frame rfl, Or.inr ⟨p, rfl, ok.quiet quiet rfl (ok.slabs.popFree first)⟩⟩
  | nil =>
      refine Yields.bind (freelistPop_nil (Q := fun r t => r = none ∧ s = t) locks.kmem first
        ⟨rfl, rfl⟩) ?_
      rintro _ _ ⟨rfl, rfl⟩
      refine (kmemReclaim_yields ok locks (free first)).bind ?_
      rintro freed t ⟨ok, frame⟩
      by_cases some_ : 0 < freed
      · simp only [some_, if_true]
        refine (freelistPop_yields ok (frame.pageLocks locks).kmem).bind ?_
        rintro _ r ⟨frame', ⟨rfl, ok⟩ | ⟨p, rfl, ok⟩⟩
        · exact .ret ⟨frame.trans frame', Or.inl ⟨rfl, ok⟩⟩
        · exact .ret ⟨frame.trans frame', Or.inr ⟨p, rfl, ok⟩⟩
      · simp only [some_, if_false]
        exact .ret ⟨frame, Or.inl ⟨rfl, ok⟩⟩

theorem kpageAlloc_fails (ok : KmemOk s live whole) (locks : PageLocks s)
    (empty : s.freelist = []) (stuck : ReclaimStuck s) :
    Fails kpageAlloc s (.alreadyHeld (.cache .magazineCache)) := by
  refine Yields.bind_fails (freelistPop_nil (Q := fun r t => r = none ∧ s = t) locks.kmem empty
    ⟨rfl, rfl⟩) ?_
  rintro _ _ ⟨rfl, rfl⟩
  exact Fails.bind (kmemReclaim_fails ok locks stuck)

/-- An empty slab goes to the partial list, to be used at once. -/
theorem SlabLayer.unspareEmpty (ok : SlabLayer s caches out whole none) (member : c ∈ caches)
    (listed : p ∈ (s.caches c).emptySlabs) :
    SlabLayer (s.updateCache c fun k =>
      { k.removeSlab p with partialSlabs := p :: (k.removeSlab p).partialSlabs })
      caches out whole (some p) := by
  have cache := ok.cache c member
  have inPages : p ∈ (s.caches c).slabPages := by simp [Cache.slabPages, listed]
  have page := cache.page p inPages
  have lists := mem_removeSlab cache.nodup p
  have here : (s.updateCache c fun k =>
      { k.removeSlab p with partialSlabs := p :: (k.removeSlab p).partialSlabs }).caches c =
      { (s.caches c).removeSlab p with
        partialSlabs := p :: ((s.caches c).removeSlab p).partialSlabs } :=
    Function.update_self ..
  have change : SlabChange s (s.updateCache c fun k =>
      { k.removeSlab p with partialSlabs := p :: (k.removeSlab p).partialSlabs }) c p := by
    refine ⟨inPages, page.cache, page.words, page.inuse, fun _ _ => rfl,
      fun d distinct => Function.update_of_ne distinct .., ?_, ?_, rfl, rfl, rfl, rfl⟩
    · rw [here]
      rfl
    · rw [here]
      exact slabPages_toPartial cache.nodup inPages
  refine ok.change change member ?_ ?_ ?_ ?_ ?_
  · intro q there
    rw [here] at there
    exact cache.empty q ((lists q).2.2.mp there).2
  · intro q there
    rw [here] at there
    exact cache.full q ((lists q).2.1.mp there).2
  · intro q there
    rw [here] at there
    rcases List.mem_cons.mp there with rfl | there
    · have unused := cache.empty q listed
      refine ⟨?_, fun _ => rfl⟩
      show (s.slabs q).inuse < _
      rw [unused]
      exact Int.natCast_pos.mpr cache.fits.slots
    · have inside := ((lists q).1.mp there).2
      refine ⟨(cache.partly q inside).1, fun zero => ?_⟩
      cases (cache.partly q inside).2 zero
  · exact fun d there distinct => ⟨rfl, (ok.cache d there).unspare (some p) (by simp)⟩
  · obtain ⟨rest, before, after⟩ := change.handed cache.nodup
    rw [cache.objects, before, after]
    rfl

/-- There is no free slot, no free page, and nothing can be reclaimed. -/
def GrowStuck (s : AllocState) (c : CacheRef) : Prop :=
  (s.caches c).partialSlabs = [] ∧ (s.caches c).emptySlabs = [] ∧ s.freelist = [] ∧
    ReclaimStuck s

theorem slabGrow_yields (ok : KmemOk s live whole) (locks : PageLocks s)
    (free : s.freelist = [] → ¬ ReclaimStuck s) :
    Yields (slabGrow c) s fun r t =>
      (r = none ∧ KmemOk t live whole ∧ Frame s t) ∨
        ∃ p u, r = some p ∧ KmemOk u live (p ::ₘ whole) ∧ Frame s u ∧
          t.updateCache c (fun k => { k with partialSlabs := p :: k.partialSlabs }) =
            u.grow c p := by
  refine (kpageAlloc_yields ok locks free).bind ?_
  rintro _ t ⟨frame, ⟨rfl, ok⟩ | ⟨p, rfl, ok⟩⟩
  · exact .ret (Or.inl ⟨rfl, ok, frame⟩)
  · have page : p * PGSIZE / PGSIZE = p := Nat.mul_div_cancel p (by decide)
    have managed := (ok.slabs.pages.client p (by simp)).1
    simp only [page]
    refine Yields.bind (.read_bind (.check_bind managed (.write (Q := fun _ r =>
      r = { t with flags := Function.update t.flags p .slab }) rfl))) ?_
    rintro - _ rfl
    exact .update_bind (.ret (Or.inr ⟨p, t, rfl, ok, frame, rfl⟩))

/-- `slab_alloc_locked` hands out an object, or runs out of memory. -/
theorem slabAllocLocked_yields (ok : KmemOk s live whole) (member : c ∈ s.kmemCaches)
    (locks : PageLocks s) (free : ¬ GrowStuck s c) :
    Yields (slabAllocLocked c) s fun r t => Frame s t ∧
      (r = none ∧ KmemOk t live whole ∨
        ∃ obj, r = some obj ∧ KmemOk t (live + Pi.single c {obj}) whole) := by
  cases partly : (s.caches c).partialSlabs with
  | cons p rest =>
      refine Yields.bind (P := fun r t => r = some p ∧ s = t) (.read_bind ?_) ?_
      · simp only [partly]
        exact .ret ⟨rfl, rfl⟩
      · rintro _ _ ⟨rfl, rfl⟩
        refine (takeObject_yields member ok.slabs (p := p) (by simp [partly])
          (by rintro q ⟨⟩)).bind ?_
        rintro obj t ⟨layer, quiet, magazines, -⟩
        rw [custody_add] at layer
        exact .ret ⟨quiet.frame magazines, Or.inr ⟨obj, rfl, ok.quiet quiet magazines layer⟩⟩
  | nil =>
      cases empty : (s.caches c).emptySlabs with
      | cons p rest =>
          have listed : p ∈ (s.caches c).emptySlabs := by simp [empty]
          have spare := ok.slabs.unspareEmpty member listed
          let u := s.updateCache c fun k =>
            { k.removeSlab p with partialSlabs := p :: (k.removeSlab p).partialSlabs }
          have first : Quiet s u := by
            refine ⟨rfl, rfl, rfl, fun d => ?_⟩
            by_cases same : d = c
            · subst same
              simp only [u, AllocState.updateCache, Function.update_self]
              exact ⟨rfl, rfl, rfl, rfl, rfl⟩
            · simp only [u, AllocState.updateCache, Function.update_of_ne same]
              exact .refl _
          refine Yields.bind (P := fun r t => r = some p ∧ u = t) (.read_bind ?_) ?_
          · simp only [partly, empty]
            exact .write_bind (.ret ⟨rfl, rfl⟩)
          · rintro _ _ ⟨rfl, rfl⟩
            refine (takeObject_yields member spare (p := p)
              (by simp [AllocState.updateCache]) (by rintro q ⟨⟩; rfl)).bind ?_
            rintro obj t ⟨layer, quiet, magazines, -⟩
            rw [custody_add] at layer
            exact .ret ⟨(first.trans quiet).frame magazines,
              Or.inr ⟨obj, rfl, ok.quiet (first.trans quiet) magazines layer⟩⟩
      | nil =>
          have open_ : s.freelist = [] → ¬ ReclaimStuck s := fun none_ stuck =>
            free ⟨partly, empty, none_, stuck⟩
          refine Yields.bind (P := fun r t => (r = none ∧ KmemOk t live whole ∧ Frame s t) ∨
            ∃ p u, r = some p ∧ KmemOk u live (p ::ₘ whole) ∧ Frame s u ∧ t = u.grow c p)
            (.read_bind ?_) ?_
          · simp only [partly, empty]
            refine (slabGrow_yields (c := c) ok locks open_).bind ?_
            rintro _ t (⟨rfl, ok, frame⟩ | ⟨p, u, rfl, ok, frame, grown⟩)
            · exact .ret (Or.inl ⟨rfl, ok, frame⟩)
            · exact .update_bind (.ret (Or.inr ⟨p, u, rfl, ok, frame, grown⟩))
          · rintro _ _ (⟨rfl, ok, frame⟩ | ⟨p, u, rfl, ok, frame, rfl⟩)
            · exact .ret ⟨frame, Or.inl ⟨rfl, ok⟩⟩
            · have member : c ∈ u.kmemCaches := by rwa [frame.kmemCaches]
              have here : (u.grow c p).caches c =
                  { u.caches c with partialSlabs := p :: (u.caches c).partialSlabs } :=
                Function.update_self ..
              have first : Quiet u (u.grow c p) := by
                refine ⟨rfl, rfl, rfl, fun d => ?_⟩
                by_cases same : d = c
                · subst same
                  rw [here]
                  exact ⟨rfl, rfl, rfl, rfl, rfl⟩
                · have other : (u.grow c p).caches d = u.caches d :=
                    Function.update_of_ne same ..
                  rw [other]
                  exact .refl _
              refine (takeObject_yields member (ok.slabs.grow member) (p := p)
                (by simp [here]) (by rintro q ⟨⟩; rfl)).bind ?_
              rintro obj t ⟨layer, quiet, magazines, -⟩
              rw [custody_add] at layer
              exact .ret ⟨frame.trans ((first.trans quiet).frame magazines),
                Or.inr ⟨obj, rfl, ok.quiet (first.trans quiet) magazines layer⟩⟩

theorem slabAllocLocked_fails (ok : KmemOk s live whole) (locks : PageLocks s)
    (stuck : GrowStuck s c) :
    Fails (slabAllocLocked c) s (.alreadyHeld (.cache .magazineCache)) := by
  obtain ⟨partly, empty, none_, stuck⟩ := stuck
  refine Fails.bind (.read_bind ?_)
  simp only [partly, empty]
  exact Fails.bind (Fails.bind (kpageAlloc_fails ok locks none_ stuck))

end Kmem

end Av6
