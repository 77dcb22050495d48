import Av6.MagazineLayer

/-!
# Draining a cache

The loops of `kmem_reclaim` and `kmem_cache_destroy` over the magazines and the empty
slabs of one cache.
-/

namespace Av6

namespace Kmem

open FallibleState

variable {s t : AllocState} {c d : CacheRef} {m : Nat} {ms : List Nat} {k : Cache}
  {caches : List CacheRef} {out out' : CacheRef → Multiset Nat} {whole : Multiset Nat}
  {spare : Option Nat}

theorem SlabLayer.congr_out (ok : SlabLayer s caches out whole spare)
    (same : ∀ c ∈ caches, out' c = out c) : SlabLayer s caches out' whole spare :=
  ⟨fun c member => by rw [same c member]; exact ok.cache c member, ok.pages⟩

/-- What draining magazines of the cache `c` leaves alone. -/
structure Drained (s t : AllocState) (c : CacheRef) (ms : List Nat) : Prop where
  held : t.held = s.held
  kmemCaches : t.kmemCaches = s.kmemCaches
  managed : t.managed = s.managed
  freelist : t.freelist = s.freelist
  depot : ∀ d, d ≠ c → SameDepot (s.caches d) (t.caches d)
  magazines : ∀ m, m ∉ ms → t.magazines m = s.magazines m

/-- The custody of a list of magazines, one at a time. -/
theorem add_magazines_cons (out : CacheRef → Multiset Nat) (c : CacheRef)
    (magazines : Nat → List Nat) (m : Nat) (ms : List Nat) :
    (out + Pi.single .magazineCache ((m :: ms : List Nat) : Multiset Nat) +
        Pi.single c ((m :: ms).flatMap magazines : Multiset Nat)) =
      out + Pi.single .magazineCache (ms : Multiset Nat) +
        Pi.single c (ms.flatMap magazines : Multiset Nat) + Pi.single .magazineCache {m} +
          Pi.single c (magazines m : Multiset Nat) := by
  rw [← Multiset.cons_coe, single_cons, List.flatMap_cons, ← Multiset.coe_add, Pi.single_add]
  abel

/-- The body of a loop that removes a magazine from its list and drains it. -/
def drainOne (remove : Nat → Cache → Cache) (c : CacheRef) (m : Nat) : Alloc Unit := do
  modify (·.updateCache c (remove m))
  drainMagazine c m

section Loop

variable (remove : Nat → Cache → Cache) {shape : List Nat → Cache}
  (slabsKept : ∀ m k, SameSlabs k (remove m k)) (member : c ∈ caches)
include slabsKept member

omit member in
theorem SlabLayer.updateDepot (ok : SlabLayer s caches out whole spare) :
    SlabLayer (s.updateCache c (remove m)) caches out whole spare := by
  refine ok.congr (fun d => ?_) rfl rfl rfl rfl rfl
  by_cases same : d = c
  · subst same
    simpa [AllocState.updateCache] using slabsKept m (s.caches d)
  · simpa [AllocState.updateCache, same] using .refl _

theorem drainLoop_yields (internal : .magazineCache ∈ caches)
    (shapeStep : ∀ m rest k, SameDepot (shape (m :: rest)) k → SameDepot (shape rest) (remove m k))
    (free : .cache .magazineCache ∉ s.held) (nodup : ms.Nodup)
    (ok : SlabLayer s caches (out + Pi.single .magazineCache (ms : Multiset Nat) +
      Pi.single c (ms.flatMap s.magazines : Multiset Nat)) whole none)
    (start : SameDepot (shape ms) (s.caches c)) :
    Yields (ms.forM (drainOne remove c)) s fun _ t =>
      SlabLayer t caches out whole none ∧ SameDepot (shape []) (t.caches c) ∧
        Drained s t c ms := by
  have loop := Yields.forM (b := drainOne remove c) (s := s)
    (I := fun rest t => SlabLayer t caches (out + Pi.single .magazineCache (rest : Multiset Nat) +
        Pi.single c (rest.flatMap s.magazines : Multiset Nat)) whole none ∧
      SameDepot (shape rest) (t.caches c) ∧ Drained s t c ms ∧ rest.Nodup ∧
        (∀ m ∈ rest, m ∈ ms) ∧ ∀ m ∈ rest, t.magazines m = s.magazines m) ?_ ms
    ⟨ok, start, ⟨rfl, rfl, rfl, rfl, fun _ _ => .refl _, fun _ _ => rfl⟩, nodup, fun _ => id,
      fun _ _ => rfl⟩
  · refine loop.mono ?_
    rintro - t ⟨layer, depot, drained, -⟩
    exact ⟨by simpa using layer, depot, drained⟩
  · rintro m rest r ⟨layer, depot, drained, nodup, among, fresh⟩
    rw [List.nodup_cons] at nodup
    have objects := fresh m (by simp)
    rw [add_magazines_cons, ← objects] at layer
    have removed := layer.updateDepot (m := m) (c := c) remove slabsKept
    refine .update_bind ((drainMagazine_yields member internal removed ?_).mono ?_)
    · show Lock.cache .magazineCache ∉ r.held
      rwa [drained.held]
    · rintro - t ⟨layer, quiet, magazines, freelist⟩
      refine ⟨layer, ?_, ⟨quiet.held.trans drained.held, quiet.kmemCaches.trans drained.kmemCaches,
        quiet.managed.trans drained.managed, freelist.trans drained.freelist, ?_, ?_⟩, nodup.2,
        fun m' there => among m' (by simp [there]), ?_⟩
      · have here := (quiet.depot c)
        simp only [AllocState.updateCache, Function.update_self] at here
        exact (shapeStep m rest _ depot).trans here
      · intro d distinct
        have there := quiet.depot d
        simp only [AllocState.updateCache, Function.update_of_ne distinct] at there
        exact (drained.depot d distinct).trans there
      · intro m' outside
        have distinct : m' ≠ m := by
          rintro rfl
          exact outside (among m' (by simp))
        rw [magazines, Function.update_of_ne distinct]
        exact drained.magazines m' outside
      · intro m' there
        have distinct : m' ≠ m := by
          rintro rfl
          exact nodup.1 there
        rw [magazines, Function.update_of_ne distinct]
        exact fresh m' (by simp [there])

theorem drainLoop_fails (taken : .cache .magazineCache ∈ s.held) (some_ : ms ≠ [])
    (ok : SlabLayer s caches (out + Pi.single .magazineCache (ms : Multiset Nat) +
      Pi.single c (ms.flatMap s.magazines : Multiset Nat)) whole none) :
    Fails (ms.forM (drainOne remove c)) s (.alreadyHeld (.cache .magazineCache)) := by
  cases ms with
  | nil => exact (some_ rfl).elim
  | cons m rest =>
      rw [add_magazines_cons] at ok
      have removed := ok.updateDepot (m := m) (c := c) remove slabsKept
      exact Fails.bind (.update_bind (drainMagazine_fails member removed taken))

end Loop

/-- The loop over the empty slabs. -/
theorem releaseSlabs_yields (member : c ∈ caches) (free : .kmem ∉ s.held)
    (ok : SlabLayer s caches out whole none) :
    Yields ((s.caches c).emptySlabs.forM (releaseSlab c)) s fun _ t =>
      SlabLayer t caches out whole none ∧ Quiet s t ∧ t.magazines = s.magazines ∧
        (t.caches c).emptySlabs = [] ∧ (t.caches c).partialSlabs = (s.caches c).partialSlabs ∧
          (t.caches c).fullSlabs = (s.caches c).fullSlabs := by
  have loop := Yields.forM (b := releaseSlab c) (s := s)
    (I := fun rest t => SlabLayer t caches out whole none ∧ Quiet s t ∧
      t.magazines = s.magazines ∧ (t.caches c).emptySlabs = rest ∧
        (t.caches c).partialSlabs = (s.caches c).partialSlabs ∧
          (t.caches c).fullSlabs = (s.caches c).fullSlabs) ?_ (s.caches c).emptySlabs
    ⟨ok, .refl s, rfl, rfl, rfl, rfl⟩
  · exact loop
  · rintro p rest r ⟨layer, quiet, magazines, listed, partly, full⟩
    have here : p ∈ (r.caches c).emptySlabs := by simp [listed]
    have cache : (r.dropSlab c p).caches c =
        { r.caches c with emptySlabs := (r.caches c).emptySlabs.erase p } :=
      Function.update_self ..
    refine releaseSlab_yields member (by rwa [quiet.held]) layer here
      ⟨layer.dropSlab member here, quiet.trans ⟨rfl, rfl, rfl, fun d => ?_⟩, magazines, ?_, ?_, ?_⟩
    · by_cases same : d = c
      · subst same
        rw [cache]
        exact ⟨rfl, rfl, rfl, rfl, rfl⟩
      · have other : (r.dropSlab c p).caches d = r.caches d := Function.update_of_ne same ..
        rw [other]
        exact .refl _
    · rw [cache, listed, List.erase_cons_head]
    · rw [cache]
      exact partly
    · rw [cache]
      exact full

end Kmem

end Av6
