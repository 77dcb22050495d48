import Av6.KmallocRanges

/-!
# Conservation, and the lock that is taken twice

Every slot that is set has exactly one holder, in every state that a run reaches if the
caches it creates fit one page.  In these states an operation takes a lock that it holds
exactly when it is `Stuck`.
-/

namespace Av6

namespace Kmem

open Bitstring FallibleState TransitionSystem

variable {s t : System} {c d : CacheRef} {g : Grant} {cpu : Fin NCPU_MAX} {op : Op} {p : Nat}

/-- The books of one cache.  The holders of its objects are the clients, its magazines and, of
the objects of the two static caches, the allocator itself. -/
structure Conserved (s : System) (c : CacheRef) : Prop where
  inuse : ∀ p ∈ (s.alloc.caches c).slabPages, (s.alloc.slabs p).inuse =
    popcount (s.alloc.slabs p).used (s.alloc.caches c).layout.slotsPerSlab
  oneList : (s.alloc.caches c).slabPages.Nodup
  list : ∀ p ∈ (s.alloc.caches c).slabPages,
    (p ∈ (s.alloc.caches c).emptySlabs ↔ (s.alloc.slabs p).inuse = 0) ∧
    (p ∈ (s.alloc.caches c).fullSlabs ↔
      (s.alloc.slabs p).inuse = (s.alloc.caches c).layout.slotsPerSlab) ∧
    (p ∈ (s.alloc.caches c).partialSlabs ↔ 0 < (s.alloc.slabs p).inuse ∧
      (s.alloc.slabs p).inuse < (s.alloc.caches c).layout.slotsPerSlab)
  holder : ∀ p ∈ (s.alloc.caches c).slabPages,
    ∀ slot < (s.alloc.caches c).layout.slotsPerSlab,
      (custody s.alloc (liveOf s.grants) c).count (slabObj (s.alloc.caches c).layout p slot) =
        if bitTest (s.alloc.slabs p).used slot then 1 else 0
  full : ∀ m ∈ (s.alloc.caches c).fullMags, (s.alloc.magazines m).length = MAG_DEPTH
  empty : ∀ m ∈ (s.alloc.caches c).emptyMags, (s.alloc.magazines m).length = 0
  previous : ∀ i m, (s.alloc.caches c).previous i = some m →
    (s.alloc.magazines m).length = 0 ∨ (s.alloc.magazines m).length = MAG_DEPTH
  page : ∀ obj ∈ custody s.alloc (liveOf s.grants) c, obj / PGSIZE ∉ s.alloc.freelist

section Books

variable (ok : SystemOk s) (member : c ∈ s.alloc.kmemCaches)
include ok member

/-- A slab is on the list that its count asks for. -/
theorem SystemOk.list_of_inuse (listed : p ∈ (s.alloc.caches c).slabPages) :
    (p ∈ (s.alloc.caches c).emptySlabs ↔ (s.alloc.slabs p).inuse = 0) ∧
    (p ∈ (s.alloc.caches c).fullSlabs ↔
      (s.alloc.slabs p).inuse = (s.alloc.caches c).layout.slotsPerSlab) ∧
    (p ∈ (s.alloc.caches c).partialSlabs ↔ 0 < (s.alloc.slabs p).inuse ∧
      (s.alloc.slabs p).inuse < (s.alloc.caches c).layout.slotsPerSlab) := by
  have cache := ok.kmem.slabs.cache c member
  have slots := cache.fits.slots
  have count := (cache.page p listed).inuse
  have onEmpty := cache.empty p
  have onFull := cache.full p
  have onPartial : p ∈ (s.alloc.caches c).partialSlabs → (s.alloc.slabs p).inuse <
      (s.alloc.caches c).layout.slotsPerSlab ∧ 0 < (s.alloc.slabs p).inuse := by
    intro there
    obtain ⟨less, zero⟩ := cache.partly p there
    refine ⟨less, ?_⟩
    have positive : (s.alloc.slabs p).inuse ≠ 0 := fun none_ => by simpa using zero none_
    omega
  simp only [Cache.slabPages, List.mem_append] at listed
  rcases listed with (there | there) | there
  · have here := onPartial there
    refine ⟨⟨fun other => ?_, fun zero => ?_⟩, ⟨fun other => ?_, fun all => ?_⟩,
      fun _ => ⟨here.2, here.1⟩, fun _ => there⟩
    · have zero := onEmpty other
      omega
    · omega
    · have all := onFull other
      omega
    · omega
  · have here := onFull there
    refine ⟨⟨fun other => ?_, fun zero => ?_⟩, ⟨fun _ => here, fun _ => there⟩,
      ⟨fun other => ?_, fun both => ?_⟩⟩
    · have zero := onEmpty other
      omega
    · omega
    · have less := onPartial other
      omega
    · omega
  · have here := onEmpty there
    refine ⟨⟨fun _ => here, fun _ => there⟩, ⟨fun other => ?_, fun all => ?_⟩,
      ⟨fun other => ?_, fun both => ?_⟩⟩
    · have all := onFull other
      omega
    · omega
    · have less := onPartial other
      omega
    · omega

theorem SystemOk.count_custody (listed : p ∈ (s.alloc.caches c).slabPages) {slot : Nat}
    (inside : slot < (s.alloc.caches c).layout.slotsPerSlab) :
    (custody s.alloc (liveOf s.grants) c).count (slabObj (s.alloc.caches c).layout p slot) =
      if bitTest (s.alloc.slabs p).used slot then 1 else 0 := by
  have cache := ok.kmem.slabs.cache c member
  have low : ∀ p ∈ s.alloc.managed, p < pageLimit := fun p managed =>
    (ok.kmem.slabs.pages.low p managed).2
  split
  · rename_i set
    refine Multiset.count_eq_one_of_mem (cache.out_nodup low) ?_
    rw [cache.objects]
    exact mem_handed.mpr ⟨p, listed, slot, inside, set, rfl⟩
  · rename_i clear
    refine Multiset.count_eq_zero.mpr fun there => ?_
    rw [cache.objects] at there
    obtain ⟨q, listed', slot', inside', set, same⟩ := mem_handed.mp there
    obtain ⟨rfl, rfl⟩ := slabObj_inj cache.fits (low p (cache.page p listed).managed)
      (low q (cache.page q listed').managed) inside inside' same.symm
    exact clear set

theorem SystemOk.conserved : Conserved s c where
  inuse p listed := ((ok.kmem.slabs.cache c member).page p listed).inuse
  oneList := (ok.kmem.slabs.cache c member).nodup
  list _ listed := ok.list_of_inuse member listed
  holder _ listed _ inside := ok.count_custody member listed inside
  full := (ok.kmem.mags c member).full
  empty := (ok.kmem.mags c member).empty
  previous := (ok.kmem.mags c member).previous
  page obj there free := by
    obtain ⟨p, listed, -, -, -, -, rfl, -⟩ := ok.kmem.slabs.exists_slot member there
    have slab := ((ok.kmem.slabs.cache c member).page _ listed).flag
    rw [(ok.kmem.slabs.pages.free _ free).2.1] at slab
    cases slab

end Books

/-- The assertions at which an operation can stop. -/
theorem SystemOk.fails_only (ok : SystemOk s) (legal : op.Legal s) (fits : op.Fits) {e : Panic}
    (fails : Fails (op.run cpu s.classes) s.alloc e) :
    e = .liveObjects ∧ ¬ op.Stuck s cpu ∨
      e = .alreadyHeld (.cache .magazineCache) ∧ op.Stuck s cpu := by
  by_cases stuck : op.Stuck s cpu
  · have other := ok.run_fails legal stuck
    rw [Fails, show _ = Except.error e from fails] at other
    cases other
    exact Or.inr ⟨rfl, stuck⟩
  · rcases ok.run legal fits stuck with settles | other
    · exact (settles.not_fails fails).elim
    · rw [Fails, show _ = Except.error e from fails] at other
      cases other
      exact Or.inl ⟨rfl, stuck⟩

/-- An operation takes a lock that it holds exactly when it frees an object, has no room
for it in the magazines of the CPU and no empty magazine, `magazine_cache` has no free slot
and no page to grow by, and another cache has a magazine in its depot. -/
theorem alreadyHeld_iff_stuck (reached : KmemReachable Op.Fits s) (legal : op.Legal s)
    (fits : op.Fits) :
    (∃ l, Fails (op.run cpu s.classes) s.alloc (.alreadyHeld l)) ↔ op.Stuck s cpu := by
  have ok := systemOk_of_reachable (fun _ => id) reached
  constructor
  · rintro ⟨l, fails⟩
    rcases ok.fails_only legal fits fails with ⟨other, -⟩ | ⟨-, stuck⟩
    · cases other
    · exact stuck
  · exact fun stuck => ⟨_, ok.run_fails legal stuck⟩

theorem alreadyHeld_iff_stuck_boot : ∃ s : System, KmemReachable Op.Fits s ∧
    ((∃ l, Fails ((Op.kmalloc 100).run 3 s.classes) s.alloc (.alreadyHeld l)) ↔
      (Op.kmalloc 100).Stuck s 3) := by
  have run : ((runFrom [1, 2, 3] [(0, .kmalloc 100)]).any fun s => s.grants.length = 1) = true := by
    decide +kernel
  obtain ⟨s, reached, -⟩ : ∃ s, KmemReachable Op.Fits s ∧ _ := by
    refine reachable_of_runFrom (by decide) (by simp) ?_ run
    intro step there
    simp only [List.mem_cons, List.not_mem_nil, or_false] at there
    subst there
    trivial
  exact ⟨s, reached, alreadyHeld_iff_stuck reached trivial trivial⟩

/-- On five pages: blocks of sixteen bytes are spread over the magazines of 26 CPUs until
`magazine_cache` is full, with one full magazine in the depot. -/
def fillMagazines : List (Fin NCPU_MAX × Op) :=
  List.replicate 57 (0, .kmalloc 16) ++ [(0, .kmalloc 32)] ++
    (List.range 31).map (fun j => (0, .kfree (3 * PGSIZE + 64 + 16 * j))) ++
      (List.range 25).map fun j =>
        (Fin.ofNat NCPU_MAX (j + 1), .kfree (3 * PGSIZE + 64 + 16 * (31 + j)))

set_option maxRecDepth 100000 in
/-- The free of the other block allocates a magazine, reclaims the depot for it, and frees a
magazine under the lock of `magazine_cache`. -/
theorem alreadyHeld_of_full_magazines : ∃ s : System, KmemReachable Op.Plain s ∧
    (Op.kfree 8256).Legal s ∧
      Fails ((Op.kfree 8256).run 0 s.classes) s.alloc
        (.alreadyHeld (.cache .magazineCache)) := by
  have run : ((runFrom [1, 2, 3, 4, 5] fillMagazines).any
      fun s => decide ((Op.kfree 8256).Legal s) &&
        s.stopsAt 0 (.kfree 8256) (.alreadyHeld (.cache .magazineCache))) = true := by
    decide +kernel
  have plain : ∀ step ∈ fillMagazines, step.2.Plain := by
    intro step there
    simp only [fillMagazines, List.mem_append, List.mem_map, List.mem_replicate,
      List.mem_singleton] at there
    rcases there with ((⟨-, rfl⟩ | rfl) | ⟨_, -, rfl⟩) | ⟨_, -, rfl⟩ <;> trivial
  obtain ⟨s, reached, holds⟩ : ∃ s, KmemReachable Op.Plain s ∧ _ :=
    reachable_of_runFrom (by decide) (by simp) plain run
  rw [Bool.and_eq_true, decide_eq_true_eq] at holds
  exact ⟨s, reached, holds.1, fails_of_stopsAt holds.2⟩

end Kmem

end Av6
