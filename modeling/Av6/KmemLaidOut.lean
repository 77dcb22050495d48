import Av6.KmemHeld
import Av6.KmemLayout
import Av6.SlabPrograms

/-!
# Creating a cache

For which sizes and alignments `kmem_cache_create` returns nothing or a cache that serves them.
-/

namespace Av6

namespace Kmem

open FallibleState

variable {s t : AllocState} {cpu : Fin NCPU_MAX} {size align : BitVec 64} {addr : Nat}

/-- `kmem_cache_create` divides by a size other than zero, if it comes to that, and returns
either nothing or a cache that serves the size and the alignment. -/
structure LaidOut (s : AllocState) (cpu : Fin NCPU_MAX) (size align : BitVec 64) : Prop where
  divisor : ∀ addr t, kmemCacheAlloc cpu .cacheCache s = .ok (some addr, t) →
    roundUp size (usedAlign align) ≠ 0
  serves : ∀ c t, kmemCacheCreate cpu size align s = .ok (some c, t) →
    (t.caches c).layout.Serves size.toNat align.toNat

theorem cacheAlloc_held (runs : kmemCacheAlloc cpu .cacheCache s = .ok (some addr, t)) :
    t.held = s.held :=
  allocDirect_sameHeld .cacheCache s _ t runs

theorem acquire_caches (l : Lock) (s : AllocState) :
    Moves (fun s t => t.caches = s.caches) (acquire l) s :=
  .read_bind (.check_bind (.write rfl))

theorem release_caches (l : Lock) (s : AllocState) :
    Moves (fun s t => t.caches = s.caches) (release l) s :=
  .read_bind (.check_bind (.write rfl))

/-- A cache that is created takes an object of `cache_cache`, and has slots. -/
theorem alloc_of_create {c : CacheRef}
    (runs : kmemCacheCreate cpu size align s = .ok (some c, t)) :
    (∃ addr u, kmemCacheAlloc cpu .cacheCache s = .ok (some addr, u)) ∧
      (cacheLayout size align).slotsPerSlab ≠ 0 ∧ (t.caches c).layout = cacheLayout size align := by
  unfold kmemCacheCreate at runs
  split at runs
  · cases runs
  · obtain ⟨found, u, alloc, runs⟩ := exists_of_bind runs
    cases found with
    | none => cases runs
    | some addr =>
        refine ⟨⟨addr, u, alloc⟩, ?_⟩
        obtain ⟨_, v, setup, runs⟩ := exists_of_bind runs
        cases setup
        split at runs
        · obtain ⟨_, w, freed, ends⟩ := exists_of_bind runs
          cases ends
        · rename_i slots
          refine ⟨slots, ?_⟩
          obtain ⟨_, v, acquired, runs⟩ := exists_of_bind runs
          obtain ⟨_, w, inserted, runs⟩ := exists_of_bind runs
          obtain ⟨_, r, released, ends⟩ := exists_of_bind runs
          cases inserted
          cases ends
          rw [release_caches _ _ _ _ released]
          show (v.caches (.object addr)).layout = _
          rw [acquire_caches _ _ _ _ acquired]
          simp [AllocState.updateCache, cacheSetup]

/-- With an object of `cache_cache` and slots, a cache is created. -/
theorem create_of_alloc (idle : s.held = []) (nonzero : size ≠ 0)
    (slots : (cacheLayout size align).slotsPerSlab ≠ 0)
    (alloc : kmemCacheAlloc cpu .cacheCache s = .ok (some addr, t)) :
    ∃ c u, kmemCacheCreate cpu size align s = .ok (some c, u) := by
  have held : t.held = [] := (cacheAlloc_held alloc).trans idle
  have free : Lock.kmemCaches ∉
      (t.updateCache (.object addr) fun _ => cacheSetup size align).held := by
    show Lock.kmemCaches ∉ t.held
    rw [held]
    exact List.not_mem_nil
  have runs : Yields (kmemCacheCreate cpu size align) s fun c _ => c ≠ none := by
    unfold kmemCacheCreate
    rw [if_neg nonzero]
    have taken : Yields (kmemCacheAlloc cpu .cacheCache) s fun found u =>
        found = some addr ∧ u = t := ⟨_, _, alloc, rfl, rfl⟩
    refine taken.bind ?_
    rintro _ _ ⟨rfl, rfl⟩
    refine .update_bind ?_
    rw [if_neg slots]
    exact acquire_bind free (.update_bind (unlock_bind rfl (.ret (Option.some_ne_none _))))
  obtain ⟨c, u, runs, some⟩ := runs
  obtain ⟨c, rfl⟩ := Option.ne_none_iff_exists'.mp some
  exact ⟨c, u, runs⟩

/-- Exactly where there is no memory for another cache, or else for sizes and alignments that
fit, a cache is created soundly or not at all. -/
theorem create_laidOut_iff (idle : s.held = []) (cpu : Fin NCPU_MAX) (nonzero : size ≠ 0)
    (power : align = 0 ∨ ∃ k, align = BitVec.twoPow 64 k) :
    LaidOut s cpu size align ↔
      (∀ addr t, kmemCacheAlloc cpu .cacheCache s ≠ .ok (some addr, t)) ∨
        SizeFits size.toNat align.toNat := by
  have divisor : roundUp size (usedAlign align) ≠ 0 ↔ (cacheLayout size align).objsize ≠ 0 :=
    not_congr (BitVec.toNat_inj (y := 0)).symm
  constructor
  · intro laidOut
    by_cases memory : ∀ addr t, kmemCacheAlloc cpu .cacheCache s ≠ .ok (some addr, t)
    · exact .inl memory
    · push Not at memory
      obtain ⟨addr, t, alloc⟩ := memory
      refine .inr ((sizeFits_iff nonzero power).mpr ⟨?_, ?_⟩)
      · exact divisor.mp (laidOut.divisor addr t alloc)
      · intro slots
        obtain ⟨c, u, runs⟩ := create_of_alloc idle nonzero slots alloc
        have serves := laidOut.serves c u runs
        rwa [(alloc_of_create runs).2.2] at serves
  · intro condition
    constructor
    · intro addr t alloc
      rcases condition with none | fits
      · exact absurd alloc (none addr t)
      · exact divisor.mpr ((sizeFits_iff nonzero power).mp fits).1
    · intro c t runs
      obtain ⟨⟨addr, u, alloc⟩, slots, layout⟩ := alloc_of_create runs
      rcases condition with none | fits
      · exact absurd alloc (none addr u)
      · rw [layout]
        exact ((sizeFits_iff nonzero power).mp fits).2 slots

theorem create_laidOut_boot : LaidOut (kmemInit [1, 2, 3]) 0 40 64 ↔
    (∀ addr t, kmemCacheAlloc 0 .cacheCache (kmemInit [1, 2, 3]) ≠ .ok (some addr, t)) ∨
      SizeFits 40 64 :=
  create_laidOut_iff rfl 0 (by decide) (.inr ⟨6, by decide⟩)

/-- The largest size is rounded up to zero, and divided by. -/
theorem create_divides_by_zero :
    ¬ ∀ (s : AllocState) (cpu : Fin NCPU_MAX) (size align : BitVec 64), s.held = [] → size ≠ 0 →
      (align = 0 ∨ ∃ k, align = BitVec.twoPow 64 k) → LaidOut s cpu size align := by
  intro laidOut
  have sound := laidOut (kmemInit [1]) 0 0xffffffffffffffff 0 rfl (by decide) (.inl rfl)
  have memory : (match kmemCacheAlloc 0 .cacheCache (kmemInit [1]) with
      | .ok (some _, _) => true
      | _ => false) = true := by
    decide +kernel
  split at memory
  · rename_i addr t alloc
    exact sound.divisor addr t alloc (by decide)
  · cases memory

end Kmem

end Av6
