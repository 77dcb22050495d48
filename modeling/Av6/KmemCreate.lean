import Av6.KmemObjects

/-!
# Creating a cache

`kmem_cache_create` takes an object of `cache_cache` and adds it to the list of caches.
-/

namespace Av6

namespace Kmem

open FallibleState

variable {s t : AllocState} {c : CacheRef} {addr : Nat} {live : CacheRef → Multiset Nat}
  {whole : Multiset Nat} {cpu : Fin NCPU_MAX} {f : Cache → Cache} {size align : BitVec 64}

/-- Caches outside the list do not matter. -/
theorem KmemOk.updateOther (ok : KmemOk s live whole) (outside : c ∉ s.kmemCaches) :
    KmemOk (s.updateCache c f) live whole := by
  have same : ∀ d ∈ s.kmemCaches, (s.updateCache c f).caches d = s.caches d := by
    intro d there
    have distinct : d ≠ c := by
      rintro rfl
      exact outside there
    simp [AllocState.updateCache, distinct]
  refine ⟨ok.nodup, ok.cacheCache, ok.magazineCache, ⟨fun d there => ?_, ?_⟩, fun d there => ?_⟩
  · have balance : custody (s.updateCache c f) live d = custody s live d :=
      custody_congr rfl (fun e member => by rw [same e member]) (fun _ _ _ _ => rfl) there
    rw [balance]
    refine (ok.slabs.cache d there).frame ?_ rfl ⟨fun _ _ => rfl, fun _ _ => rfl, fun _ _ => rfl⟩
    rw [same d there]
    exact .refl _
  · obtain ⟨low, freeNodup, free, wholeNodup, client, complete⟩ := ok.slabs.pages
    refine ⟨low, freeNodup, free, wholeNodup, client, fun p managed => ?_⟩
    rcases complete p managed with listed | held | ⟨d, there, inside⟩
    · exact Or.inl listed
    · exact Or.inr (Or.inl held)
    · exact Or.inr (Or.inr ⟨d, there, by rwa [same d there]⟩)
  · refine (ok.mags d there).congr ?_ fun _ _ => rfl
    rw [same d there]
    exact .refl _

theorem mem_created : addr ∈ created s ↔ CacheRef.object addr ∈ s.kmemCaches := by
  simp only [created, Multiset.mem_coe, List.mem_filterMap]
  constructor
  · rintro ⟨c, there, same⟩
    cases c <;> simp_all
  · exact fun there => ⟨_, there, rfl⟩

/-- A new object of `cache_cache` is none of the caches. -/
theorem KmemOk.object_notMem (ok : KmemOk s (live + Pi.single .cacheCache {addr}) whole) :
    CacheRef.object addr ∉ s.kmemCaches := by
  intro there
  have low : ∀ p ∈ s.managed, p < pageLimit := fun p managed => (ok.slabs.pages.low p managed).2
  have nodup := (ok.slabs.cache _ ok.cacheCache).out_nodup low
  have twice : ({addr} + created s : Multiset Nat) ≤
      custody s (live + Pi.single .cacheCache {addr}) .cacheCache := by
    simp only [custody, Pi.add_apply, Pi.single_eq_same]
    have order : live .cacheCache + {addr} + contents s .cacheCache +
        (Pi.single .magazineCache (allMags s) : CacheRef → Multiset Nat) .cacheCache + created s =
        {addr} + created s + (live .cacheCache + contents s .cacheCache +
          (Pi.single .magazineCache (allMags s) : CacheRef → Multiset Nat) .cacheCache) := by
      abel
    rw [order]
    exact Multiset.le_add_right ..
  have both := Multiset.nodup_of_le twice nodup
  rw [Multiset.singleton_add, Multiset.nodup_cons] at both
  exact both.1 (mem_created.mpr there)

/-- A cache without slabs and magazines joins the list. -/
theorem KmemOk.insertCache (ok : KmemOk s (live + Pi.single .cacheCache {addr}) whole)
    (idle : live (.object addr) = 0) (fits : (cacheLayout size align).Fits)
    (setup : s.caches (.object addr) = cacheSetup size align) :
    KmemOk { s with kmemCaches := .object addr :: s.kmemCaches } live whole := by
  have outside := ok.object_notMem
  have noMags : (s.caches (.object addr)).mags = 0 := by
    rw [setup]
    simp [Cache.mags, Cache.cpuMags, cacheSetup]
  have noPages : (s.caches (.object addr)).slabPages = [] := by
    rw [setup]
    rfl
  have all : allMags { s with kmemCaches := .object addr :: s.kmemCaches } = allMags s := by
    simp [allMags, noMags]
  have more : created { s with kmemCaches := .object addr :: s.kmemCaches } =
      {addr} + created s := by
    simp [created]
  have balance : ∀ d ∈ s.kmemCaches,
      custody { s with kmemCaches := .object addr :: s.kmemCaches } live d =
        custody s (live + Pi.single .cacheCache {addr}) d := by
    intro d _
    rw [custody, all, more, Pi.single_add, custody]
    show (live + contents s + _ + _) d = _
    simp only [Pi.add_apply]
    abel
  refine ⟨List.nodup_cons.mpr ⟨outside, ok.nodup⟩, by simp [ok.cacheCache],
    by simp [ok.magazineCache], ⟨fun d there => ?_, ?_⟩, fun d there => ?_⟩
  · rcases List.mem_cons.mp there with rfl | there
    · refine ⟨?_, ?_, ?_, ?_, ?_, ?_, ?_⟩
      · show (s.caches _).layout.Fits
        rw [setup]
        exact fits
      · show (s.caches _).slabPages.Nodup
        simp [noPages]
      · show ∀ p ∈ (s.caches _).slabPages, _
        simp [noPages]
      · show ∀ p ∈ (s.caches _).emptySlabs, _
        simp [setup, cacheSetup]
      · show ∀ p ∈ (s.caches _).fullSlabs, _
        simp [setup, cacheSetup]
      · show ∀ p ∈ (s.caches _).partialSlabs, _
        simp [setup, cacheSetup]
      · have nothing : handed s (.object addr) = 0 := by simp [handed, noPages]
        show custody { s with kmemCaches := .object addr :: s.kmemCaches } live (.object addr) =
          handed s (.object addr)
        rw [nothing]
        simp only [custody, Pi.add_apply, idle]
        simp [contents, noMags]
    · rw [balance d there]
      exact (ok.slabs.cache d there).frame (.refl _) rfl
        ⟨fun _ _ => rfl, fun _ _ => rfl, fun _ _ => rfl⟩
  · obtain ⟨low, freeNodup, free, wholeNodup, client, complete⟩ := ok.slabs.pages
    refine ⟨low, freeNodup, free, wholeNodup, client, fun p managed => ?_⟩
    rcases complete p managed with listed | held | ⟨d, there, inside⟩
    · exact Or.inl listed
    · exact Or.inr (Or.inl held)
    · exact Or.inr (Or.inr ⟨d, by simp [there], inside⟩)
  · rcases List.mem_cons.mp there with rfl | there
    · refine ⟨?_, ?_, ?_, ?_, by rintro ⟨⟩⟩
      · show ∀ i m, (s.caches _).loaded i = some m → _
        simp [setup, cacheSetup]
      · show ∀ i m, (s.caches _).previous i = some m → _
        simp [setup, cacheSetup]
      · show ∀ m ∈ (s.caches _).fullMags, _
        simp [setup, cacheSetup]
      · show ∀ m ∈ (s.caches _).emptyMags, _
        simp [setup, cacheSetup]
    · exact (ok.mags d there).congr (.refl _) fun _ _ => rfl

/-- A cache has been created, or there is none. -/
inductive Created (s : AllocState) (live : CacheRef → Multiset Nat) (whole : Multiset Nat)
    (size align : BitVec 64) : Option CacheRef → AllocState → Prop
  | none {t : AllocState} (list : t.kmemCaches = s.kmemCaches) (ok : KmemOk t live whole) :
      Created s live whole size align none t
  | some {t : AllocState} (addr : Nat) (list : t.kmemCaches = .object addr :: s.kmemCaches)
      (setup : (t.caches (.object addr)).layout = cacheLayout size align)
      (ok : KmemOk t live whole) : Created s live whole size align (some (.object addr)) t

theorem kmemCacheCreate_yields (cpu : Fin NCPU_MAX) (ok : KmemOk s live whole)
    (idle : ∀ c, c ∉ s.kmemCaches → live c = 0) (locks : PageLocks s)
    (unlocked : .cache .cacheCache ∉ s.held) (internal : .cache .magazineCache ∉ s.held)
    (fits : (cacheLayout size align).slotsPerSlab ≠ 0 → (cacheLayout size align).Fits) :
    Yields (kmemCacheCreate cpu size align) s fun r t =>
      t.held = s.held ∧ t.managed = s.managed ∧
        (∀ c ∈ s.kmemCaches, (t.caches c).layout = (s.caches c).layout) ∧
          Created s live whole size align r t := by
  unfold kmemCacheCreate
  split
  · exact .ret ⟨rfl, rfl, fun _ _ => rfl, .none rfl ok⟩
  · have free : ¬ GrowStuck (s.lock (.cache .cacheCache)) .cacheCache := by
      rintro ⟨-, -, -, taken, -⟩
      simp [AllocState.lock, internal] at taken
    refine (allocDirect_yields ok unlocked locks ok.cacheCache free).bind ?_
    rintro _ t ⟨frame, ⟨rfl, ok⟩ | ⟨addr, rfl, ok⟩⟩
    · exact .ret ⟨frame.held, frame.managed, fun c _ => frame.layout c, .none frame.kmemCaches ok⟩
    · have outside := ok.object_notMem
      have away : CacheRef.object addr ∉ s.kmemCaches := by rwa [← frame.kmemCaches]
      refine .update_bind ?_
      have setup := ok.updateOther (f := fun _ => cacheSetup size align) outside
      have layouts : ∀ c ∈ s.kmemCaches,
          ((t.updateCache (.object addr) fun _ => cacheSetup size align).caches c).layout =
            (s.caches c).layout := by
        intro c there
        have distinct : c ≠ .object addr := by
          rintro rfl
          exact away there
        simp [AllocState.updateCache, distinct, frame.layout c]
      split
      · have layer := setup.slabs
        rw [← custody_add] at layer
        have open_ : Lock.cache .cacheCache ∉
            (t.updateCache (.object addr) fun _ => cacheSetup size align).held := by
          show _ ∉ t.held
          rwa [frame.held]
        refine (freeDirect_yields setup.cacheCache open_ layer).bind ?_
        rintro - r ⟨layer, quiet, magazines, -⟩
        refine .ret ⟨quiet.held.trans frame.held, quiet.managed.trans frame.managed, fun c there => ?_,
          .none (quiet.kmemCaches.trans frame.kmemCaches) (setup.quiet quiet magazines layer)⟩
        rw [(quiet.depot c).layout]
        exact layouts c there
      · rename_i some_
        have idle' : live (.object addr) = 0 := idle _ away
        have open_ : Lock.kmemCaches ∉ t.held := by
          rw [frame.held]
          exact locks.list
        refine acquire_bind open_ (.update_bind (unlock_bind rfl (.ret ⟨frame.held, frame.managed, layouts,
            .some addr ?_ ?_ ?_⟩)))
        · show CacheRef.object addr :: t.kmemCaches = _
          rw [frame.kmemCaches]
        · simp [AllocState.updateCache, cacheSetup]
        · exact KmemOk.insertCache (s := t.updateCache (.object addr) fun _ => cacheSetup size align)
            setup idle' (fits some_) (by simp [AllocState.updateCache])

end Kmem

end Av6
