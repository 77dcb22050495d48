import Av6.MagazineDrain

/-!
# Reclaiming, and allocating a page

`kmem_reclaim` drains the depots and gives the empty slabs back.  It fails in one case
only: `magazine_cache` is locked by the caller, and a cache that is not locked has a
magazine in its depot.
-/

namespace Av6

namespace Kmem

open FallibleState

variable {s t r : AllocState} {c d : CacheRef} {m : Nat} {ms : List Nat} {k : Cache}
  {live : CacheRef → Multiset Nat} {whole : Multiset Nat}

/-- What reclaiming leaves alone: the magazines of the CPUs above all. -/
structure Frame (s t : AllocState) : Prop where
  held : t.held = s.held
  kmemCaches : t.kmemCaches = s.kmemCaches
  managed : t.managed = s.managed
  layout : ∀ c, (t.caches c).layout = (s.caches c).layout
  loaded : ∀ c, (t.caches c).loaded = (s.caches c).loaded
  previous : ∀ c, (t.caches c).previous = (s.caches c).previous
  magazines : ∀ c ∈ s.kmemCaches, ∀ i m,
    (s.caches c).loaded i = some m ∨ (s.caches c).previous i = some m →
      t.magazines m = s.magazines m

theorem Frame.refl (s : AllocState) : Frame s s :=
  ⟨rfl, rfl, rfl, fun _ => rfl, fun _ => rfl, fun _ => rfl, fun _ _ _ _ _ => rfl⟩

theorem Frame.trans (first : Frame s t) (second : Frame t r) : Frame s r := by
  refine ⟨second.held.trans first.held, second.kmemCaches.trans first.kmemCaches,
    second.managed.trans first.managed, fun c => (second.layout c).trans (first.layout c),
    fun c => (second.loaded c).trans (first.loaded c),
    fun c => (second.previous c).trans (first.previous c), ?_⟩
  intro c member i m there
  rw [second.magazines c (first.kmemCaches ▸ member) i m
    (by rwa [first.loaded, first.previous]), first.magazines c member i m there]

theorem Quiet.frame (quiet : Quiet s t) (magazines : t.magazines = s.magazines) : Frame s t :=
  ⟨quiet.held, quiet.kmemCaches, quiet.managed, fun c => (quiet.depot c).layout,
    fun c => (quiet.depot c).loaded, fun c => (quiet.depot c).previous,
    fun _ _ _ _ _ => by rw [magazines]⟩

theorem MagazinesOk.congr (ok : MagazinesOk s c) (depot : SameDepot (s.caches c) (t.caches c))
    (entries : ∀ m ∈ (s.caches c).mags, t.magazines m = s.magazines m) : MagazinesOk t c := by
  refine ⟨?_, ?_, ?_, ?_, ?_⟩
  · intro i m there
    rw [depot.loaded] at there
    rw [entries m (mem_mags.mpr (Or.inl ⟨i, Or.inl there⟩))]
    exact ok.loaded i m there
  · intro i m there
    rw [depot.previous] at there
    rw [entries m (mem_mags.mpr (Or.inl ⟨i, Or.inr there⟩))]
    exact ok.previous i m there
  · intro m there
    rw [depot.fullMags] at there
    rw [entries m (mem_mags.mpr (Or.inr (Or.inl there)))]
    exact ok.full m there
  · intro m there
    rw [depot.emptyMags] at there
    rw [entries m (mem_mags.mpr (Or.inr (Or.inr there)))]
    exact ok.empty m there
  · intro internal
    rw [mags_of_sameDepot depot]
    exact ok.internal internal

theorem custody_add (s : AllocState) (live more : CacheRef → Multiset Nat) :
    custody s live + more = custody s (live + more) := by
  unfold custody
  abel

/-- A step of the slab layer. -/
theorem KmemOk.quiet (ok : KmemOk s live whole) {live' : CacheRef → Multiset Nat}
    {whole' : Multiset Nat} (quiet : Quiet s t) (magazines : t.magazines = s.magazines)
    (slabs : SlabLayer t s.kmemCaches (custody s live') whole' none) : KmemOk t live' whole' := by
  have list := quiet.kmemCaches
  refine ⟨by rw [list]; exact ok.nodup, by rw [list]; exact ok.cacheCache,
    by rw [list]; exact ok.magazineCache, ?_, ?_⟩
  · rw [list, custody_of_quiet quiet magazines]
    exact slabs
  · intro c member
    rw [list] at member
    exact (ok.mags c member).congr (quiet.depot c) fun m _ => by rw [magazines]

section Depot

variable (ok : KmemOk s live whole) (member : c ∈ s.kmemCaches)
include ok member

/-- Magazines in the depot of a cache are drained. -/
theorem KmemOk.drainLoop (remove : Nat → Cache → Cache) (shape : List Nat → Cache)
    (slabsKept : ∀ m k, SameSlabs k (remove m k))
    (shapeStep : ∀ m rest k, SameDepot (shape (m :: rest)) k → SameDepot (shape rest) (remove m k))
    (free : .cache .magazineCache ∉ s.held) (start : SameDepot (shape ms) (s.caches c))
    (layout : (shape []).layout = (s.caches c).layout)
    (loaded : (shape []).loaded = (s.caches c).loaded)
    (previous : (shape []).previous = (s.caches c).previous)
    (full : ∀ m ∈ (shape []).fullMags, m ∈ (s.caches c).fullMags)
    (empty : ∀ m ∈ (shape []).emptyMags, m ∈ (s.caches c).emptyMags)
    (less : (s.caches c).mags = ms + (shape []).mags) :
    Yields (ms.forM (drainOne remove c)) s fun _ t =>
      KmemOk t live whole ∧ Frame s t ∧ SameDepot (shape []) (t.caches c) ∧
        ∀ d, d ≠ c → SameDepot (s.caches d) (t.caches d) := by
  -- the state in which the cache has already lost the magazines, and nothing else has happened
  let f : Cache → Cache := fun k =>
    { k with fullMags := (shape []).fullMags, emptyMags := (shape []).emptyMags }
  have emptied : (f (s.caches c)).mags = (shape []).mags := by
    simp only [f, Cache.mags, Cache.cpuMags, loaded, previous]
  have nodup := (ok.mags_split member).1
  rw [less] at nodup
  have apart : ∀ m ∈ ms, m ∉ (shape []).mags := fun m here =>
    Multiset.disjoint_left.mp (Multiset.nodup_add.mp nodup).2.2 (by simpa using here)
  have outside : ∀ d ∈ s.kmemCaches, ∀ m ∈ ((s.updateCache c f).caches d).mags, m ∉ ms := by
    intro d there m inside listed
    by_cases same : d = c
    · subst same
      simp only [AllocState.updateCache, Function.update_self, emptied] at inside
      exact apart m listed inside
    · simp only [AllocState.updateCache, Function.update_of_ne same] at inside
      refine same (ok.mags_inj member there ?_ inside)
      rw [less]
      exact Multiset.mem_add.mpr (Or.inl (by simpa using listed))
  have given := ok.slabs
  rw [custody_give (f := f) ms live member ok.nodup (by rw [emptied]; exact less)] at given
  refine (drainLoop_yields remove slabsKept member ok.magazineCache shapeStep free
    (by simpa using (Multiset.nodup_add.mp nodup).1) given start).mono ?_
  rintro - t ⟨layer, here, drained⟩
  have list := drained.kmemCaches
  have depot : ∀ d, SameDepot ((s.updateCache c f).caches d) (t.caches d) := by
    intro d
    by_cases same : d = c
    · subst same
      simp only [AllocState.updateCache, Function.update_self]
      exact ⟨here.layout.trans layout, here.fullMags, here.emptyMags, here.loaded.trans loaded,
        here.previous.trans previous⟩
    · simp only [AllocState.updateCache, Function.update_of_ne same]
      exact drained.depot d same
  have entries : ∀ d ∈ s.kmemCaches, ∀ m ∈ ((s.updateCache c f).caches d).mags,
      t.magazines m = s.magazines m := fun d there m inside =>
    drained.magazines m (outside d there m inside)
  have smaller : ∀ d ∈ s.kmemCaches, MagazinesOk (s.updateCache c f) d := by
    intro d there
    by_cases same : d = c
    · subst same
      obtain ⟨loadedOk, previousOk, fullOk, emptyOk, internal⟩ := ok.mags d there
      refine ⟨?_, ?_, ?_, ?_, ?_⟩
      · simpa [AllocState.updateCache, f] using loadedOk
      · simpa [AllocState.updateCache, f] using previousOk
      · simpa [AllocState.updateCache, f] using fun m inside => fullOk m (full m inside)
      · simpa [AllocState.updateCache, f] using fun m inside => emptyOk m (empty m inside)
      · intro off
        have none_ := internal off
        rw [less] at none_
        simp only [AllocState.updateCache, Function.update_self, emptied]
        rw [add_comm] at none_
        exact Multiset.le_zero.mp (none_ ▸ Multiset.le_add_right ..)
    · exact (ok.mags d there).congr
        (by simpa [AllocState.updateCache, same] using .refl _) fun _ _ => rfl
  refine ⟨⟨by rw [list]; exact ok.nodup, by rw [list]; exact ok.cacheCache,
    by rw [list]; exact ok.magazineCache, ?_, ?_⟩, ⟨drained.held, list, drained.managed, ?_, ?_, ?_,
    ?_⟩, here, drained.depot⟩
  · rw [list]
    refine layer.congr_out fun d there => ?_
    exact custody_congr (s := s.updateCache c f) list
      (fun d _ => mags_of_sameDepot (depot d)) entries there
  · intro d there
    rw [list] at there
    exact (smaller d there).congr (depot d) (entries d there)
  · intro d
    rw [(depot d).layout]
    by_cases same : d = c <;> simp [AllocState.updateCache, same, f]
  · intro d
    rw [(depot d).loaded]
    by_cases same : d = c <;> simp [AllocState.updateCache, same, f]
  · intro d
    rw [(depot d).previous]
    by_cases same : d = c <;> simp [AllocState.updateCache, same, f]
  · intro d there i m inside
    refine entries d there m (mem_mags.mpr (Or.inl ⟨i, ?_⟩))
    by_cases same : d = c
    · subst same
      simpa [AllocState.updateCache, f] using inside
    · simpa [AllocState.updateCache, same] using inside

end Depot

/-- The depot of a cache is empty. -/
def NoDepot (s : AllocState) (c : CacheRef) : Prop :=
  (s.caches c).fullMags = [] ∧ (s.caches c).emptyMags = []

section Cache

variable (ok : KmemOk s live whole) (member : c ∈ s.kmemCaches)
include ok member

theorem KmemOk.releaseSlabs (free : .kmem ∉ s.held) :
    Yields ((s.caches c).emptySlabs.forM (releaseSlab c)) s fun _ t =>
      KmemOk t live whole ∧ Quiet s t ∧ t.magazines = s.magazines := by
  refine (releaseSlabs_yields member free ok.slabs).mono ?_
  rintro - t ⟨layer, quiet, magazines, -⟩
  exact ⟨ok.quiet quiet magazines layer, quiet, magazines⟩

theorem drainCache_yields (free : .cache .magazineCache ∉ s.held) (page : .kmem ∉ s.held) :
    Yields (drainCache c) s fun _ t => KmemOk t live whole ∧ Frame s t := by
  refine .read_bind ((ok.drainLoop member
    (fun m k => { k with fullMags := k.fullMags.erase m })
    (fun rest => { s.caches c with fullMags := rest }) (fun _ _ => ⟨rfl, rfl, rfl, rfl⟩)
    ?_ free (.refl _) rfl rfl rfl (by simp) (by simp) ?_).bind ?_)
  · rintro m rest k ⟨layout, full, empty, loaded, previous⟩
    exact ⟨layout, by simp [full], empty, loaded, previous⟩
  · simp only [Cache.mags, Cache.cpuMags, Multiset.coe_nil, zero_add]
    abel
  · rintro - t ⟨ok, frame, -, -⟩
    have held := frame.held
    have member : c ∈ t.kmemCaches := by rwa [frame.kmemCaches]
    refine .read_bind ((ok.drainLoop member
      (fun m k => { k with emptyMags := k.emptyMags.erase m })
      (fun rest => { t.caches c with emptyMags := rest }) (fun _ _ => ⟨rfl, rfl, rfl, rfl⟩)
      ?_ (by rwa [held]) (.refl _) rfl rfl rfl (by simp) (by simp) ?_).bind ?_)
    · rintro m rest k ⟨layout, full, empty, loaded, previous⟩
      exact ⟨layout, full, by simp [empty], loaded, previous⟩
    · simp only [Cache.mags, Cache.cpuMags, Multiset.coe_nil, add_zero]
      abel
    · rintro - r ⟨ok, frame', -, -⟩
      have member : c ∈ r.kmemCaches := by rwa [frame'.kmemCaches]
      refine .read_bind ((ok.releaseSlabs member (by rwa [frame'.held, held])).bind ?_)
      rintro - u ⟨ok, quiet, magazines⟩
      exact .ret ⟨ok, (frame.trans frame').trans (quiet.frame magazines)⟩

/-- Nothing to drain: only the slabs go. -/
theorem drainCache_quiet (drained : NoDepot s c) (page : .kmem ∉ s.held) :
    Yields (drainCache c) s fun _ t =>
      KmemOk t live whole ∧ Quiet s t ∧ t.magazines = s.magazines := by
  refine .read_bind ?_
  rw [drained.1]
  refine Yields.bind (P := fun _ t => s = t) (.ret rfl) ?_
  rintro - _ rfl
  refine .read_bind ?_
  rw [drained.2]
  refine Yields.bind (P := fun _ t => s = t) (.ret rfl) ?_
  rintro - _ rfl
  refine .read_bind ((ok.releaseSlabs member page).bind ?_)
  rintro - t done
  exact .ret done

theorem drainCache_fails (taken : .cache .magazineCache ∈ s.held) (filled : ¬ NoDepot s c) :
    Fails (drainCache c) s (.alreadyHeld (.cache .magazineCache)) := by
  have layer := ok.slabs
  by_cases full : (s.caches c).fullMags = []
  · have empty : (s.caches c).emptyMags ≠ [] := fun none_ => filled ⟨full, none_⟩
    refine .read_bind ?_
    rw [full]
    refine Yields.bind_fails (P := fun _ t => s = t) (.ret rfl) ?_
    rintro - _ rfl
    rw [custody_give (f := fun k => { k with emptyMags := [] }) (s.caches c).emptyMags live member
      ok.nodup] at layer
    · exact .read_bind (Fails.bind (drainLoop_fails
        (fun m k => { k with emptyMags := k.emptyMags.erase m })
        (fun _ _ => ⟨rfl, rfl, rfl, rfl⟩) member taken empty layer))
    · simp only [Cache.mags, Cache.cpuMags, Multiset.coe_nil, add_zero]
      abel
  · rw [custody_give (f := fun k => { k with fullMags := [] }) (s.caches c).fullMags live member
      ok.nodup] at layer
    · exact .read_bind (Fails.bind (drainLoop_fails
        (fun m k => { k with fullMags := k.fullMags.erase m })
        (fun _ _ => ⟨rfl, rfl, rfl, rfl⟩) member taken full layer))
    · simp only [Cache.mags, Cache.cpuMags, Multiset.coe_nil, zero_add]
      abel

end Cache

/-- The invariant does not look at the locks. -/
theorem KmemOk.setHeld (ok : KmemOk s live whole) (held : List Lock) :
    KmemOk { s with held := held } live whole :=
  ⟨ok.nodup, ok.cacheCache, ok.magazineCache,
    ok.slabs.congr (fun _ => .refl _) rfl rfl rfl rfl rfl,
    fun c member => (ok.mags c member).congr (.refl _) fun _ _ => rfl⟩

theorem MagazinesOk.noDepot (ok : MagazinesOk s c) (internal : c.useMag = false) :
    NoDepot s c := by
  have none_ : ∀ m, m ∉ (s.caches c).mags := by simp [ok.internal internal]
  simp only [mem_mags, not_or] at none_
  exact ⟨List.eq_nil_iff_forall_not_mem.mpr fun m => (none_ m).2.1,
    List.eq_nil_iff_forall_not_mem.mpr fun m => (none_ m).2.2⟩

/-- The loop over the caches, if `magazine_cache` is not locked. -/
theorem reclaimCaches_yields (list : List CacheRef) (known : ∀ c ∈ list, c ∈ s.kmemCaches)
    (ok : KmemOk s live whole) (free : .cache .magazineCache ∉ s.held) (page : .kmem ∉ s.held) :
    Yields (reclaimCaches list) s fun _ t => KmemOk t live whole ∧ Frame s t := by
  induction list generalizing s with
  | nil => exact .ret ⟨ok, .refl s⟩
  | cons c rest ih =>
      unfold reclaimCaches
      refine .read_bind ?_
      split
      · exact ih (fun d there => known d (by simp [there])) ok free page
      · rename_i unlocked
        have member := known c (by simp)
        refine Yields.bind (acquire_bind unlocked (.ret (Q := fun _ t =>
          t = { s with held := .cache c :: s.held }) rfl)) ?_
        rintro - _ rfl
        have page' : Lock.kmem ∉ Lock.cache c :: s.held := by simp [page]
        have drain : Yields (drainCache c) { s with held := .cache c :: s.held } fun _ t =>
            KmemOk t live whole ∧ Frame { s with held := .cache c :: s.held } t := by
          by_cases self : c = .magazineCache
          · subst self
            have none_ : NoDepot { s with held := .cache .magazineCache :: s.held }
                .magazineCache := (ok.mags _ member).noDepot rfl
            refine (drainCache_quiet (ok.setHeld (.cache .magazineCache :: s.held)) member none_
              page').mono ?_
            rintro - t ⟨ok, quiet, magazines⟩
            exact ⟨ok, quiet.frame magazines⟩
          · exact drainCache_yields (ok.setHeld _) member (by simp [free, Ne.symm self]) page'
        refine drain.bind ?_
        rintro freed t ⟨ok, frame⟩
        have held := frame.held
        refine release_bind (by simp [held]) ?_
        have frame' : Frame s { t with held := t.held.erase (.cache c) } :=
          ⟨by simp [held], frame.kmemCaches, frame.managed, frame.layout, frame.loaded,
            frame.previous, frame.magazines⟩
        refine (ih (fun d there => ?_) (ok.setHeld _) ?_ ?_).bind ?_
        · show d ∈ t.kmemCaches
          rw [frame.kmemCaches]
          exact known d (by simp [there])
        · rwa [frame'.held]
        · rwa [frame'.held]
        · rintro more r ⟨ok, frame⟩
          exact .ret ⟨ok, frame'.trans frame⟩

/-- The loop over the caches, if every depot that it comes to is empty. -/
theorem reclaimCaches_quiet (list : List CacheRef) (known : ∀ c ∈ list, c ∈ s.kmemCaches)
    (ok : KmemOk s live whole) (drained : ∀ c ∈ list, .cache c ∉ s.held → NoDepot s c)
    (page : .kmem ∉ s.held) :
    Yields (reclaimCaches list) s fun _ t =>
      KmemOk t live whole ∧ Quiet s t ∧ t.magazines = s.magazines := by
  induction list generalizing s with
  | nil => exact .ret ⟨ok, .refl s, rfl⟩
  | cons c rest ih =>
      unfold reclaimCaches
      refine .read_bind ?_
      split
      · exact ih (fun d there => known d (by simp [there])) ok
          (fun d there => drained d (by simp [there])) page
      · rename_i unlocked
        refine Yields.bind (acquire_bind unlocked (.ret (Q := fun _ t =>
          t = { s with held := .cache c :: s.held }) rfl)) ?_
        rintro - _ rfl
        refine (drainCache_quiet (ok.setHeld (.cache c :: s.held)) (known c (by simp))
          (drained c (by simp) unlocked) (by simp [page])).bind ?_
        rintro freed t ⟨ok, quiet, magazines⟩
        have held := quiet.held
        refine release_bind (by simp [held]) ?_
        have quiet' : Quiet s { t with held := t.held.erase (.cache c) } :=
          ⟨by simp [held], quiet.kmemCaches, quiet.managed, quiet.depot⟩
        refine (ih (fun d there => ?_) (ok.setHeld _) (fun d there free => ?_) ?_).bind ?_
        · show d ∈ t.kmemCaches
          rw [quiet.kmemCaches]
          exact known d (by simp [there])
        · rw [quiet'.held] at free
          obtain ⟨full, empty⟩ := drained d (by simp [there]) free
          exact ⟨(quiet.depot d).fullMags.trans full, (quiet.depot d).emptyMags.trans empty⟩
        · rwa [quiet'.held]
        · rintro more r ⟨ok, quiet, magazines'⟩
          exact .ret ⟨ok, quiet'.trans quiet, magazines'.trans magazines⟩

/-- The loop over the caches, if `magazine_cache` is locked and a depot is not empty. -/
theorem reclaimCaches_fails (list : List CacheRef) (known : ∀ c ∈ list, c ∈ s.kmemCaches)
    (ok : KmemOk s live whole) (taken : .cache .magazineCache ∈ s.held)
    (filled : ∃ c ∈ list, .cache c ∉ s.held ∧ ¬ NoDepot s c) (page : .kmem ∉ s.held) :
    Fails (reclaimCaches list) s (.alreadyHeld (.cache .magazineCache)) := by
  induction list generalizing s with
  | nil =>
      obtain ⟨c, ⟨⟩, -⟩ := filled
  | cons c rest ih =>
      unfold reclaimCaches
      refine .read_bind ?_
      split
      · rename_i locked
        refine ih (fun d there => known d (by simp [there])) ok taken ?_ page
        obtain ⟨d, there, free, some_⟩ := filled
        rcases List.mem_cons.mp there with rfl | there
        · exact (free locked).elim
        · exact ⟨d, there, free, some_⟩
      · rename_i unlocked
        refine Yields.bind_fails (acquire_bind unlocked (.ret (Q := fun _ t =>
          t = { s with held := .cache c :: s.held }) rfl)) ?_
        rintro - _ rfl
        by_cases here : NoDepot s c
        · refine (drainCache_quiet (ok.setHeld (.cache c :: s.held)) (known c (by simp))
            here (by simp [page])).bind_fails ?_
          rintro freed t ⟨ok, quiet, magazines⟩
          have held := quiet.held
          have quiet' : Quiet s { t with held := t.held.erase (.cache c) } :=
            ⟨by simp [held], quiet.kmemCaches, quiet.managed, quiet.depot⟩
          refine Yields.bind_fails (release_yields (Q := fun _ r =>
            r = { t with held := t.held.erase (.cache c) }) (by simp [held]) rfl) ?_
          rintro - _ rfl
          refine Fails.bind (ih (fun d there => ?_) (ok.setHeld _) ?_ ?_ ?_)
          · show d ∈ t.kmemCaches
            rw [quiet.kmemCaches]
            exact known d (by simp [there])
          · rwa [quiet'.held]
          · obtain ⟨d, there, free, some_⟩ := filled
            rcases List.mem_cons.mp there with rfl | there
            · exact (some_ here).elim
            · refine ⟨d, there, by rwa [quiet'.held], fun none_ => some_ ?_⟩
              exact ⟨(quiet.depot d).fullMags.symm.trans none_.1,
                (quiet.depot d).emptyMags.symm.trans none_.2⟩
          · rwa [quiet'.held]
        · exact Fails.bind (drainCache_fails (ok.setHeld (.cache c :: s.held)) (known c (by simp))
            (by simp [taken]) here)

end Kmem

end Av6
