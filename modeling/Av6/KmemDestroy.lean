import Av6.KmemCreate

/-!
# Destroying a cache

`kmem_cache_destroy` takes the cache off the list, drains the magazines of every CPU and
of the depot, gives the slabs back and frees the cache itself.  It stops if a client
still has an object of the cache.
-/

namespace Av6

namespace Kmem

open FallibleState

variable {s t r : AllocState} {c : CacheRef} {addr m : Nat} {live : CacheRef → Multiset Nat}
  {whole others : Multiset Nat} {cpu : Fin NCPU_MAX} {f : Cache → Cache} {caches : List CacheRef}
  {rest : CacheRef → Multiset Nat}

/-- The cache `c` is being drained since the state `s`; `rest` are the objects in other
hands than those of its magazines. -/
structure Draining (s : AllocState) (c : CacheRef) (caches : List CacheRef)
    (rest : CacheRef → Multiset Nat) (whole : Multiset Nat) (t : AllocState) : Prop where
  slabs : SlabLayer t caches (rest + Pi.single .magazineCache (t.caches c).mags +
    Pi.single c (contents t c)) whole none
  nodup : (t.caches c).mags.Nodup
  held : t.held = s.held
  kmemCaches : t.kmemCaches = s.kmemCaches
  managed : t.managed = s.managed
  depot : ∀ d, d ≠ c → SameDepot (s.caches d) (t.caches d)
  layout : (t.caches c).layout = (s.caches c).layout
  magazines : ∀ m, m ∉ (s.caches c).mags → t.magazines m = s.magazines m
  among : ∀ m ∈ (t.caches c).mags, m ∈ (s.caches c).mags

section Step

variable (draining : Draining s c caches rest whole t) (split : (t.caches c).mags = {m} + others)
include draining split

theorem Draining.give : SlabLayer t caches (rest + Pi.single .magazineCache others +
    Pi.single c (others.bind fun m => (t.magazines m : Multiset Nat)) +
      Pi.single .magazineCache {m} + Pi.single c (t.magazines m : Multiset Nat)) whole none := by
  have layer := draining.slabs
  rw [contents, split, Multiset.add_bind, Multiset.singleton_bind, Pi.single_add,
    Pi.single_add] at layer
  refine layer.congr_out fun d _ => ?_
  simp only [Pi.add_apply]
  abel

/-- One magazine less. -/
theorem Draining.step (layer : SlabLayer r caches (rest + Pi.single .magazineCache others +
      Pi.single c (others.bind fun m => (t.magazines m : Multiset Nat))) whole none)
    (quiet : Quiet (t.updateCache c f) r)
    (magazines : r.magazines = Function.update t.magazines m [])
    (layout : (f (t.caches c)).layout = (t.caches c).layout)
    (fewer : (f (t.caches c)).mags = others) : Draining s c caches rest whole r := by
  have here := quiet.depot c
  simp only [AllocState.updateCache, Function.update_self] at here
  have mags : (r.caches c).mags = others := (mags_of_sameDepot here).trans fewer
  have nodup := draining.nodup
  rw [split, Multiset.singleton_add, Multiset.nodup_cons] at nodup
  have inside : contents r c = others.bind fun m => (t.magazines m : Multiset Nat) := by
    rw [contents, mags]
    refine Multiset.bind_congr fun m' there => ?_
    have distinct : m' ≠ m := by
      rintro rfl
      exact nodup.1 there
    rw [magazines, Function.update_of_ne distinct]
  refine ⟨by rwa [mags, inside], by rw [mags]; exact nodup.2, quiet.held.trans draining.held,
    quiet.kmemCaches.trans draining.kmemCaches, quiet.managed.trans draining.managed, ?_,
    here.layout.trans (layout.trans draining.layout), ?_, ?_⟩
  · intro d distinct
    have there := quiet.depot d
    simp only [AllocState.updateCache, Function.update_of_ne distinct] at there
    exact (draining.depot d distinct).trans there
  · intro m' outside
    have distinct : m' ≠ m := by
      rintro rfl
      exact outside (draining.among m' (by simp [split]))
    rw [magazines, Function.update_of_ne distinct]
    exact draining.magazines m' outside
  · intro m' there
    rw [mags] at there
    exact draining.among m' (by simp [split, there])

end Step

section Loops

variable (draining : Draining s c caches rest whole t) (member : c ∈ caches)
  (internal : .magazineCache ∈ caches) (free : .cache .magazineCache ∉ s.held)
include draining member internal free

/-- A magazine leaves its place and is drained then. -/
theorem Draining.removeDrain (split : (t.caches c).mags = {m} + (f (t.caches c)).mags)
    (slabsKept : ∀ k, SameSlabs k (f k)) :
    Yields (do modify (·.updateCache c f); drainMagazine c m) t fun _ r =>
      Draining s c caches rest whole r ∧ SameDepot (f (t.caches c)) (r.caches c) := by
  have removed := (draining.give split).updateDepot (c := c) (m := m) (fun _ => f)
    fun _ => slabsKept
  have unlocked : Lock.cache .magazineCache ∉ (t.updateCache c f).held := by
    show _ ∉ t.held
    rwa [draining.held]
  refine .update_bind ((drainMagazine_yields member internal removed unlocked).mono ?_)
  rintro - r ⟨layer, quiet, magazines, -⟩
  refine ⟨draining.step split layer quiet magazines (slabsKept _).layout rfl, ?_⟩
  have here := quiet.depot c
  simpa only [AllocState.updateCache, Function.update_self] using here

/-- A magazine is drained and leaves its place then. -/
theorem Draining.drainRemove (split : (t.caches c).mags = {m} + (f (t.caches c)).mags)
    (slabsKept : ∀ k, SameSlabs k (f k))
    (depotOnly : ∀ k k', SameDepot k k' → SameDepot (f k) (f k')) :
    Yields (do drainMagazine c m; modify (·.updateCache c f)) t fun _ r =>
      Draining s c caches rest whole r ∧ SameDepot (f (t.caches c)) (r.caches c) := by
  have unlocked : Lock.cache .magazineCache ∉ t.held := by rwa [draining.held]
  refine (drainMagazine_yields member internal (draining.give split) unlocked).bind ?_
  rintro - r ⟨layer, quiet, magazines, -⟩
  have removed := layer.updateDepot (c := c) (m := m) (fun _ => f) fun _ => slabsKept
  have here : SameDepot (f (t.caches c)) ((r.updateCache c f).caches c) := by
    simpa only [AllocState.updateCache, Function.update_self] using depotOnly _ _ (quiet.depot c)
  have step : Quiet (t.updateCache c f) (r.updateCache c f) := by
    refine ⟨quiet.held, quiet.kmemCaches, quiet.managed, fun d => ?_⟩
    by_cases same : d = c
    · subst same
      simpa only [AllocState.updateCache, Function.update_self] using here
    · simpa only [AllocState.updateCache, Function.update_of_ne same] using quiet.depot d
  exact .update ⟨draining.step split removed step magazines (slabsKept _).layout rfl, here⟩

end Loops

theorem sum_slotMag_update (slots : Fin NCPU_MAX → Option Nat) (cpu : Fin NCPU_MAX) :
    ∑ i, slotMag (slots i) =
      slotMag (slots cpu) + ∑ i, slotMag (Function.update slots cpu none i) := by
  rw [← Finset.add_sum_erase _ _ (Finset.mem_univ cpu),
    ← Finset.add_sum_erase _ (fun i => slotMag (Function.update slots cpu none i))
      (Finset.mem_univ cpu), Function.update_self, slotMag_none, zero_add]
  refine congrArg _ (Finset.sum_congr rfl fun i there => ?_)
  rw [Function.update_of_ne (Finset.ne_of_mem_erase there)]

theorem mags_clearLoaded (k : Cache) (cpu : Fin NCPU_MAX) : k.mags = slotMag (k.loaded cpu) +
    ({ k with loaded := Function.update k.loaded cpu none } : Cache).mags := by
  simp only [Cache.mags, Cache.cpuMags, Finset.sum_add_distrib]
  rw [sum_slotMag_update k.loaded cpu]
  abel

theorem mags_clearPrevious (k : Cache) (cpu : Fin NCPU_MAX) : k.mags = slotMag (k.previous cpu) +
    ({ k with previous := Function.update k.previous cpu none } : Cache).mags := by
  simp only [Cache.mags, Cache.cpuMags, Finset.sum_add_distrib]
  rw [sum_slotMag_update k.previous cpu]
  abel

section Cpus

variable (member : c ∈ caches) (internal : .magazineCache ∈ caches)
  (free : .cache .magazineCache ∉ s.held)
include member internal free

theorem drainLoaded_yields (draining : Draining s c caches rest whole t) :
    Yields (drainLoaded c cpu) t fun _ r => Draining s c caches rest whole r ∧
      (r.caches c).loaded = Function.update (t.caches c).loaded cpu none ∧
        (r.caches c).previous = (t.caches c).previous := by
  refine .read_bind ?_
  cases here : (t.caches c).loaded cpu with
  | none => exact .ret ⟨draining, by rw [← here, Function.update_eq_self], rfl⟩
  | some m =>
      have split := mags_clearLoaded (t.caches c) cpu
      rw [here, slotMag_some] at split
      have depotOnly : ∀ k k', SameDepot k k' →
          SameDepot { k with loaded := Function.update k.loaded cpu none }
            { k' with loaded := Function.update k'.loaded cpu none } := fun k k' same =>
        ⟨same.layout, same.fullMags, same.emptyMags, by rw [same.loaded], same.previous⟩
      refine (draining.drainRemove
        (f := fun k => { k with loaded := Function.update k.loaded cpu none }) member internal free
        split (fun k => ⟨rfl, rfl, rfl, rfl⟩) depotOnly).mono ?_
      rintro - r ⟨draining, depot⟩
      exact ⟨draining, depot.loaded, depot.previous⟩

theorem drainPrevious_yields (draining : Draining s c caches rest whole t) :
    Yields (drainPrevious c cpu) t fun _ r => Draining s c caches rest whole r ∧
      (r.caches c).loaded = (t.caches c).loaded ∧
        (r.caches c).previous = Function.update (t.caches c).previous cpu none := by
  refine .read_bind ?_
  cases here : (t.caches c).previous cpu with
  | none => exact .ret ⟨draining, rfl, by rw [← here, Function.update_eq_self]⟩
  | some m =>
      have split := mags_clearPrevious (t.caches c) cpu
      rw [here, slotMag_some] at split
      have depotOnly : ∀ k k', SameDepot k k' →
          SameDepot { k with previous := Function.update k.previous cpu none }
            { k' with previous := Function.update k'.previous cpu none } := fun k k' same =>
        ⟨same.layout, same.fullMags, same.emptyMags, same.loaded, by rw [same.previous]⟩
      refine (draining.drainRemove
        (f := fun k => { k with previous := Function.update k.previous cpu none }) member internal
        free split (fun k => ⟨rfl, rfl, rfl, rfl⟩) depotOnly).mono ?_
      rintro - r ⟨draining, depot⟩
      exact ⟨draining, depot.loaded, depot.previous⟩

/-- The CPUs that the loop has been to have no magazine left. -/
theorem drainCpus_yields (draining : Draining s c caches rest whole t) :
    Yields ((List.finRange NCPU_MAX).forM (drainCpu c)) t fun _ r =>
      Draining s c caches rest whole r ∧
        ∀ i, (r.caches c).loaded i = none ∧ (r.caches c).previous i = none := by
  have loop := Yields.forM (b := drainCpu c) (s := t)
    (I := fun left r => Draining s c caches rest whole r ∧ ∀ i, i ∉ left →
      (r.caches c).loaded i = none ∧ (r.caches c).previous i = none) ?_ (List.finRange NCPU_MAX)
    ⟨draining, fun i outside => (outside (List.mem_finRange i)).elim⟩
  · refine loop.mono ?_
    rintro - r ⟨draining, done⟩
    exact ⟨draining, fun i => done i (by simp)⟩
  · rintro cpu left r ⟨draining, done⟩
    refine (drainLoaded_yields member internal free draining).bind ?_
    rintro - u ⟨draining, loaded, previous⟩
    refine (drainPrevious_yields member internal free draining).mono ?_
    rintro - v ⟨draining, loaded', previous'⟩
    refine ⟨draining, fun i outside => ?_⟩
    rw [loaded', loaded, previous', previous]
    by_cases same : i = cpu
    · subst same
      simp
    · rw [Function.update_of_ne same, Function.update_of_ne same]
      exact done i (by simp [same, outside])

theorem drainFulls_yields (draining : Draining s c caches rest whole t) :
    Yields ((t.caches c).fullMags.forM (drainFull c)) t fun _ r =>
      Draining s c caches rest whole r ∧
        SameDepot { t.caches c with fullMags := [] } (r.caches c) := by
  have loop := Yields.forM (b := drainFull c) (s := t)
    (I := fun left r => Draining s c caches rest whole r ∧
      SameDepot { t.caches c with fullMags := left } (r.caches c)) ?_ (t.caches c).fullMags
    ⟨draining, .refl _⟩
  · exact loop
  · rintro m left r ⟨draining, depot⟩
    have listed : (r.caches c).fullMags = m :: left := depot.fullMags
    refine (draining.removeDrain (f := fun k => { k with fullMags := k.fullMags.erase m })
      member internal free ?_ fun k => ⟨rfl, rfl, rfl, rfl⟩).mono ?_
    · simp only [Cache.mags, Cache.cpuMags, listed, List.erase_cons_head]
      rw [← Multiset.cons_coe, ← Multiset.singleton_add]
      abel
    · rintro - u ⟨draining, depot'⟩
      refine ⟨draining, ⟨depot'.layout.trans depot.layout, ?_, depot'.emptyMags.trans depot.emptyMags,
        depot'.loaded.trans depot.loaded, depot'.previous.trans depot.previous⟩⟩
      rw [depot'.fullMags, listed, List.erase_cons_head]

theorem drainEmpties_yields (draining : Draining s c caches rest whole t) :
    Yields ((t.caches c).emptyMags.forM (drainEmpty c)) t fun _ r =>
      Draining s c caches rest whole r ∧
        SameDepot { t.caches c with emptyMags := [] } (r.caches c) := by
  have loop := Yields.forM (b := drainEmpty c) (s := t)
    (I := fun left r => Draining s c caches rest whole r ∧
      SameDepot { t.caches c with emptyMags := left } (r.caches c)) ?_ (t.caches c).emptyMags
    ⟨draining, .refl _⟩
  · exact loop
  · rintro m left r ⟨draining, depot⟩
    have listed : (r.caches c).emptyMags = m :: left := depot.emptyMags
    refine (draining.removeDrain (f := fun k => { k with emptyMags := k.emptyMags.erase m })
      member internal free ?_ fun k => ⟨rfl, rfl, rfl, rfl⟩).mono ?_
    · simp only [Cache.mags, Cache.cpuMags, listed, List.erase_cons_head]
      rw [← Multiset.cons_coe, ← Multiset.singleton_add]
      abel
    · rintro - u ⟨draining, depot'⟩
      refine ⟨draining, ⟨depot'.layout.trans depot.layout, depot'.fullMags.trans depot.fullMags, ?_,
        depot'.loaded.trans depot.loaded, depot'.previous.trans depot.previous⟩⟩
      rw [depot'.emptyMags, listed, List.erase_cons_head]

end Cpus

/-- The magazines are gone. -/
def Cache.clear (k : Cache) : Cache :=
  { k with fullMags := [], emptyMags := [], loaded := fun _ => none, previous := fun _ => none }

theorem mags_eq_zero {k : Cache} (loaded : ∀ i, k.loaded i = none)
    (previous : ∀ i, k.previous i = none) (full : k.fullMags = []) (empty : k.emptyMags = []) :
    k.mags = 0 := by
  simp [Cache.mags, Cache.cpuMags, loaded, previous, full, empty]

/-- The state as it would be without the cache. -/
def AllocState.without (s : AllocState) (c : CacheRef) : AllocState :=
  { s with kmemCaches := s.kmemCaches.erase c }.updateCache c Cache.clear

theorem custody_without (member : .object addr ∈ s.kmemCaches) (nodup : s.kmemCaches.Nodup) :
    custody s live = custody (s.without (.object addr)) live + Pi.single .cacheCache {addr} +
      Pi.single .magazineCache (s.caches (.object addr)).mags +
        Pi.single (.object addr) (contents s (.object addr)) := by
  have cleared : ((s.caches (.object addr)).clear).mags = 0 :=
    mags_eq_zero (fun _ => rfl) (fun _ => rfl) rfl rfl
  have given := custody_give (s := s) (f := Cache.clear) (s.caches (.object addr)).mags.toList live
    member nodup (by simp [cleared])
  have inside : ((s.caches (.object addr)).mags.toList.flatMap s.magazines : Multiset Nat) =
      contents s (.object addr) := by
    rw [← Multiset.coe_bind, Multiset.coe_toList, contents]
  have all : allMags (s.updateCache (.object addr) Cache.clear) =
      allMags (s.without (.object addr)) := by
    have gone : ((s.updateCache (.object addr) Cache.clear).caches (.object addr)).mags = 0 := by
      simpa [AllocState.updateCache] using cleared
    have split := List.sum_map_erase
      (fun d => ((s.updateCache (.object addr) Cache.clear).caches d).mags) member
    rw [gone, zero_add] at split
    exact split.symm
  have fewer : created s = {addr} + created (s.without (.object addr)) := by
    have order : s.kmemCaches.Perm (.object addr :: s.kmemCaches.erase (.object addr)) :=
      List.perm_cons_erase member
    exact Multiset.coe_eq_coe.mpr (order.filterMap _)
  rw [given, inside, Multiset.coe_toList]
  have same : custody (s.updateCache (.object addr) Cache.clear) live =
      custody (s.without (.object addr)) live + Pi.single .cacheCache {addr} := by
    rw [custody, all, show created (s.updateCache (.object addr) Cache.clear) = created s from rfl,
      fewer, Pi.single_add, custody]
    show live + contents (s.without (.object addr)) + _ + _ = _
    abel
  rw [same]

section Ends

variable (ok : KmemOk s live whole) (member : .object addr ∈ s.kmemCaches)
include ok member

/-- The cache is off the list. -/
theorem KmemOk.startDraining (held : List Lock) :
    Draining { s with kmemCaches := s.kmemCaches.erase (.object addr), held := held }
      (.object addr) s.kmemCaches
      (custody (s.without (.object addr)) live + Pi.single .cacheCache {addr}) whole
      { s with kmemCaches := s.kmemCaches.erase (.object addr), held := held } := by
  refine ⟨?_, (ok.mags_split member).1, rfl, rfl, rfl, fun _ _ => .refl _, rfl, fun _ _ => rfl,
    fun _ => id⟩
  have layer := ok.slabs
  rw [custody_without member ok.nodup] at layer
  exact layer.congr (fun _ => .refl _) rfl rfl rfl rfl rfl

/-- The cache has no magazine and no slab left. -/
theorem Draining.finish {held : List Lock}
    (draining : Draining
      { s with kmemCaches := s.kmemCaches.erase (.object addr), held := held } (.object addr)
      s.kmemCaches (custody (s.without (.object addr)) live + Pi.single .cacheCache {addr}) whole t)
    (drained : (t.caches (.object addr)).mags = 0)
    (gone : (t.caches (.object addr)).slabPages = []) :
    KmemOk t (live + Pi.single .cacheCache {addr}) whole ∧ live (.object addr) = 0 := by
  have list : t.kmemCaches = s.kmemCaches.erase (.object addr) := draining.kmemCaches
  have layer := draining.slabs
  rw [contents, drained, Multiset.zero_bind, Pi.single_zero, Pi.single_zero, add_zero,
    add_zero] at layer
  have apart : ∀ d ∈ s.kmemCaches.erase (.object addr), d ≠ .object addr ∧ d ∈ s.kmemCaches :=
    fun d there => ok.nodup.mem_erase_iff.mp there
  have others : ∀ d ∈ s.kmemCaches.erase (.object addr), SameDepot (s.caches d) (t.caches d) :=
    fun d there => draining.depot d (apart d there).1
  have entries : ∀ d ∈ s.kmemCaches.erase (.object addr), ∀ m ∈ (s.caches d).mags,
      t.magazines m = s.magazines m := by
    intro d there m inside
    exact draining.magazines m fun here =>
      (apart d there).1 (ok.mags_inj member (apart d there).2 here inside)
  have same : ∀ d ∈ s.kmemCaches.erase (.object addr),
      (s.without (.object addr)).caches d = s.caches d := by
    intro d there
    exact Function.update_of_ne (apart d there).1 ..
  refine ⟨⟨by rw [list]; exact ok.nodup.erase _, ?_, ?_, ⟨fun d there => ?_, ?_⟩,
    fun d there => ?_⟩, ?_⟩
  · rw [list]
    exact (List.mem_erase_of_ne (by simp)).mpr ok.cacheCache
  · rw [list]
    exact (List.mem_erase_of_ne (by simp)).mpr ok.magazineCache
  · rw [list] at there
    have balance : custody t live d = custody (s.without (.object addr)) live d := by
      refine custody_congr list (fun e inside => ?_) (fun e inside m listed => ?_) there
      · rw [mags_of_sameDepot (others e inside), same e inside]
      · rw [same e inside] at listed
        exact entries e inside m listed
    rw [← custody_add, Pi.add_apply, balance]
    exact layer.cache d (apart d there).2
  · obtain ⟨low, freeNodup, free, wholeNodup, client, complete⟩ := layer.pages
    refine ⟨low, freeNodup, free, wholeNodup, client, fun p managed => ?_⟩
    rcases complete p managed with listed | held | ⟨d, there, inside⟩
    · exact Or.inl listed
    · exact Or.inr (Or.inl held)
    · have distinct : d ≠ .object addr := by
        rintro rfl
        simp [gone] at inside
      exact Or.inr (Or.inr ⟨d, by rw [list]; exact (List.mem_erase_of_ne distinct).mpr there,
        inside⟩)
  · rw [list] at there
    exact (ok.mags d (apart d there).2).congr (others d there) (entries d there)
  · have objects := (layer.cache _ member).objects
    rw [handed, gone, Multiset.coe_nil, Multiset.zero_bind] at objects
    refine Multiset.le_zero.mp ?_
    rw [← objects]
    simp only [custody, Pi.add_apply, add_assoc]
    exact Multiset.le_add_right ..

end Ends

theorem Draining.quiet (draining : Draining s c caches rest whole t) (quiet : Quiet t r)
    (magazines : r.magazines = t.magazines)
    (layer : SlabLayer r caches (rest + Pi.single .magazineCache (t.caches c).mags +
      Pi.single c (contents t c)) whole none) : Draining s c caches rest whole r := by
  have mags := mags_of_sameDepot (quiet.depot c)
  have inside : contents r c = contents t c := by rw [contents, mags, magazines, contents]
  refine ⟨by rwa [mags, inside], by rw [mags]; exact draining.nodup,
    quiet.held.trans draining.held, quiet.kmemCaches.trans draining.kmemCaches,
    quiet.managed.trans draining.managed,
    fun d distinct => (draining.depot d distinct).trans (quiet.depot d),
    (quiet.depot c).layout.trans draining.layout, ?_, ?_⟩
  · intro m outside
    rw [magazines]
    exact draining.magazines m outside
  · rw [mags]
    exact draining.among

/-- What is left of the state when a cache has been destroyed. -/
structure Destroyed (s : AllocState) (live : CacheRef → Multiset Nat) (whole : Multiset Nat)
    (addr : Nat) (t : AllocState) : Prop where
  held : t.held = s.held
  managed : t.managed = s.managed
  kmemCaches : t.kmemCaches = s.kmemCaches.erase (.object addr)
  layout : ∀ c, (t.caches c).layout = (s.caches c).layout
  idle : live (.object addr) = 0
  ok : KmemOk t live whole

/-- The state in which the drain of a cache begins. -/
def AllocState.detached (s : AllocState) (c : CacheRef) : AllocState :=
  { s with kmemCaches := s.kmemCaches.erase c, held := [.cache c] }

section Destroy

variable (ok : KmemOk s live whole) (member : .object addr ∈ s.kmemCaches) (none_ : s.held = [])
include ok member none_

theorem detachCache_yields : Yields (detachCache (.object addr)) s fun _ t =>
    Draining (s.detached (.object addr)) (.object addr) s.kmemCaches
      (custody (s.without (.object addr)) live + Pi.single .cacheCache {addr}) whole t ∧
        (t.caches (.object addr)).mags = 0 := by
  have internal := ok.magazineCache
  have away : Lock.cache .magazineCache ∉ (s.detached (.object addr)).held := by
    simp [AllocState.detached]
  refine acquire_bind (by simp [none_]) (.update_bind (unlock_bind rfl
    (acquire_bind (by simp [none_]) ?_)))
  rw [none_]
  refine (drainCpus_yields member internal away
    (ok.startDraining member [.cache (.object addr)])).bind ?_
  rintro - t ⟨draining, slots⟩
  refine .read_bind ((drainFulls_yields member internal away draining).bind ?_)
  rintro - u ⟨draining, depot⟩
  refine .read_bind ((drainEmpties_yields member internal away draining).mono ?_)
  rintro - v ⟨draining, depot'⟩
  refine ⟨draining, mags_eq_zero (fun i => ?_) (fun i => ?_) ?_ depot'.emptyMags⟩
  · rw [depot'.loaded]
    exact (congrFun depot.loaded i).trans (slots i).1
  · rw [depot'.previous]
    exact (congrFun depot.previous i).trans (slots i).2
  · exact depot'.fullMags.trans depot.fullMags

/-- With no slab in use the drain is followed by the release of the slabs and of the cache. -/
theorem kmemCacheDestroy_of_gone (runs : detachCache (.object addr) s = .ok ((), t))
    (draining : Draining (s.detached (.object addr)) (.object addr) s.kmemCaches
      (custody (s.without (.object addr)) live + Pi.single .cacheCache {addr}) whole t)
    (drained : (t.caches (.object addr)).mags = 0)
    (gone : (t.caches (.object addr)).partialSlabs = [] ∧
      (t.caches (.object addr)).fullSlabs = []) :
    Yields (kmemCacheDestroy cpu addr) s fun _ t => Destroyed s live whole addr t := by
  have held : t.held = [.cache (.object addr)] := draining.held
  refine (Yields.of_eq (Q := fun _ u => u = t) runs rfl).bind ?_
  rintro - _ rfl
  refine .read_bind (.check_bind gone ?_)
  refine (releaseSlabs_yields member (by simp [held]) draining.slabs).bind ?_
  rintro - r ⟨layer, quiet, magazines, empty, partly, full⟩
  have pages : (r.caches (.object addr)).slabPages = [] := by
    rw [Cache.slabPages, partly, full, empty, gone.1, gone.2]
    rfl
  have left := draining.quiet quiet magazines layer
  obtain ⟨ok', idle⟩ := left.finish ok member
    ((mags_of_sameDepot (quiet.depot _)).trans drained) pages
  refine unlock_bind left.held ?_
  have released := ok'.setHeld []
  have again := released.slabs
  rw [← custody_add] at again
  refine (freeDirect_yields released.cacheCache (by simp) again).mono ?_
  rintro - u ⟨layer, quiet', magazines', -⟩
  refine ⟨quiet'.held.trans none_.symm, quiet'.managed.trans left.managed,
    quiet'.kmemCaches.trans left.kmemCaches, fun d => ?_, idle,
    released.quiet quiet' magazines' layer⟩
  rw [(quiet'.depot d).layout]
  by_cases same : d = .object addr
  · rw [same]
    exact left.layout
  · exact (left.depot d same).layout

theorem kmemCacheDestroy_yields :
    Yields (kmemCacheDestroy cpu addr) s (fun _ t => Destroyed s live whole addr t) ∨
      Fails (kmemCacheDestroy cpu addr) s .liveObjects := by
  obtain ⟨_, t, runs, draining, drained⟩ := detachCache_yields ok member none_
  by_cases gone : (t.caches (.object addr)).partialSlabs = [] ∧
      (t.caches (.object addr)).fullSlabs = []
  · exact Or.inl (kmemCacheDestroy_of_gone ok member none_ runs draining drained gone)
  · refine Or.inr ((Yields.of_eq (Q := fun _ u => u = t) runs rfl).bind_fails ?_)
    rintro - _ rfl
    exact .read_bind (.check_bind gone)

end Destroy

end Kmem

end Av6
