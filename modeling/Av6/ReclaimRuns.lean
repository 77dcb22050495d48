import Av6.DrainMoves
import Av6.KmemAlloc
import Av6.KmemHeld

/-!
# What reclaiming gives back

What is true of every run of `kmem_reclaim` that ends, in whatever state it begins: it returns
the number of pages that it puts on the freelist, and it leaves nothing to drain in the caches
that it has been to.  Draining puts magazines back into `magazine_cache`, so this one has to
come after all caches with magazines.
-/

namespace Av6

namespace Kmem

open FallibleState

variable {s t u : AllocState} {c d : CacheRef} {n p : Nat} {list : List CacheRef}

section Relations

/-- No page has come to another place. -/
structure PagesKept (s t : AllocState) : Prop where
  freelist : t.freelist = s.freelist
  managed : t.managed = s.managed
  flags : t.flags = s.flags
  header : ∀ p, (t.slabs p).cache = (s.slabs p).cache

theorem PagesKept.of_slabs (freelist : t.freelist = s.freelist) (managed : t.managed = s.managed)
    (flags : t.flags = s.flags) (slabs : t.slabs = s.slabs) : PagesKept s t :=
  ⟨freelist, managed, flags, fun _ => by rw [slabs]⟩

instance : IsPreorder AllocState PagesKept where
  refl s := .of_slabs rfl rfl rfl rfl
  trans s t r first second := by
    constructor
    · exact second.freelist.trans first.freelist
    · exact second.managed.trans first.managed
    · exact second.flags.trans first.flags
    · exact fun p => (second.header p).trans (first.header p)

theorem pagesKept_steps (c : CacheRef) : DrainSteps PagesKept c where
  held _ _ := .of_slabs rfl rfl rfl rfl
  magazines _ _ := .of_slabs rfl rfl rfl rfl
  cache _ _ := .of_slabs rfl rfl rfl rfl
  putSlot s d p slot _ := by
    refine ⟨rfl, rfl, rfl, fun q => ?_⟩
    by_cases same : q = p
    · subst same
      simp [AllocState.putSlot]
    · simp [AllocState.putSlot, same]

/-- The cache has the same magazines. -/
def DepotKept (d : CacheRef) (s t : AllocState) : Prop :=
  SameDepot (s.caches d) (t.caches d)

instance : IsPreorder AllocState (DepotKept d) where
  refl _ := .refl _
  trans _ _ _ := SameDepot.trans

/-- Freeing leaves the magazines of every cache where they are. -/
theorem depotKept_free (c d : CacheRef) : FreeSteps (DepotKept d) c where
  held _ _ := .refl _
  magazines _ _ := .refl _
  putSlot s e p slot _ := (quiet_putSlot s e p slot).depot d

theorem depotKept_steps (apart : d ≠ c) : ReleaseSteps (DepotKept d) c where
  toFreeSteps := depotKept_free c d
  cache s f := by
    have other : (s.updateCache c f).caches d = s.caches d := Function.update_of_ne apart ..
    rw [DepotKept, other]
    exact .refl _
  pushFree _ _ := .refl _

/-- The cache is as it was. -/
def CacheKept (d : CacheRef) (s t : AllocState) : Prop :=
  t.caches d = s.caches d

instance : IsPreorder AllocState (CacheKept d) where
  refl _ := rfl
  trans _ _ _ first second := Eq.trans second first

/-- Draining changes the cache itself and `magazine_cache`, and no other. -/
theorem cacheKept_steps (apart : d ≠ c) (other : d ≠ .magazineCache) :
    ReleaseSteps (CacheKept d) c where
  held _ _ := rfl
  magazines _ _ := rfl
  putSlot s e p slot either := by
    have distinct : d ≠ e := by
      rcases either with rfl | rfl
      · exact apart
      · exact other
    exact Function.update_of_ne distinct ..
  cache s f := Function.update_of_ne apart ..
  pushFree _ _ := rfl

theorem acquire_eq {l : Lock} (runs : acquire l s = .ok ((), t)) :
    t = { s with held := l :: s.held } := by
  have taken : Moves (fun s t => t = { s with held := l :: s.held }) (acquire l) s :=
    .read_bind (.check_bind (.write rfl))
  exact taken () t runs

theorem release_eq {l : Lock} (runs : release l s = .ok ((), t)) :
    t = { s with held := s.held.erase l } := by
  have given : Moves (fun s t => t = { s with held := s.held.erase l }) (release l) s :=
    .read_bind (.check_bind (.write rfl))
  exact given () t runs

end Relations

/-- The freelist has that many pages more, in front. -/
def Grows (n : Nat) (s t : AllocState) : Prop :=
  ∃ freed, freed.length = n ∧ t.freelist = freed ++ s.freelist

theorem Grows.of_eq (same : t.freelist = s.freelist) : Grows 0 s t :=
  ⟨[], rfl, same⟩

theorem Grows.trans {more : Nat} {r : AllocState} (first : Grows n s t)
    (second : Grows more t r) : Grows (n + more) s r := by
  obtain ⟨freed, rfl, here⟩ := first
  obtain ⟨freed', rfl, there⟩ := second
  refine ⟨freed' ++ freed, ?_, ?_⟩
  · rw [List.length_append, Nat.add_comm]
  · rw [there, here, List.append_assoc]

section Slabs

/-- The pages have left the cache's list of empty slabs for the freelist. -/
structure Released (c : CacheRef) (ps : List Nat) (s t : AllocState) : Prop where
  freelist : t.freelist = ps.reverse ++ s.freelist
  caches : t.caches = Function.update s.caches c { s.caches c with emptySlabs := [] }

theorem kpageFree_pushes (vaddr : Nat) (s : AllocState) :
    Moves (fun s t => t.freelist = vaddr / PGSIZE :: s.freelist ∧ t.caches = s.caches)
      (kpageFree vaddr) s := by
  refine .check_bind (.read_bind (.check_bind ?_))
  have locked : Moves (fun s t => t = { s with held := .kmem :: s.held }) (acquire .kmem) s :=
    fun _ _ => acquire_eq
  refine locked.next ?_
  rintro - _ rfl
  refine .check_bind (.check_bind ?_)
  refine (Moves.update (R := fun s t => t = s.pushFree (vaddr / PGSIZE)) rfl).next ?_
  rintro - _ rfl
  intro _ r runs
  have unlocked := release_eq runs
  subst unlocked
  exact ⟨rfl, rfl⟩

theorem releaseSlab_pushes (c : CacheRef) (p : Nat) (s : AllocState) :
    Moves (fun s t => t.freelist = p :: s.freelist ∧ t.caches = Function.update s.caches c
      { s.caches c with emptySlabs := (s.caches c).emptySlabs.erase p }) (releaseSlab c p) s := by
  have page : p * PGSIZE / PGSIZE = p := Nat.mul_div_cancel p (by decide)
  refine (Moves.update (R := fun s t => t = s.updateCache c fun k =>
    { k with emptySlabs := k.emptySlabs.erase p }) rfl).next ?_
  rintro - _ rfl
  intro _ r runs
  obtain ⟨freelist, caches⟩ := kpageFree_pushes _ _ _ _ runs
  rw [page] at freelist
  exact ⟨freelist, caches⟩

/-- The loop over the empty slabs, each of which it removes. -/
theorem releaseSlabs_released (ps : List Nat) (s : AllocState)
    (listed : (s.caches c).emptySlabs = ps) :
    Moves (Released c ps) (ps.forM (releaseSlab c)) s := by
  induction ps generalizing s with
  | nil =>
      intro _ t runs
      cases runs
      refine ⟨rfl, ?_⟩
      have same : { s.caches c with emptySlabs := [] } = s.caches c := by rw [← listed]
      rw [same, Function.update_eq_self]
  | cons p rest ih =>
      refine (releaseSlab_pushes c p s).next ?_
      rintro - t ⟨freelist, caches⟩
      intro a r runs
      have left : (t.caches c).emptySlabs = rest := by
        rw [caches, Function.update_self, listed, List.erase_cons_head]
      have released := ih t left a r runs
      constructor
      · rw [released.freelist, freelist, List.reverse_cons, List.append_assoc]
        rfl
      · rw [released.caches, caches, Function.update_self, Function.update_idem]

end Slabs

section Cache

/-- The magazines of a list leave the cache, one after the other. -/
theorem drainLoop_depot (remove : Nat → Cache → Cache) (shape : List Nat → Cache)
    (shapeStep : ∀ m rest k, SameDepot (shape (m :: rest)) k → SameDepot (shape rest) (remove m k))
    (ms : List Nat) (s : AllocState) (start : SameDepot (shape ms) (s.caches c)) :
    Moves (fun _ t => SameDepot (shape []) (t.caches c)) (ms.forM (drainOne remove c)) s := by
  induction ms generalizing s with
  | nil =>
      intro _ t runs
      cases runs
      exact start
  | cons m rest ih =>
      have one : Moves (fun s t => SameDepot (remove m (s.caches c)) (t.caches c))
          (drainOne remove c m) s := by
        refine (Moves.update (R := fun s t => t = s.updateCache c (remove m)) rfl).next ?_
        rintro - _ rfl
        intro a r runs
        have kept := (depotKept_free c c).drainMagazine m _ a r runs
        simpa only [DepotKept, AllocState.updateCache, Function.update_self] using kept
      refine one.next fun _ t kept => ?_
      exact ih t ((shapeStep m rest _ start).trans kept)

/-- There is nothing in the cache that `kmem_reclaim` could give back. -/
structure Emptied (t : AllocState) (c : CacheRef) : Prop where
  depot : NoDepot t c
  slabs : (t.caches c).emptySlabs = []

theorem Emptied.congr (emptied : Emptied s c) (same : t.caches c = s.caches c) : Emptied t c := by
  obtain ⟨depot, slabs⟩ := emptied
  unfold NoDepot at depot
  rw [← same] at depot slabs
  exact ⟨depot, slabs⟩

/-- What a run of the three loops has done. -/
structure CacheDrained (c : CacheRef) (n : Nat) (s t : AllocState) : Prop where
  grows : Grows n s t
  emptied : Emptied t c
  elsewhere : ∀ d, d ≠ c → d ≠ .magazineCache ∨ NoDepot s c → t.caches d = s.caches d

theorem drainCache_drained (runs : drainCache c s = .ok (n, t)) : CacheDrained c n s t := by
  have whole := runs
  unfold drainCache at runs
  obtain ⟨_, _, read, runs⟩ := exists_of_bind runs
  cases read
  obtain ⟨_, u, fulls, runs⟩ := exists_of_bind runs
  obtain ⟨_, _, read, runs⟩ := exists_of_bind runs
  cases read
  obtain ⟨_, v, empties, runs⟩ := exists_of_bind runs
  obtain ⟨_, _, read, runs⟩ := exists_of_bind runs
  cases read
  obtain ⟨_, w, slabs, ends⟩ := exists_of_bind runs
  cases ends
  have noFull : SameDepot { s.caches c with fullMags := [] } (u.caches c) := by
    refine drainLoop_depot (fun m k => { k with fullMags := k.fullMags.erase m })
      (fun rest => { s.caches c with fullMags := rest }) ?_ _ s (.refl _) _ u fulls
    rintro m rest k ⟨layout, full, empty, loaded, previous⟩
    exact ⟨layout, by simp [full], empty, loaded, previous⟩
  have noEmpty : SameDepot { u.caches c with emptyMags := [] } (v.caches c) := by
    refine drainLoop_depot (fun m k => { k with emptyMags := k.emptyMags.erase m })
      (fun rest => { u.caches c with emptyMags := rest }) ?_ _ u (.refl _) _ v empties
    rintro m rest k ⟨layout, full, empty, loaded, previous⟩
    exact ⟨layout, full, by simp [empty], loaded, previous⟩
  have released := releaseSlabs_released _ v rfl _ t slabs
  have kept := (pagesKept_steps c)
  have first : u.freelist = s.freelist := (Moves.forM kept.drainFull _ s _ u fulls).freelist
  have second : v.freelist = u.freelist := (Moves.forM kept.drainEmpty _ u _ v empties).freelist
  have here : t.caches c = { v.caches c with emptySlabs := [] } := by
    rw [released.caches, Function.update_self]
  refine ⟨⟨(v.caches c).emptySlabs.reverse, List.length_reverse, ?_⟩, ⟨⟨?_, ?_⟩, ?_⟩, ?_⟩
  · rw [released.freelist, second, first]
  · rw [here]
    exact noEmpty.fullMags.trans noFull.fullMags
  · rw [here]
    exact noEmpty.emptyMags
  · rw [here]
  · rintro d apart (other | drained)
    · exact (cacheKept_steps apart other).drainCache s _ t whole
    · rw [drained.1] at fulls
      cases fulls
      rw [drained.2] at empties
      cases empties
      rw [released.caches, Function.update_of_ne apart]

end Cache

section List

/-- No cache with magazines comes after `magazine_cache`. -/
def MagazinesLast (list : List CacheRef) : Prop :=
  list.Pairwise fun c d => c = .magazineCache → d.useMag = false

theorem magazinesLast_cons (addr : Nat) (last : MagazinesLast list) :
    MagazinesLast (.object addr :: list) := by
  apply List.Pairwise.cons _ last
  intro d _ same
  cases same

theorem MagazinesLast.erase (last : MagazinesLast list) (c : CacheRef) :
    MagazinesLast (list.erase c) :=
  last.sublist List.erase_sublist

/-- A round of the loop over the caches, with the lock of the cache free. -/
theorem exists_round (unlocked : .cache c ∉ s.held)
    (runs : reclaimCaches (c :: list) s = .ok (n, t)) :
    ∃ freed more u, drainCache c { s with held := .cache c :: s.held } = .ok (freed, u) ∧
      reclaimCaches list { u with held := s.held } = .ok (more, t) ∧ n = freed + more := by
  unfold reclaimCaches at runs
  obtain ⟨_, _, read, runs⟩ := exists_of_bind runs
  cases read
  rw [if_neg unlocked] at runs
  obtain ⟨_, v, locked, runs⟩ := exists_of_bind runs
  obtain ⟨freed, u, drained, runs⟩ := exists_of_bind runs
  obtain ⟨_, w, unlock, runs⟩ := exists_of_bind runs
  obtain ⟨more, r, rest, ends⟩ := exists_of_bind runs
  cases ends
  obtain ⟨_, _, acquired, ends⟩ := exists_of_bind locked
  cases ends
  have here := acquire_eq acquired
  subst here
  have held : u.held = .cache c :: s.held := drainCache_sameHeld c _ freed u drained
  have there := release_eq unlock
  rw [held, List.erase_cons_head] at there
  subst there
  exact ⟨freed, more, u, drained, rest, rfl⟩

/-- What a run of the loop over the caches has done. -/
structure ListDrained (list : List CacheRef) (n : Nat) (s t : AllocState) : Prop where
  grows : Grows n s t
  emptied : ∀ c ∈ list, Emptied t c
  elsewhere : ∀ c, c ∉ list → c ≠ .magazineCache ∨ (∀ d ∈ list, NoDepot s d) →
    t.caches c = s.caches c

theorem reclaimCaches_drained (unlocked : ∀ c ∈ list, .cache c ∉ s.held) (nodup : list.Nodup)
    (last : MagazinesLast list) (internal : ∀ c ∈ list, c.useMag = false → NoDepot s c)
    (runs : reclaimCaches list s = .ok (n, t)) : ListDrained list n s t := by
  induction list generalizing s n with
  | nil =>
      cases runs
      exact ⟨.of_eq rfl, by simp, fun _ _ _ => rfl⟩
  | cons c rest ih =>
      obtain ⟨freed, more, u, first, left, rfl⟩ := exists_round (unlocked c (by simp)) runs
      obtain ⟨outside, nodup⟩ := List.nodup_cons.mp nodup
      obtain ⟨after, last⟩ := List.pairwise_cons.mp last
      have apart : ∀ d ∈ rest, d ≠ c := by
        rintro d there rfl
        exact outside there
      have round := drainCache_drained first
      have depot : ∀ d ∈ rest, NoDepot s d → NoDepot { u with held := s.held } d := by
        intro d there none
        have kept := (depotKept_steps (apart d there)).drainCache _ _ _ first
        exact ⟨kept.fullMags.trans none.1, kept.emptyMags.trans none.2⟩
      have others := ih (s := { u with held := s.held })
        (fun d there => unlocked d (by simp [there])) nodup last
        (fun d there off => depot d there (internal d (by simp [there]) off)) left
      constructor
      · exact Grows.trans round.grows others.grows
      · intro d there
        rcases List.mem_cons.mp there with rfl | there
        · -- the rest leaves the cache as it is, `magazine_cache` too
          refine Emptied.congr round.emptied (others.elsewhere d outside ?_)
          by_cases same : d = .magazineCache
          · right
            intro e inside
            exact depot e inside (internal e (by simp [inside]) (after e inside same))
          · exact .inl same
        · exact others.emptied d there
      · intro d outside' either
        rw [List.mem_cons, not_or] at outside'
        have here : u.caches d = s.caches d := by
          apply round.elsewhere d outside'.1
          exact either.imp_right fun none => none c (by simp)
        refine (others.elsewhere d outside'.2 ?_).trans here
        exact either.imp_right fun none e inside => depot e inside (none e (by simp [inside]))

/-- A run of `kmem_reclaim` returns the number of pages that the freelist has got, and empties
every cache. -/
theorem kmemReclaim_drained (unlocked : ∀ c ∈ s.kmemCaches, .cache c ∉ s.held)
    (nodup : s.kmemCaches.Nodup) (last : MagazinesLast s.kmemCaches)
    (internal : ∀ c ∈ s.kmemCaches, c.useMag = false → NoDepot s c)
    (runs : kmemReclaim s = .ok (n, t)) : Grows n s t ∧ ∀ c ∈ s.kmemCaches, Emptied t c := by
  unfold kmemReclaim at runs
  obtain ⟨_, v, locked, runs⟩ := exists_of_bind runs
  obtain ⟨_, _, acquired, ends⟩ := exists_of_bind locked
  cases ends
  have here := acquire_eq acquired
  subst here
  obtain ⟨_, _, read, runs⟩ := exists_of_bind runs
  cases read
  obtain ⟨freed, u, loop, runs⟩ := exists_of_bind runs
  obtain ⟨_, w, unlock, ends⟩ := exists_of_bind runs
  cases ends
  have drained := reclaimCaches_drained (s := { s with held := .kmemCaches :: s.held })
    (by simpa using unlocked) nodup last internal loop
  have there := release_eq unlock
  subst there
  refine ⟨drained.grows, fun c member => ?_⟩
  exact (drained.emptied c member).congr rfl

end List

end Kmem

end Av6
