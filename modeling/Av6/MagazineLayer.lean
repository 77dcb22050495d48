import Av6.SlabPrograms
import Mathlib.Algebra.BigOperators.Group.Finset.Basic
import Mathlib.Algebra.BigOperators.Fin
import Mathlib.Algebra.BigOperators.Group.List.Lemmas
import Mathlib.Algebra.Order.BigOperators.Group.Multiset
import Mathlib.Tactic.Abel

/-!
# The magazine layer

Every object that the slabs have handed out is in the custody of a client, of a magazine,
or of the allocator itself: the magazines are objects of `magazine_cache`, and the caches
are objects of `cache_cache`.
-/

namespace Av6

namespace Kmem

open FallibleState

variable {s t : AllocState} {c d : CacheRef} {m obj : Nat} {objs : List Nat} {k : Cache}
  {f : Cache → Cache} {live : CacheRef → Multiset Nat} {whole : Multiset Nat}

/-- The magazine in one of a CPU's two slots. -/
def slotMag (m : Option Nat) : Multiset Nat :=
  m.elim 0 ({·})

@[simp]
theorem slotMag_none : slotMag none = 0 :=
  rfl

@[simp]
theorem slotMag_some (m : Nat) : slotMag (some m) = {m} :=
  rfl

/-- The magazines of the CPUs. -/
def Cache.cpuMags (k : Cache) : Multiset Nat :=
  ∑ i, (slotMag (k.loaded i) + slotMag (k.previous i))

/-- All magazines of a cache. -/
def Cache.mags (k : Cache) : Multiset Nat :=
  k.cpuMags + (k.fullMags + k.emptyMags : Multiset Nat)

/-- The objects in the magazines of a cache. -/
def contents (s : AllocState) (c : CacheRef) : Multiset Nat :=
  (s.caches c).mags.bind fun m => (s.magazines m : Multiset Nat)

/-- The magazines of all caches. -/
def allMags (s : AllocState) : Multiset Nat :=
  (s.kmemCaches.map fun c => (s.caches c).mags).sum

/-- The addresses of the caches that `kmem_cache_create` has made. -/
def created (s : AllocState) : Multiset Nat :=
  (s.kmemCaches.filterMap fun c => match c with
    | .object addr => some addr
    | _ => none : List Nat)

/-- Who has the objects of each cache; `live` are those that clients have. -/
def custody (s : AllocState) (live : CacheRef → Multiset Nat) : CacheRef → Multiset Nat :=
  live + contents s + Pi.single .magazineCache (allMags s) + Pi.single .cacheCache (created s)

/-- How full the magazines are. -/
structure MagazinesOk (s : AllocState) (c : CacheRef) : Prop where
  loaded : ∀ i m, (s.caches c).loaded i = some m → (s.magazines m).length ≤ MAG_DEPTH
  previous : ∀ i m, (s.caches c).previous i = some m →
    (s.magazines m).length = 0 ∨ (s.magazines m).length = MAG_DEPTH
  full : ∀ m ∈ (s.caches c).fullMags, (s.magazines m).length = MAG_DEPTH
  empty : ∀ m ∈ (s.caches c).emptyMags, (s.magazines m).length = 0
  internal : c.useMag = false → (s.caches c).mags = 0

/-- The state of the allocators; `whole` are the pages in the hands of clients. -/
structure KmemOk (s : AllocState) (live : CacheRef → Multiset Nat) (whole : Multiset Nat) :
    Prop where
  nodup : s.kmemCaches.Nodup
  cacheCache : .cacheCache ∈ s.kmemCaches
  magazineCache : .magazineCache ∈ s.kmemCaches
  slabs : SlabLayer s s.kmemCaches (custody s live) whole none
  mags : ∀ c ∈ s.kmemCaches, MagazinesOk s c

theorem mem_mags {m : Nat} : m ∈ k.mags ↔
    (∃ i, k.loaded i = some m ∨ k.previous i = some m) ∨ m ∈ k.fullMags ∨ m ∈ k.emptyMags := by
  have slot : ∀ o : Option Nat, m ∈ slotMag o ↔ o = some m := by
    intro o
    cases o <;> simp [eq_comm]
  simp [Cache.mags, Cache.cpuMags, Multiset.mem_sum, slot]

/-- Custody only looks at the magazines. -/
theorem mags_of_sameDepot {k' : Cache} (same : SameDepot k k') : k'.mags = k.mags := by
  rw [Cache.mags, Cache.cpuMags, same.loaded, same.previous, same.fullMags, same.emptyMags,
    Cache.mags, Cache.cpuMags]

theorem custody_of_quiet (quiet : Quiet s t) (magazines : t.magazines = s.magazines) :
    custody t live = custody s live := by
  have mags : ∀ c, (t.caches c).mags = (s.caches c).mags := fun c =>
    mags_of_sameDepot (quiet.depot c)
  have inside : contents t = contents s := by
    funext c
    rw [contents, mags, magazines, contents]
  rw [custody, inside, allMags, created, quiet.kmemCaches, custody, allMags, created]
  simp only [mags]

theorem allMags_update (member : c ∈ s.kmemCaches) (nodup : s.kmemCaches.Nodup) :
    allMags (s.updateCache c f) + (s.caches c).mags =
      allMags s + (f (s.caches c)).mags := by
  have rest : (((s.kmemCaches.erase c).map fun d => ((s.updateCache c f).caches d).mags).sum) =
      ((s.kmemCaches.erase c).map fun d => (s.caches d).mags).sum := by
    refine congrArg List.sum (List.map_congr_left fun d there => ?_)
    have distinct : d ≠ c := (nodup.mem_erase_iff.mp there).1
    simp [AllocState.updateCache, distinct]
  have here : ((s.updateCache c f).caches c).mags = (f (s.caches c)).mags := by
    simp [AllocState.updateCache]
  have before := List.sum_map_erase (fun d => (s.caches d).mags) member
  have after := List.sum_map_erase (fun d => ((s.updateCache c f).caches d).mags) member
  rw [rest, here] at after
  show (s.kmemCaches.map fun d => ((s.updateCache c f).caches d).mags).sum + _ = _
  rw [← after, allMags, ← before]
  abel

theorem contents_update_of_ne (distinct : d ≠ c) :
    contents (s.updateCache c f) d = contents s d := by
  simp [contents, AllocState.updateCache, distinct]

/-- The cache gives magazines up. -/
theorem custody_give (ms : List Nat) (live : CacheRef → Multiset Nat)
    (member : c ∈ s.kmemCaches) (nodup : s.kmemCaches.Nodup)
    (less : (s.caches c).mags = ms + (f (s.caches c)).mags) :
    custody s live = custody (s.updateCache c f) live +
      Pi.single .magazineCache (ms : Multiset Nat) +
        Pi.single c (ms.flatMap s.magazines : Multiset Nat) := by
  have all : allMags s = allMags (s.updateCache c f) + ms := by
    have total := allMags_update (f := f) member nodup
    rw [less, ← add_assoc] at total
    exact (Multiset.add_left_inj.mp total).symm
  have inside : contents s = contents (s.updateCache c f) +
      Pi.single c (ms.flatMap s.magazines : Multiset Nat) := by
    funext d
    by_cases here : d = c
    · subst here
      simp [contents, AllocState.updateCache, less, add_comm, Multiset.coe_bind]
    · simp [contents_update_of_ne here, here]
  rw [custody, inside, all, custody, Pi.single_add]
  show _ = live + contents (s.updateCache c f) +
    Pi.single .magazineCache (allMags (s.updateCache c f)) + Pi.single .cacheCache (created s) + _ + _
  abel

/-- Custody depends on the magazines that the caches have, and on their entries. -/
theorem custody_congr (kmemCaches : t.kmemCaches = s.kmemCaches)
    (mags : ∀ c ∈ s.kmemCaches, (t.caches c).mags = (s.caches c).mags)
    (entries : ∀ c ∈ s.kmemCaches, ∀ m ∈ (s.caches c).mags, t.magazines m = s.magazines m)
    (member : c ∈ s.kmemCaches) : custody t live c = custody s live c := by
  have inside : contents t c = contents s c := by
    rw [contents, mags c member]
    exact Multiset.bind_congr fun m there => by rw [entries c member m there]
  have all : allMags t = allMags s := by
    rw [allMags, kmemCaches]
    exact congrArg List.sum (List.map_congr_left mags)
  simp only [custody, Pi.add_apply, inside, all, created, kmemCaches]

theorem KmemOk.allMags_nodup (ok : KmemOk s live whole) : (allMags s).Nodup := by
  have low : ∀ p ∈ s.managed, p < pageLimit := fun p managed => (ok.slabs.pages.low p managed).2
  have total := (ok.slabs.cache _ ok.magazineCache).out_nodup low
  refine Multiset.nodup_of_le ?_ total
  simp only [custody, Pi.add_apply, Pi.single_eq_same]
  rw [add_right_comm]
  exact Multiset.le_add_left ..

theorem KmemOk.mags_split (ok : KmemOk s live whole) (member : c ∈ s.kmemCaches) :
    (s.caches c).mags.Nodup ∧
      ∀ d ∈ s.kmemCaches, d ≠ c → Disjoint (s.caches c).mags (s.caches d).mags := by
  have nodup := ok.allMags_nodup
  rw [allMags, ← List.sum_map_erase _ member, Multiset.nodup_add] at nodup
  refine ⟨nodup.1, fun d there distinct => nodup.2.2.mono_right ?_⟩
  have rest : d ∈ s.kmemCaches.erase c := (List.mem_erase_of_ne distinct).mpr there
  rw [← List.sum_map_erase _ rest]
  exact Multiset.le_add_right ..

/-- A magazine is in one cache. -/
theorem KmemOk.mags_inj (ok : KmemOk s live whole) (member : c ∈ s.kmemCaches)
    (member' : d ∈ s.kmemCaches) (here : m ∈ (s.caches c).mags) (there : m ∈ (s.caches d).mags) :
    d = c := by
  by_contra distinct
  exact Multiset.disjoint_left.mp ((ok.mags_split member).2 d member' distinct) here there

end Kmem

end Av6
