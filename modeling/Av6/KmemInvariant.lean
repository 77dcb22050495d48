import Av6.KmemDestroy
import Av6.KmemSystem

/-!
# Every operation keeps the accounts

The grants of the clients are the objects and pages that the allocators have in their
books as handed out.  An operation on such a state returns and leaves such a state, with
two exceptions: `kmem_cache_destroy` of a cache in use stops at its assertion, and
`kmem_cache_free` can come back to a lock it holds.
-/

namespace Av6

namespace Kmem

open FallibleState TransitionSystem

variable {s t : System} {a b : AllocState} {c : CacheRef} {g : Grant} {gs gs' : List Grant}
  {cpu : Fin NCPU_MAX} {op : Op} {live : CacheRef → Multiset Nat} {whole : Multiset Nat}

/-- The objects of each cache that clients have. -/
def liveOf (gs : List Grant) (c : CacheRef) : Multiset Nat :=
  (gs.filterMap fun g => if g.origin = some c then some g.ptr else none : List Nat)

/-- The pages that clients have. -/
def wholeOf (gs : List Grant) : Multiset Nat :=
  (gs.filterMap fun g => if g.origin = none then some (g.ptr / PGSIZE) else none : List Nat)

theorem mem_liveOf {obj : Nat} :
    obj ∈ liveOf gs c ↔ ∃ g ∈ gs, g.origin = some c ∧ g.ptr = obj := by
  simp [liveOf]

theorem mem_wholeOf {p : Nat} :
    p ∈ wholeOf gs ↔ ∃ g ∈ gs, g.origin = none ∧ g.ptr / PGSIZE = p := by
  simp [wholeOf]

theorem liveOf_perm (same : gs.Perm gs') : liveOf gs = liveOf gs' := by
  funext c
  exact Multiset.coe_eq_coe.mpr (same.filterMap _)

theorem wholeOf_perm (same : gs.Perm gs') : wholeOf gs = wholeOf gs' :=
  Multiset.coe_eq_coe.mpr (same.filterMap _)

theorem liveOf_object (object : g.origin = some c) :
    liveOf (g :: gs) = liveOf gs + Pi.single c {g.ptr} := by
  funext d
  by_cases same : d = c
  · subst same
    simp [liveOf, object, ← Multiset.cons_coe, ← Multiset.singleton_add, add_comm]
  · have other : ¬ g.origin = some d := by
      rw [object]
      simpa using Ne.symm same
    simp [liveOf, other, same]

theorem wholeOf_object (object : g.origin = some c) : wholeOf (g :: gs) = wholeOf gs := by
  simp [wholeOf, object]

theorem liveOf_page (page : g.origin = none) : liveOf (g :: gs) = liveOf gs := by
  funext d
  simp [liveOf, page]

theorem wholeOf_page (page : g.origin = none) :
    wholeOf (g :: gs) = g.ptr / PGSIZE ::ₘ wholeOf gs := by
  simp [wholeOf, page]

/-- Where a grant lies. -/
def GrantOk (a : AllocState) (g : Grant) : Prop :=
  match g.origin with
  | some c => c.useMag = true ∧ g.size ≤ (a.caches c).layout.objsize
  | none => g.ptr % PGSIZE = 0 ∧ g.size ≤ PGSIZE

/-- The table `kmalloc_cache`. -/
structure ClassesOk (a : AllocState) (classes : List CacheRef) : Prop where
  length : classes.length = kmallocSize.length
  useMag : ∀ c ∈ classes, c.useMag = true
  known : ∀ c ∈ classes, c ∈ a.kmemCaches
  layout : ∀ i c, classes[i]? = some c →
    (a.caches c).layout = cacheLayout (BitVec.ofNat 64 (kmallocSize.getD i 0)) 16

structure SystemOk (s : System) : Prop where
  kmem : KmemOk s.alloc (liveOf s.grants) (wholeOf s.grants)
  held : s.alloc.held = []
  idle : ∀ c, c ∉ s.alloc.kmemCaches → liveOf s.grants c = 0
  classes : ClassesOk s.alloc s.classes
  grant : ∀ g ∈ s.grants, GrantOk s.alloc g

/-- Nothing is locked between two operations. -/
theorem SystemOk.pageLocks (ok : SystemOk s) : PageLocks s.alloc :=
  ⟨by simp [ok.held], by simp [ok.held]⟩

theorem SystemOk.known (ok : SystemOk s) (member : g ∈ s.grants) (object : g.origin = some c) :
    c.useMag = true ∧ c ∈ s.alloc.kmemCaches := by
  have here := ok.grant g member
  rw [GrantOk, object] at here
  refine ⟨here.1, ?_⟩
  by_contra outside
  have there : g.ptr ∈ liveOf s.grants c := mem_liveOf.mpr ⟨g, member, object, rfl⟩
  simp [ok.idle c outside] at there

/-- An operation that keeps the list of caches. -/
theorem SystemOk.served (ok : SystemOk s) (served : Served s.alloc a)
    (kmem : KmemOk a (liveOf gs) (wholeOf gs)) (grant : ∀ g ∈ gs, GrantOk s.alloc g)
    (idle : ∀ c, c ∉ s.alloc.kmemCaches → liveOf gs c = 0) :
    SystemOk { s with alloc := a, grants := gs } := by
  refine ⟨kmem, served.held.trans ok.held, fun c outside => idle c ?_, ?_, fun g member => ?_⟩
  · rwa [← served.kmemCaches]
  · refine ⟨ok.classes.length, ok.classes.useMag, fun c there => ?_, fun i c there => ?_⟩
    · show c ∈ a.kmemCaches
      rw [served.kmemCaches]
      exact ok.classes.known c there
    · rw [← ok.classes.layout i c there]
      exact served.layout c
  · have here := grant g member
    unfold GrantOk at here ⊢
    split at here
    · exact ⟨here.1, here.2.trans_eq (congrArg Layout.objsize (served.layout _).symm)⟩
    · exact here

/-- A client gets an object. -/
theorem SystemOk.handed (ok : SystemOk s) (served : Served s.alloc a) {result : Option Nat}
    {size : Nat} (handed : Handed (liveOf s.grants) (wholeOf s.grants) c result a)
    (useMag : c.useMag = true) (member : c ∈ s.alloc.kmemCaches)
    (small : size ≤ (s.alloc.caches c).layout.objsize) :
    SystemOk { s with alloc := a, grants := grantOf size (some c) result ++ s.grants } := by
  rcases handed with ⟨rfl, kmem⟩ | ⟨obj, rfl, kmem⟩
  · exact ok.served served kmem ok.grant ok.idle
  · show SystemOk { s with alloc := a, grants := ⟨obj, size, some c⟩ :: s.grants }
    refine ok.served served ?_ ?_ ?_
    · rwa [liveOf_object rfl, wholeOf_object rfl]
    · intro g there
      rcases List.mem_cons.mp there with rfl | there
      · exact ⟨useMag, small⟩
      · exact ok.grant g there
    · intro d outside
      have distinct : d ≠ c := by
        rintro rfl
        exact outside member
      rw [liveOf_object rfl, Pi.add_apply, ok.idle d outside, Pi.single_eq_of_ne distinct, zero_add]

/-- A client gets a page. -/
theorem SystemOk.handedPage (ok : SystemOk s) (served : Served s.alloc a) {p size : Nat}
    (kmem : KmemOk a (liveOf s.grants) (p ::ₘ wholeOf s.grants)) (small : size ≤ PGSIZE) :
    SystemOk { s with alloc := a, grants := ⟨p * PGSIZE, size, none⟩ :: s.grants } := by
  have page : p * PGSIZE / PGSIZE = p := Nat.mul_div_cancel p (by decide)
  refine ok.served served ?_ ?_ ?_
  · rwa [liveOf_page rfl, wholeOf_page rfl, page]
  · intro g there
    rcases List.mem_cons.mp there with rfl | there
    · exact ⟨Nat.mul_mod_left .., small⟩
    · exact ok.grant g there
  · intro d outside
    rw [liveOf_page rfl]
    exact ok.idle d outside

/-- The grant that is given back, and the others. -/
theorem exists_perm_eraseP {P : Grant → Bool} (some_ : ∃ g ∈ gs, P g = true) :
    ∃ g ∈ gs, P g = true ∧ gs.Perm (g :: gs.eraseP P) := by
  obtain ⟨g, member, holds⟩ := some_
  obtain ⟨first, before, after, -, found, split, rest⟩ := List.exists_of_eraseP member holds
  refine ⟨first, by simp [split], found, ?_⟩
  rw [rest, split]
  exact List.perm_middle

/-- A client gives a grant back. -/
theorem SystemOk.returned (ok : SystemOk s) (served : Served s.alloc a)
    (split : s.grants.Perm (g :: gs)) (kmem : KmemOk a (liveOf gs) (wholeOf gs)) :
    SystemOk { s with alloc := a, grants := gs } := by
  refine ok.served served kmem (fun h there => ok.grant h (split.mem_iff.mpr (by simp [there])))
    fun c outside => ?_
  have before := ok.idle c outside
  rw [Multiset.eq_zero_iff_forall_notMem] at before ⊢
  intro obj there
  obtain ⟨h, member, object, at_⟩ := mem_liveOf.mp there
  exact before obj (mem_liveOf.mpr ⟨h, split.mem_iff.mpr (by simp [member]), object, at_⟩)

/-- The function that a grant belongs to. -/
def giveBack (cpu : Fin NCPU_MAX) (g : Grant) : Alloc Unit :=
  match g.origin with
  | some c => kmemCacheFree cpu c g.ptr
  | none => kpageFree g.ptr

section GiveBack

variable (ok : SystemOk s) (member : g ∈ s.grants)
include ok member

/-- The slab that an object lies in. -/
theorem SystemOk.slab_of_grant (object : g.origin = some c) :
    ∃ p ∈ (s.alloc.caches c).slabPages, ∃ slot < (s.alloc.caches c).layout.slotsPerSlab,
      g.ptr = slabObj (s.alloc.caches c).layout p slot ∧ g.ptr / PGSIZE = p := by
  have there : g.ptr ∈ custody s.alloc (liveOf s.grants) c := by
    simp only [custody, Pi.add_apply, Multiset.mem_add]
    exact Or.inl (Or.inl (Or.inl (mem_liveOf.mpr ⟨g, member, object, rfl⟩)))
  obtain ⟨p, listed, slot, inside, -, place, page, -⟩ :=
    ok.kmem.slabs.exists_slot (ok.known member object).2 there
  exact ⟨p, listed, slot, inside, place, page⟩

theorem SystemOk.page_of_grant (page : g.origin = none) :
    g.ptr / PGSIZE ∈ s.alloc.managed ∧ s.alloc.flags (g.ptr / PGSIZE) = .used ∧
      s.alloc.refcnt (g.ptr / PGSIZE) = 1 ∧ g.ptr / PGSIZE * PGSIZE = g.ptr := by
  obtain ⟨managed, flag, refcnt⟩ :=
    ok.kmem.slabs.pages.client _ (mem_wholeOf.mpr ⟨g, member, page, rfl⟩)
  have aligned := ok.grant g member
  rw [GrantOk, page] at aligned
  exact ⟨managed, flag, refcnt, Nat.div_mul_cancel (Nat.dvd_of_mod_eq_zero aligned.1)⟩

theorem SystemOk.managed_of_grant : g.ptr / PGSIZE ∈ s.alloc.managed := by
  cases from_ : g.origin with
  | some c =>
      obtain ⟨p, listed, -, -, -, rfl⟩ := ok.slab_of_grant member from_
      exact ((ok.kmem.slabs.cache c (ok.known member from_).2).page _ listed).managed
  | none => exact (ok.page_of_grant member from_).1

/-- No grant looks like the pointers that `kfree` ignores. -/
theorem SystemOk.ptr_gt : ZERO_SIZE_PTR < g.ptr := by
  have low := (ok.kmem.slabs.pages.low _ (ok.managed_of_grant member)).1
  unfold PGSIZE at low
  unfold ZERO_SIZE_PTR
  omega

/-- What `kfree` sees of a pointer. -/
theorem SystemOk.kpageIsSlab_iff :
    (∀ c, g.origin = some c → kpageIsSlab s.alloc g.ptr = true ∧
      (s.alloc.slabs (g.ptr / PGSIZE)).cache = c) ∧
        (g.origin = none → kpageIsSlab s.alloc g.ptr = false) := by
  have managed := ok.managed_of_grant member
  refine ⟨fun c from_ => ?_, fun from_ => ?_⟩
  · obtain ⟨p, listed, -, -, -, rfl⟩ := ok.slab_of_grant member from_
    have slab := (ok.kmem.slabs.cache c (ok.known member from_).2).page _ listed
    exact ⟨by simp [kpageIsSlab, managed, slab.flag], slab.cache⟩
  · have flag := (ok.page_of_grant member from_).2.1
    simp [kpageIsSlab, flag]

/-- `kfree` finds out where a pointer came from. -/
theorem SystemOk.kfree_eq : kfree cpu g.ptr s.alloc = giveBack cpu g s.alloc := by
  have nonzero : ¬ g.ptr ≤ ZERO_SIZE_PTR := Nat.not_le.mpr (ok.ptr_gt member)
  have route := ok.kpageIsSlab_iff member
  unfold kfree giveBack
  rw [if_neg nonzero]
  show (if kpageIsSlab s.alloc g.ptr then kmemFree cpu g.ptr else kpageFree g.ptr) s.alloc = _
  cases from_ : g.origin with
  | some c =>
      obtain ⟨isSlab, owner⟩ := route.1 c from_
      rw [if_pos isSlab]
      show kmemCacheFree cpu (s.alloc.slabs (g.ptr / PGSIZE)).cache g.ptr s.alloc = _
      rw [owner]
  | none => rw [route.2 from_, if_neg Bool.false_ne_true]

end GiveBack

/-- Giving the grant back comes to `magazine_cache` twice. -/
def Grant.Stuck (a : AllocState) (cpu : Fin NCPU_MAX) (g : Grant) : Prop :=
  ∃ c, g.origin = some c ∧ FreeStuck a cpu c

theorem SystemOk.giveBack_yields (ok : SystemOk s) (cpu : Fin NCPU_MAX) (split : s.grants.Perm (g :: gs))
    (free : ¬ g.Stuck s.alloc cpu) :
    Yields (giveBack cpu g) s.alloc fun _ a => SystemOk { s with alloc := a, grants := gs } := by
  have member : g ∈ s.grants := split.mem_iff.mpr (by simp)
  have kmem := ok.kmem
  rw [liveOf_perm split, wholeOf_perm split] at kmem
  unfold giveBack
  cases from_ : g.origin with
  | some c =>
      have known := ok.known member from_
      rw [liveOf_object from_, wholeOf_object from_] at kmem
      refine (kmemCacheFree_yields kmem known.2 known.1 (by simp [ok.held]) (by simp [ok.held])
        ok.pageLocks fun stuck => free ⟨c, from_, stuck⟩).mono ?_
      rintro - a ⟨served, kmem⟩
      exact ok.returned served split kmem
  | none =>
      obtain ⟨managed, flag, refcnt, place⟩ := ok.page_of_grant member from_
      rw [liveOf_page from_, wholeOf_page from_] at kmem
      show Yields (kpageFree g.ptr) _ _
      rw [← place]
      refine kpageFree_yields managed (Or.inl flag) refcnt (by simp [ok.held]) ?_
      have quiet : Quiet s.alloc (s.alloc.pushFree (g.ptr / PGSIZE)) :=
        ⟨rfl, rfl, rfl, fun _ => .refl _⟩
      exact ok.returned (quiet.frame rfl).served split (kmem.quiet quiet rfl kmem.slabs.pushFree)

theorem SystemOk.giveBack_fails (ok : SystemOk s) (member : g ∈ s.grants)
    (stuck : g.Stuck s.alloc cpu) :
    Fails (giveBack cpu g) s.alloc (.alreadyHeld (.cache .magazineCache)) := by
  obtain ⟨c, from_, stuck⟩ := stuck
  have known := ok.known member from_
  have split := List.perm_cons_erase member
  have kmem := ok.kmem
  rw [liveOf_perm split, wholeOf_perm split, liveOf_object from_, wholeOf_object from_] at kmem
  unfold giveBack
  rw [from_]
  exact kmemCacheFree_fails kmem known.2 known.1 (by simp [ok.held]) (by simp [ok.held])
    ok.pageLocks stuck

end Kmem

end Av6
