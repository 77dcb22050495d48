import Av6.KmemReachable

/-!
# The memory of the clients

No two grants overlap.  Those of `kmalloc` lie inside one page, start at a multiple of sixteen
and stay off the headers of the slabs, and `kfree` returns them to where they came from.
-/

namespace Av6

namespace Kmem

open FallibleState TransitionSystem

variable {s t : System} {c : CacheRef} {g h : Grant} {cpu : Fin NCPU_MAX} {size : BitVec 64}

/-- The bytes of the two grants have nothing in common. -/
def Grant.Apart (g h : Grant) : Prop :=
  g.ptr ≠ h.ptr ∧ (g.ptr + g.size ≤ h.ptr ∨ h.ptr + h.size ≤ g.ptr)

section Grants

variable (ok : SystemOk s) (member : g ∈ s.grants)
include ok member

/-- A grant does not leave its page. -/
theorem SystemOk.grant_within :
    g.ptr / PGSIZE * PGSIZE ≤ g.ptr ∧ g.ptr + g.size ≤ (g.ptr / PGSIZE + 1) * PGSIZE := by
  have here := ok.grant g member
  cases from_ : g.origin with
  | none =>
      rw [GrantOk, from_] at here
      have place := (ok.page_of_grant member from_).2.2.2
      refine ⟨place.le, ?_⟩
      rw [Nat.add_mul, place, Nat.one_mul]
      exact Nat.add_le_add_left here.2 _
  | some c =>
      rw [GrantOk, from_] at here
      obtain ⟨p, listed, slot, inside, place, rfl⟩ := ok.slab_of_grant member from_
      have cache := ok.kmem.slabs.cache c (ok.known member from_).2
      have low := (ok.kmem.slabs.pages.low _ (ok.managed_of_grant member)).2
      have room := cache.fits.slot_le inside
      have offset := slabObj_eq cache.fits low inside
      rw [← place] at offset
      have small := here.2
      rw [Nat.add_mul, Nat.one_mul]
      omega

theorem SystemOk.apart_of_page_ne (member' : h ∈ s.grants)
    (pages : g.ptr / PGSIZE ≠ h.ptr / PGSIZE) : g.Apart h := by
  have first := ok.grant_within member
  have second := ok.grant_within member'
  refine ⟨fun same => pages (by rw [same]), ?_⟩
  rcases Nat.lt_or_gt_of_ne pages with less | more
  · have order := Nat.mul_le_mul_right PGSIZE (Nat.succ_le_of_lt less)
    exact Or.inl (first.2.trans (order.trans second.1))
  · have order := Nat.mul_le_mul_right PGSIZE (Nat.succ_le_of_lt more)
    exact Or.inr (second.2.trans (order.trans first.1))

/-- Grants from different places lie on different pages. -/
theorem SystemOk.page_ne_of_origin (member' : h ∈ s.grants) (differ : g.origin ≠ h.origin) :
    g.ptr / PGSIZE ≠ h.ptr / PGSIZE := by
  intro same
  have route := ok.kpageIsSlab_iff member
  have route' := ok.kpageIsSlab_iff member'
  have flag : kpageIsSlab s.alloc g.ptr = kpageIsSlab s.alloc h.ptr := by
    simp only [kpageIsSlab, same]
  cases from_ : g.origin with
  | none =>
      cases from' : h.origin with
      | none => exact differ (from_.trans from'.symm)
      | some d =>
          rw [route.2 from_, (route'.1 d from').1] at flag
          cases flag
  | some c =>
      cases from' : h.origin with
      | none =>
          rw [(route.1 c from_).1, route'.2 from'] at flag
          cases flag
      | some d =>
          have owner := (route.1 c from_).2
          rw [same, (route'.1 d from').2] at owner
          rw [from_, from', owner] at differ
          exact differ rfl

/-- Different objects of one cache. -/
theorem SystemOk.apart_of_object (member' : h ∈ s.grants) (from_ : g.origin = some c)
    (from' : h.origin = some c) (distinct : g.ptr ≠ h.ptr) : g.Apart h := by
  by_cases pages : g.ptr / PGSIZE = h.ptr / PGSIZE
  · obtain ⟨p, -, slot, inside, place, page⟩ := ok.slab_of_grant member from_
    obtain ⟨q, -, slot', inside', place', page'⟩ := ok.slab_of_grant member' from'
    have cache := ok.kmem.slabs.cache c (ok.known member from_).2
    have low := (ok.kmem.slabs.pages.low _ (ok.managed_of_grant member)).2
    rw [page] at pages low
    rw [page'] at pages
    subst pages
    have offset := slabObj_eq cache.fits low inside
    have offset' := slabObj_eq cache.fits low inside'
    rw [← place] at offset
    rw [← place'] at offset'
    have size := ok.grant g member
    have size' := ok.grant h member'
    rw [GrantOk, from_] at size
    rw [GrantOk, from'] at size'
    have numbers : slot ≠ slot' := by
      rintro rfl
      exact distinct (place.trans place'.symm)
    refine ⟨distinct, ?_⟩
    rcases Nat.lt_or_gt_of_ne numbers with less | more
    · have order := Nat.mul_le_mul_right (s.alloc.caches c).layout.objsize (Nat.succ_le_of_lt less)
      rw [Nat.succ_mul] at order
      have small := size.2
      exact Or.inl (by omega)
    · have order := Nat.mul_le_mul_right (s.alloc.caches c).layout.objsize (Nat.succ_le_of_lt more)
      rw [Nat.succ_mul] at order
      have small := size'.2
      exact Or.inr (by omega)
  · exact ok.apart_of_page_ne member member' pages

end Grants

/-- No two grants overlap. -/
theorem SystemOk.pairwise_apart (ok : SystemOk s) : s.grants.Pairwise Grant.Apart := by
  rw [List.pairwise_iff_forall_sublist]
  intro g h both
  have member : g ∈ s.grants := both.subset (by simp)
  have member' : h ∈ s.grants := both.subset (by simp)
  by_cases origins : g.origin = h.origin
  · cases from_ : g.origin with
    | none =>
        have from' := origins.symm.trans from_
        have pages := both.filterMap fun g =>
          if g.origin = none then some (g.ptr / PGSIZE) else none
        simp only [List.filterMap_cons, from_, from', if_true, List.filterMap_nil] at pages
        have nodup : (s.grants.filterMap fun g =>
            if g.origin = none then some (g.ptr / PGSIZE) else none).Nodup :=
          ok.kmem.slabs.pages.whole_nodup
        have distinct := nodup.sublist pages
        refine ok.apart_of_page_ne member member' ?_
        simpa using distinct
    | some c =>
        have from' := origins.symm.trans from_
        have objects := both.filterMap fun g =>
          if g.origin = some c then some g.ptr else none
        simp only [List.filterMap_cons, from_, from', if_true, List.filterMap_nil] at objects
        have cache := ok.kmem.slabs.cache c (ok.known member from_).2
        have low : ∀ p ∈ s.alloc.managed, p < pageLimit := fun p managed =>
          (ok.kmem.slabs.pages.low p managed).2
        have live : liveOf s.grants c ≤ custody s.alloc (liveOf s.grants) c := by
          simp only [custody, Pi.add_apply, add_assoc]
          exact Multiset.le_add_right ..
        have nodup : (s.grants.filterMap fun g =>
            if g.origin = some c then some g.ptr else none).Nodup :=
          Multiset.coe_nodup.mp (Multiset.nodup_of_le live (cache.out_nodup low))
        have distinct := nodup.sublist objects
        refine ok.apart_of_object member member' from_ from' ?_
        simpa using distinct
  · exact ok.apart_of_page_ne member member' (ok.page_ne_of_origin member member' origins)

/-- No grant covers the header of a slab. -/
theorem SystemOk.off_headers (ok : SystemOk s) (member : g ∈ s.grants) {p : Nat}
    (there : c ∈ s.alloc.kmemCaches) (listed : p ∈ (s.alloc.caches c).slabPages) :
    g.ptr + g.size ≤ p * PGSIZE ∨ p * PGSIZE + slabHeaderSize ≤ g.ptr := by
  have within := ok.grant_within member
  rcases Nat.lt_trichotomy (g.ptr / PGSIZE) p with less | same | more
  · have order := Nat.mul_le_mul_right PGSIZE (Nat.succ_le_of_lt less)
    exact Or.inl (within.2.trans order)
  · refine Or.inr ?_
    have slab := (ok.kmem.slabs.cache c there).page p listed
    cases from_ : g.origin with
    | none =>
        have flag := (ok.page_of_grant member from_).2.1
        rw [same, slab.flag] at flag
        cases flag
    | some d =>
        obtain ⟨q, -, slot, inside, place, page⟩ := ok.slab_of_grant member from_
        have cache := ok.kmem.slabs.cache d (ok.known member from_).2
        have low := (ok.kmem.slabs.pages.low _ slab.managed).2
        rw [same] at page
        subst page
        have offset := slabObj_eq cache.fits low inside
        have header := cache.fits.header
        omega
  · have order := Nat.mul_le_mul_right PGSIZE (Nat.succ_le_of_lt more)
    have size : slabHeaderSize ≤ PGSIZE := by decide
    rw [Nat.succ_mul] at order
    exact Or.inr (by omega)

/-- The operations on memory without caches of one's own. -/
def Op.Plain : Op → Prop
  | kmalloc _ | kfree _ | pageAlloc | pageFree _ | reclaim => True
  | _ => False

theorem Op.Plain.fits {op : Op} (plain : op.Plain) : op.Fits := by
  cases op <;> trivial

/-- The function that `kmalloc` takes a grant from. -/
def takeFrom (cpu : Fin NCPU_MAX) : Option CacheRef → Alloc (Option Nat)
  | some c => kmemCacheAlloc cpu c
  | none => kpageAlloc

theorem SystemOk.kmalloc_eq (ok : SystemOk s) (nonzero : size ≠ 0) (small : size.toNat ≤ PGSIZE) :
    Kmem.kmalloc cpu s.classes size = takeFrom cpu (kmallocOrigin s.classes size) := by
  unfold Kmem.kmalloc kmallocOrigin
  rw [if_neg nonzero]
  split
  · rename_i tiny
    obtain ⟨c, there, -⟩ := ok.exists_class nonzero tiny
    rw [there]
    rfl
  · rfl

/-- All objects are from the classes of `kmalloc`. -/
def FromClasses (s : System) : Prop :=
  ∀ g ∈ s.grants, ∀ c, g.origin = some c → c ∈ s.classes

theorem fromClasses_of_reachable (reached : KmemReachable Op.Plain s) : FromClasses s := by
  refine Reachable.invariant ?_ ?_ reached
  · rintro start ⟨-, -, -, -, -, none_⟩
    simp [FromClasses, none_]
  · rintro state after - before ⟨cpu, op, -, plain, next⟩
    obtain ⟨result, a, -, rfl⟩ := exec_eq_ok.mp next
    intro g member c from_
    cases op with
    | kmalloc size =>
        simp only [Op.grants] at member
        split at member
        · exact before g member c from_
        · rcases List.mem_append.mp member with new | old
          · obtain ⟨ptr, -, rfl⟩ := List.mem_map.mp new
            have from_ : kmallocOrigin state.classes size = some c := from_
            unfold kmallocOrigin at from_
            split at from_
            · exact List.mem_of_getElem? from_
            · cases from_
          · exact before g old c from_
    | pageAlloc =>
        rcases List.mem_append.mp member with new | old
        · obtain ⟨ptr, -, rfl⟩ := List.mem_map.mp new
          cases from_
        · exact before g old c from_
    | kfree ptr => exact before g (List.mem_of_mem_eraseP member) c from_
    | pageFree vaddr => exact before g (List.mem_of_mem_eraseP member) c from_
    | reclaim => exact before g member c from_
    | _ => exact plain.elim

theorem SystemOk.aligned (ok : SystemOk s) (member : g ∈ s.grants)
    (class_ : ∀ c, g.origin = some c → c ∈ s.classes) : g.ptr % 16 = 0 := by
  cases from_ : g.origin with
  | none =>
      have aligned := ok.grant g member
      rw [GrantOk, from_] at aligned
      have whole := aligned.1
      unfold PGSIZE at whole
      omega
  | some c =>
      obtain ⟨i, there⟩ := List.getElem?_of_mem (class_ c from_)
      have known := ok.classes.layout i c there
      have bound : i < kmallocSize.length := by
        rw [← ok.classes.length]
        exact (List.getElem?_eq_some_iff.mp there).1
      obtain ⟨-, offset, multiple, fits⟩ := classLayout ⟨i, bound⟩
      obtain ⟨p, listed, slot, inside, place, page⟩ := ok.slab_of_grant member from_
      have low := (ok.kmem.slabs.pages.low _ (ok.managed_of_grant member)).2
      rw [page] at low
      rw [place, known] at *
      rw [slabObj_eq fits low inside, offset, Nat.add_mod, Nat.add_mod slabHeaderSize, Nat.mul_mod,
        Nat.mul_mod slot, multiple]
      simp [PGSIZE, slabHeaderSize]

/-- Whatever is allocated and freed, the memory of the clients is disjoint, lies inside
single pages at multiples of sixteen and off the headers of the slabs, and `kfree` returns
it to where `kmalloc` took it from. -/
theorem kmalloc_disjoint (reached : KmemReachable Op.Plain s) :
    s.grants.Pairwise Grant.Apart ∧
      (∀ g ∈ s.grants,
        (∃ p ∈ s.alloc.managed, p * PGSIZE ≤ g.ptr ∧ g.ptr + g.size ≤ (p + 1) * PGSIZE) ∧
        g.ptr % 16 = 0 ∧
        (∀ c ∈ s.alloc.kmemCaches, ∀ p ∈ (s.alloc.caches c).slabPages,
          g.ptr + g.size ≤ p * PGSIZE ∨ p * PGSIZE + slabHeaderSize ≤ g.ptr) ∧
        ∀ cpu, kfree cpu g.ptr s.alloc = giveBack cpu g s.alloc) ∧
      ∀ cpu size, size ≠ 0 → size.toNat ≤ PGSIZE →
        kmalloc cpu s.classes size = takeFrom cpu (kmallocOrigin s.classes size) := by
  have ok := systemOk_of_reachable (fun _ plain => plain.fits) reached
  refine ⟨ok.pairwise_apart, fun g member => ⟨?_, ?_, ?_, ?_⟩, ?_⟩
  · exact ⟨_, ok.managed_of_grant member, ok.grant_within member⟩
  · exact ok.aligned member (fromClasses_of_reachable reached g member)
  · exact fun c there p listed => ok.off_headers member there listed
  · exact fun cpu => ok.kfree_eq member
  · exact fun cpu size nonzero small => ok.kmalloc_eq nonzero small

theorem kmalloc_disjoint_three : ∃ s : System, KmemReachable Op.Plain s ∧
    s.grants.map (fun g => (g.ptr, g.size)) = [(8192, 2000), (12416, 50), (12352, 60)] ∧
      s.grants.Pairwise Grant.Apart := by
  have run : ((runFrom [1, 2, 3, 4, 5] [(0, .kmalloc 60), (1, .kmalloc 50), (2, .kmalloc 2000)]).any
      fun s => s.grants.map (fun g => (g.ptr, g.size)) =
        [(8192, 2000), (12416, 50), (12352, 60)]) = true := by
    decide +kernel
  obtain ⟨s, reached, grants⟩ : ∃ s, KmemReachable Op.Plain s ∧ _ := by
    refine reachable_of_runFrom (by decide) (by simp) ?_ run
    intro step there
    simp only [List.mem_cons, List.not_mem_nil, or_false] at there
    rcases there with rfl | rfl | rfl <;> trivial
  exact ⟨s, reached, by simpa using grants, (kmalloc_disjoint reached).1⟩

end Kmem

end Av6
