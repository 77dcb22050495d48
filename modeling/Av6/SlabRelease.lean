import Av6.DrainMoves
import Av6.KmemAlloc

/-!
# Pages that slabs give back

Taking a page and giving a page back make no page a slab, whatever `kmem_reclaim` does in
between: a slab page may become free, and no page becomes a slab page.  With the same pages in
the hands of clients, the free pages are then those of before and pages that were slabs.
-/

namespace Av6

namespace Kmem

open FallibleState

variable {s t : AllocState} {c : CacheRef} {m p : Nat} {live live' : CacheRef → Multiset Nat}
  {whole : Multiset Nat}

/-- The same pages are managed for the same caches, and the slab pages were slab pages before. -/
structure NoNewSlabs (s t : AllocState) : Prop where
  managed : t.managed = s.managed
  kmemCaches : t.kmemCaches = s.kmemCaches
  flags : ∀ p, t.flags p = .slab → s.flags p = .slab

theorem NoNewSlabs.of_flags (managed : t.managed = s.managed)
    (kmemCaches : t.kmemCaches = s.kmemCaches) (flags : t.flags = s.flags) : NoNewSlabs s t := by
  refine ⟨managed, kmemCaches, fun p slab => ?_⟩
  rwa [flags] at slab

instance : IsPreorder AllocState NoNewSlabs where
  refl s := .of_flags rfl rfl rfl
  trans s t r first second := by
    constructor
    · exact second.managed.trans first.managed
    · exact second.kmemCaches.trans first.kmemCaches
    · intro p slab
      exact first.flags p (second.flags p slab)

/-- A page gets a flag other than that of a slab. -/
theorem NoNewSlabs.update {flag : PageFlag} (managed : t.managed = s.managed)
    (kmemCaches : t.kmemCaches = s.kmemCaches)
    (flags : t.flags = Function.update s.flags p flag) (other : flag ≠ .slab) : NoNewSlabs s t := by
  refine ⟨managed, kmemCaches, fun q slab => ?_⟩
  rw [flags] at slab
  by_cases same : q = p
  · subst same
    rw [Function.update_self] at slab
    exact absurd slab other
  · rwa [Function.update_of_ne same] at slab

theorem noNewSlabs_steps (c : CacheRef) : ReleaseSteps NoNewSlabs c where
  held _ _ := .of_flags rfl rfl rfl
  magazines _ _ := .of_flags rfl rfl rfl
  putSlot _ _ _ _ _ := .of_flags rfl rfl rfl
  cache _ _ := .of_flags rfl rfl rfl
  pushFree _ _ := .update rfl rfl rfl (by decide)

theorem freelistPop_noNewSlabs (s : AllocState) : Moves NoNewSlabs freelistPop s := by
  have steps := noNewSlabs_steps .magazineCache
  refine (steps.acquire _ s).bind fun _ t => .read_bind ?_
  cases t.freelist with
  | nil => exact (steps.release _ t).bind fun _ _ => .ret
  | cons p rest =>
      have taken : NoNewSlabs t (t.popFree p rest) := .update rfl rfl rfl (by decide)
      exact (Moves.write taken).bind fun _ u => (steps.release _ u).bind fun _ _ => .ret

theorem kpageAlloc_noNewSlabs (s : AllocState) : Moves NoNewSlabs kpageAlloc s := by
  refine (freelistPop_noNewSlabs s).bind fun page t => ?_
  cases page with
  | some p => exact .ret
  | none =>
      refine (kmemReclaim_moves noNewSlabs_steps t).bind fun freed u => ?_
      split
      · exact (freelistPop_noNewSlabs u).bind fun _ _ => .ret
      · exact .ret

/-- A managed page that is neither free nor with a client is a slab page. -/
theorem KmemOk.slab_of_managed (ok : KmemOk s live whole) (managed : p ∈ s.managed)
    (notFree : p ∉ s.freelist) (notClient : p ∉ whole) : s.flags p = .slab := by
  rcases ok.slabs.pages.complete p managed with free | client | ⟨c, member, listed⟩
  · exact absurd free notFree
  · exact absurd client notClient
  · exact ((ok.slabs.cache c member).page p listed).flag

theorem KmemOk.not_client (ok : KmemOk s live whole) (free : p ∈ s.freelist) : p ∉ whole := by
  intro client
  have isFree := (ok.slabs.pages.free p free).2.1
  have isUsed := (ok.slabs.pages.client p client).2.1
  rw [isFree] at isUsed
  cases isUsed

/-- The freelist has all the pages that it had, each of them once, and beside them only pages
that were slabs. -/
structure Restored (s t : AllocState) : Prop where
  once : ∀ p ∈ s.freelist, t.freelist.count p = 1
  nodup : t.freelist.Nodup
  reclaimed : ∀ p ∈ t.freelist, p ∉ s.freelist → s.flags p = .slab ∧ t.flags p = .free

/-- The clients have the same pages, and no page has become a slab. -/
theorem KmemOk.restored (ok : KmemOk s live whole) (ok' : KmemOk t live' whole)
    (noNew : NoNewSlabs s t) : Restored s t := by
  have nodup := ok'.slabs.pages.free_nodup
  refine ⟨fun p free => ?_, nodup, fun p free new => ?_⟩
  · apply List.count_eq_one_of_mem nodup
    by_contra notFree
    have managed : p ∈ t.managed := by
      rw [noNew.managed]
      exact (ok.slabs.pages.free p free).1
    have slab := noNew.flags p (ok'.slab_of_managed managed notFree (ok.not_client free))
    rw [(ok.slabs.pages.free p free).2.1] at slab
    cases slab
  · obtain ⟨managed, isFree, -⟩ := ok'.slabs.pages.free p free
    rw [noNew.managed] at managed
    exact ⟨ok.slab_of_managed managed new (ok'.not_client free), isFree⟩

end Kmem

end Av6
