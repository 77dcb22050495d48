import Av6.KmemModel
import Av6.MonotoneRuns

/-!
# Along what draining leads

Draining a cache and giving its slabs back is made of a few kinds of steps.  A reflexive and
transitive relation that has these steps has every run of the drain, whatever the state it
begins in.
-/

namespace Av6

namespace Kmem

open FallibleState

variable {R : AllocState → AllocState → Prop} {s : AllocState} {c d : CacheRef}

/-- The relation has the steps of freeing objects of the cache `c`, and magazines. -/
structure FreeSteps (R : AllocState → AllocState → Prop) (c : CacheRef) : Prop where
  held : ∀ s held, R s { s with held := held }
  magazines : ∀ s magazines, R s { s with magazines := magazines }
  putSlot : ∀ s d p slot, d = c ∨ d = .magazineCache → R s (s.putSlot d p slot)

/-- It also has the steps in which magazines leave the cache. -/
structure DrainSteps (R : AllocState → AllocState → Prop) (c : CacheRef) : Prop
    extends FreeSteps R c where
  cache : ∀ s f, R s (s.updateCache c f)

/-- It also has the step that gives a page back. -/
structure ReleaseSteps (R : AllocState → AllocState → Prop) (c : CacheRef) : Prop
    extends DrainSteps R c where
  pushFree : ∀ s p, R s (s.pushFree p)

section Free

variable (steps : FreeSteps R c)
include steps

theorem FreeSteps.acquire (l : Lock) (s : AllocState) : Moves R (acquire l) s :=
  .read_bind (.check_bind (.write (steps.held s _)))

theorem FreeSteps.release (l : Lock) (s : AllocState) : Moves R (release l) s :=
  .read_bind (.check_bind (.write (steps.held s _)))

theorem FreeSteps.slabFreeLocked (obj : Nat) (cache : d = c ∨ d = .magazineCache)
    (s : AllocState) : Moves R (slabFreeLocked d obj) s :=
  .read_bind (.check_bind (.check_bind (.write (steps.putSlot s d _ _ cache))))

variable [IsPreorder AllocState R]

theorem FreeSteps.tryAcquire (l : Lock) (s : AllocState) : Moves R (tryAcquire l) s :=
  (steps.acquire l s).bind fun _ _ => .ret

theorem FreeSteps.freeDirect (obj : Nat) (cache : d = c ∨ d = .magazineCache)
    (s : AllocState) : Moves R (freeDirect d obj) s := by
  refine (steps.acquire _ s).bind fun _ t => ?_
  exact (steps.slabFreeLocked obj cache t).bind fun _ u => steps.release _ u

theorem FreeSteps.drainMagazine (m : Nat) (s : AllocState) : Moves R (drainMagazine c m) s := by
  refine .read_bind (Moves.bind ?_ fun _ t => ?_)
  · exact .forM (fun obj => steps.slabFreeLocked obj (.inl rfl)) _ s
  · exact (Moves.update (steps.magazines t _)).bind fun _ u => steps.freeDirect m (.inr rfl) u

end Free

section Drain

variable [IsPreorder AllocState R] (steps : DrainSteps R c)
include steps

theorem DrainSteps.drainFull (m : Nat) (s : AllocState) : Moves R (drainFull c m) s :=
  (Moves.update (steps.cache s _)).bind fun _ t => steps.drainMagazine m t

theorem DrainSteps.drainEmpty (m : Nat) (s : AllocState) : Moves R (drainEmpty c m) s :=
  (Moves.update (steps.cache s _)).bind fun _ t => steps.drainMagazine m t

theorem DrainSteps.drainLoaded (cpu : Fin NCPU_MAX) (s : AllocState) :
    Moves R (drainLoaded c cpu) s := by
  apply Moves.read_bind
  cases (s.caches c).loaded cpu with
  | none => exact .ret
  | some m => exact (steps.drainMagazine m s).bind fun _ t => .update (steps.cache t _)

theorem DrainSteps.drainPrevious (cpu : Fin NCPU_MAX) (s : AllocState) :
    Moves R (drainPrevious c cpu) s := by
  apply Moves.read_bind
  cases (s.caches c).previous cpu with
  | none => exact .ret
  | some m => exact (steps.drainMagazine m s).bind fun _ t => .update (steps.cache t _)

theorem DrainSteps.drainCpu (cpu : Fin NCPU_MAX) (s : AllocState) : Moves R (drainCpu c cpu) s :=
  (steps.drainLoaded cpu s).bind fun _ t => steps.drainPrevious cpu t

/-- All of `kmem_cache_destroy` up to its assertion. -/
theorem DrainSteps.detachCache
    (list : ∀ s, R s { s with kmemCaches := s.kmemCaches.erase c }) (s : AllocState) :
    Moves R (detachCache c) s := by
  refine (steps.acquire _ s).bind fun _ t => (Moves.update (list t)).bind fun _ t => ?_
  refine (steps.release _ t).bind fun _ t => (steps.acquire _ t).bind fun _ t => ?_
  refine (Moves.forM steps.drainCpu _ t).bind fun _ t => .read_bind ?_
  refine (Moves.forM steps.drainFull _ t).bind fun _ t => .read_bind ?_
  exact .forM steps.drainEmpty _ t

end Drain

section Release

variable [IsPreorder AllocState R] {cpu : Fin NCPU_MAX} {addr : Nat}

theorem ReleaseSteps.kpageFree (steps : ReleaseSteps R c) (vaddr : Nat) (s : AllocState) :
    Moves R (kpageFree vaddr) s := by
  refine .check_bind (.read_bind (.check_bind ?_))
  refine (steps.acquire _ s).bind fun _ t => .check_bind (.check_bind ?_)
  exact (Moves.update (steps.pushFree t _)).bind fun _ u => steps.release _ u

theorem ReleaseSteps.releaseSlab (steps : ReleaseSteps R c) (p : Nat) (s : AllocState) :
    Moves R (releaseSlab c p) s :=
  (Moves.update (steps.cache s _)).bind fun _ t => steps.kpageFree _ t

theorem ReleaseSteps.drainCache (steps : ReleaseSteps R c) (s : AllocState) :
    Moves R (drainCache c) s := by
  refine .read_bind ((Moves.forM steps.drainFull _ s).bind fun _ t => ?_)
  refine .read_bind ((Moves.forM steps.drainEmpty _ t).bind fun _ u => ?_)
  exact .read_bind ((Moves.forM steps.releaseSlab _ u).bind fun _ _ => .ret)

theorem ReleaseSteps.kmemCacheDestroy (steps : ReleaseSteps R (.object addr))
    (struct : FreeSteps R .cacheCache)
    (list : ∀ s, R s { s with kmemCaches := s.kmemCaches.erase (.object addr) })
    (s : AllocState) : Moves R (kmemCacheDestroy cpu addr) s := by
  refine (steps.detachCache list s).bind fun _ t => .read_bind (.check_bind ?_)
  refine (Moves.forM steps.releaseSlab _ t).bind fun _ u => ?_
  exact (steps.release _ u).bind fun _ v => struct.freeDirect addr (.inl rfl) v

variable (steps : ∀ c, ReleaseSteps R c)
include steps

theorem reclaimCaches_moves (list : List CacheRef) (s : AllocState) :
    Moves R (reclaimCaches list) s := by
  induction list generalizing s with
  | nil => exact .ret
  | cons c rest ih =>
      unfold reclaimCaches
      apply Moves.read_bind
      split
      · exact ih s
      · refine ((steps c).tryAcquire _ s).bind fun _ t => ?_
        refine ((steps c).drainCache t).bind fun _ u => ?_
        refine ((steps c).release _ u).bind fun _ v => ?_
        exact (ih v).bind fun _ _ => .ret

theorem kmemReclaim_moves (s : AllocState) : Moves R kmemReclaim s := by
  refine ((steps .magazineCache).tryAcquire _ s).bind fun _ t => .read_bind ?_
  refine (reclaimCaches_moves steps _ t).bind fun _ u => ?_
  exact ((steps .magazineCache).release _ u).bind fun _ _ => .ret

end Release

end Kmem

end Av6
