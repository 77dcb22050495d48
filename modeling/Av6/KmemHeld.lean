import Av6.KmemModel
import Av6.MonotoneRuns

/-!
# Locks are given back

A run of `cache_cache`'s allocation that ends holds the locks it began with, in whatever state it
began.
-/

namespace Av6

namespace Kmem

open FallibleState

variable {α β : Type} {s t : AllocState} {l : Lock} {m : Alloc α} {f : α → Alloc β}

/-- The same locks are held. -/
def SameHeld (s t : AllocState) : Prop :=
  t.held = s.held

instance : IsPreorder AllocState SameHeld where
  refl _ := rfl
  trans _ _ _ first second := Eq.trans second first

/-- One lock less is held. -/
def Releases (l : Lock) (s t : AllocState) : Prop :=
  t.held = s.held.erase l

theorem acquire_holds (l : Lock) (s : AllocState) :
    Moves (fun s t => t.held = l :: s.held) (acquire l) s :=
  .read_bind (.check_bind (.write rfl))

theorem acquire_sameHeld {f : Unit → Alloc β} (rest : ∀ t, Moves (Releases l) (f ()) t) :
    Moves SameHeld (acquire l >>= f) s := by
  intro b u runs
  obtain ⟨a, t, acquired, runs⟩ := exists_of_bind runs
  have held := rest t b u runs
  unfold Releases at held
  rw [acquire_holds l s a t acquired, List.erase_cons_head] at held
  exact held

theorem tryAcquire_sameHeld {f : Bool → Alloc β} (rest : ∀ t, Moves (Releases l) (f true) t) :
    Moves SameHeld (tryAcquire l >>= f) s := by
  unfold tryAcquire
  rw [bind_assoc]
  refine acquire_sameHeld fun t => ?_
  rw [pure_bind]
  exact rest t

theorem sameHeld_bind (first : Moves SameHeld m s)
    (rest : ∀ a t, Moves (Releases l) (f a) t) : Moves (Releases l) (m >>= f) s := by
  intro b u runs
  obtain ⟨a, t, runs, runs'⟩ := exists_of_bind runs
  have same : t.held = s.held := first a t runs
  have held := rest a t b u runs'
  unfold Releases at held
  rw [same] at held
  exact held

theorem release_releases (s : AllocState) : Moves (Releases l) (release l) s :=
  .read_bind (.check_bind (.write rfl))

theorem release_sameHeld {f : Unit → Alloc β} (rest : ∀ t, Moves SameHeld (f ()) t) :
    Moves (Releases l) (release l >>= f) s := by
  intro b u runs
  obtain ⟨a, t, released, runs⟩ := exists_of_bind runs
  have first : t.held = s.held.erase l := release_releases s a t released
  have second : u.held = t.held := rest t b u runs
  exact second.trans first

section Programs

variable {c : CacheRef} {p : Nat}

theorem freelistPop_sameHeld (s : AllocState) : Moves SameHeld freelistPop s := by
  refine acquire_sameHeld fun t => .read_bind ?_
  cases t.freelist with
  | nil => exact release_sameHeld fun u => .ret
  | cons p rest =>
      exact sameHeld_bind (.write rfl) fun _ u => release_sameHeld fun v => .ret

theorem kpageFree_sameHeld (vaddr : Nat) (s : AllocState) : Moves SameHeld (kpageFree vaddr) s := by
  refine .check_bind (.read_bind (.check_bind (acquire_sameHeld fun t => ?_)))
  refine .check_bind (.check_bind (sameHeld_bind (.update rfl) fun _ u => ?_))
  exact release_releases u

theorem slabFreeLocked_sameHeld (c : CacheRef) (obj : Nat) (s : AllocState) :
    Moves SameHeld (slabFreeLocked c obj) s :=
  .read_bind (.check_bind (.check_bind (.write rfl)))

theorem freeDirect_sameHeld (c : CacheRef) (obj : Nat) (s : AllocState) :
    Moves SameHeld (freeDirect c obj) s :=
  acquire_sameHeld fun t =>
    sameHeld_bind (slabFreeLocked_sameHeld c obj t) fun _ u => release_releases u

theorem drainMagazine_sameHeld (c : CacheRef) (m : Nat) (s : AllocState) :
    Moves SameHeld (drainMagazine c m) s := by
  refine .read_bind ((Moves.forM (slabFreeLocked_sameHeld c) _ s).bind fun _ t => ?_)
  refine (Moves.update rfl).bind fun _ u => ?_
  exact freeDirect_sameHeld .magazineCache m u

theorem drainFull_sameHeld (c : CacheRef) (m : Nat) (s : AllocState) :
    Moves SameHeld (drainFull c m) s :=
  (Moves.update rfl).bind fun _ t => drainMagazine_sameHeld c m t

theorem drainEmpty_sameHeld (c : CacheRef) (m : Nat) (s : AllocState) :
    Moves SameHeld (drainEmpty c m) s :=
  (Moves.update rfl).bind fun _ t => drainMagazine_sameHeld c m t

theorem releaseSlab_sameHeld (c : CacheRef) (p : Nat) (s : AllocState) :
    Moves SameHeld (releaseSlab c p) s :=
  (Moves.update rfl).bind fun _ t => kpageFree_sameHeld _ t

theorem drainCache_sameHeld (c : CacheRef) (s : AllocState) : Moves SameHeld (drainCache c) s := by
  refine .read_bind ((Moves.forM (drainFull_sameHeld c) _ s).bind fun _ t => ?_)
  refine .read_bind ((Moves.forM (drainEmpty_sameHeld c) _ t).bind fun _ u => ?_)
  exact .read_bind ((Moves.forM (releaseSlab_sameHeld c) _ u).bind fun _ _ => .ret)

theorem reclaimCaches_sameHeld (list : List CacheRef) (s : AllocState) :
    Moves SameHeld (reclaimCaches list) s := by
  induction list generalizing s with
  | nil => exact .ret
  | cons c rest ih =>
      unfold reclaimCaches
      refine .read_bind ?_
      split
      · exact ih s
      · refine tryAcquire_sameHeld fun t => ?_
        refine sameHeld_bind (drainCache_sameHeld c t) fun _ u => release_sameHeld fun v => ?_
        exact (ih v).bind fun _ _ => .ret

theorem kmemReclaim_sameHeld (s : AllocState) : Moves SameHeld kmemReclaim s := by
  refine tryAcquire_sameHeld fun t => .read_bind ?_
  refine sameHeld_bind (reclaimCaches_sameHeld _ t) fun _ u => release_sameHeld fun v => .ret

theorem kpageAlloc_sameHeld (s : AllocState) : Moves SameHeld kpageAlloc s := by
  refine (freelistPop_sameHeld s).bind fun page t => ?_
  cases page with
  | some p => exact .ret
  | none =>
      refine (kmemReclaim_sameHeld t).bind fun freed u => ?_
      split
      · exact (freelistPop_sameHeld u).bind fun _ _ => .ret
      · exact .ret

theorem findSlab_sameHeld (c : CacheRef) (s : AllocState) : Moves SameHeld (findSlab c) s := by
  refine .read_bind ?_
  split
  · exact .ret
  · exact (Moves.write (R := SameHeld) rfl).bind fun _ _ => .ret
  · refine Moves.bind ((kpageAlloc_sameHeld s).bind fun page t => ?_) fun grown u => ?_
    · cases page with
      | none => exact .ret
      | some page =>
          refine Moves.bind (.read_bind (.check_bind (.write rfl))) fun _ v => ?_
          exact (Moves.update rfl).bind fun _ _ => .ret
    · cases grown with
      | none => exact .ret
      | some p => exact (Moves.update rfl).bind fun _ _ => .ret

theorem slabAllocLocked_sameHeld (c : CacheRef) (s : AllocState) :
    Moves SameHeld (slabAllocLocked c) s := by
  refine (findSlab_sameHeld c s).bind fun found t => ?_
  cases found with
  | none => exact .ret
  | some p =>
      refine Moves.bind (.read_bind (.check_bind (.check_bind ?_))) fun _ _ => .ret
      exact (Moves.write (R := SameHeld) rfl).bind fun _ _ => .ret

theorem allocDirect_sameHeld (c : CacheRef) (s : AllocState) :
    Moves SameHeld (allocDirect c) s :=
  acquire_sameHeld fun t =>
    sameHeld_bind (slabAllocLocked_sameHeld c t) fun _ _ => release_sameHeld fun _ => .ret

end Programs

end Kmem

end Av6
