import Av6.KmemSystem
import Av6.ReclaimRuns
import Av6.SlabRelease

/-!
# The order of the caches

The two static caches are the last ones on the list, and no operation puts a cache behind them:
`kmem_cache_create` inserts at the head.  So `kmem_reclaim` comes to `magazine_cache` after all
caches whose magazines it drains.
-/

namespace Av6

namespace Kmem

open FallibleState TransitionSystem

variable {s t : AllocState} {c : CacheRef} {cpu : Fin NCPU_MAX} {allowed : Op → Prop}

/-- The caches stay in order. -/
def OrderKept (s t : AllocState) : Prop :=
  MagazinesLast s.kmemCaches → MagazinesLast t.kmemCaches

instance : IsPreorder AllocState OrderKept where
  refl _ := id
  trans _ _ _ first second := second ∘ first

theorem OrderKept.of_list (list : t.kmemCaches = s.kmemCaches) : OrderKept s t := by
  intro last
  rwa [list]

theorem orderKept_steps (c : CacheRef) : ReleaseSteps OrderKept c where
  held _ _ := .of_list rfl
  magazines _ _ := .of_list rfl
  putSlot _ _ _ _ _ := .of_list rfl
  cache _ _ := .of_list rfl
  pushFree _ _ := .of_list rfl

theorem kpageAlloc_orderKept (s : AllocState) : Moves OrderKept kpageAlloc s :=
  fun page t runs => .of_list (kpageAlloc_noNewSlabs s page t runs).kmemCaches

theorem slabGrow_orderKept (c : CacheRef) (s : AllocState) : Moves OrderKept (slabGrow c) s := by
  refine (kpageAlloc_orderKept s).bind fun page t => ?_
  cases page with
  | none => exact .ret
  | some page =>
      have flagged : Moves OrderKept (kpageSetSlab (page / PGSIZE)) t :=
        .read_bind (.check_bind (.write (.of_list rfl)))
      exact flagged.bind fun _ u => (Moves.update (.of_list rfl)).bind fun _ _ => .ret

theorem findSlab_orderKept (c : CacheRef) (s : AllocState) : Moves OrderKept (findSlab c) s := by
  apply Moves.read_bind
  split
  · exact .ret
  · exact (Moves.write (R := OrderKept) (.of_list rfl)).bind fun _ _ => .ret
  · refine (slabGrow_orderKept c s).bind fun grown t => ?_
    cases grown with
    | none => exact .ret
    | some p => exact (Moves.update (.of_list rfl)).bind fun _ _ => .ret

theorem slabAllocLocked_orderKept (c : CacheRef) (s : AllocState) :
    Moves OrderKept (slabAllocLocked c) s := by
  refine (findSlab_orderKept c s).bind fun found t => ?_
  cases found with
  | none => exact .ret
  | some p =>
      have taken : Moves OrderKept (takeObject c p) t := by
        refine .read_bind (.check_bind (.check_bind ?_))
        exact (Moves.write (R := OrderKept) (.of_list rfl)).bind fun _ _ => .ret
      exact taken.bind fun _ _ => .ret

theorem allocDirect_orderKept (c : CacheRef) (s : AllocState) :
    Moves OrderKept (allocDirect c) s := by
  have steps := orderKept_steps c
  refine (steps.acquire _ s).bind fun _ t => ?_
  refine (slabAllocLocked_orderKept c t).bind fun _ u => ?_
  exact (steps.release _ u).bind fun _ _ => .ret

theorem allocLoop_orderKept (cpu : Fin NCPU_MAX) (c : CacheRef) (rounds : Nat) (s : AllocState) :
    Moves OrderKept (allocLoop cpu c rounds) s := by
  have steps := orderKept_steps c
  induction rounds generalizing s with
  | zero =>
      intro a t runs
      cases runs
  | succ rounds ih =>
      unfold allocLoop
      apply Moves.read_bind
      split
      · exact (Moves.write (R := OrderKept) (.of_list rfl)).bind fun _ _ => .ret
      · split
        · exact (Moves.write (R := OrderKept) (.of_list rfl)).bind fun _ t => ih t
        · refine (steps.acquire _ s).bind fun _ t => ?_
          split
          · refine (Moves.update (R := OrderKept) (.of_list rfl)).bind fun _ u => ?_
            exact (steps.release _ u).bind fun _ v => ih v
          · refine (slabAllocLocked_orderKept c t).bind fun _ u => ?_
            exact (steps.release _ u).bind fun _ _ => .ret

theorem kmemCacheAlloc_orderKept (cpu : Fin NCPU_MAX) (c : CacheRef) (s : AllocState) :
    Moves OrderKept (kmemCacheAlloc cpu c) s := by
  unfold kmemCacheAlloc
  split
  · exact allocLoop_orderKept cpu c 2 s
  · exact allocDirect_orderKept c s

theorem emptyMagazine_orderKept (c : CacheRef) (s : AllocState) :
    Moves OrderKept (emptyMagazine c) s := by
  apply Moves.read_bind
  split
  · exact (Moves.write (R := OrderKept) (.of_list rfl)).bind fun _ _ => .ret
  · refine (allocDirect_orderKept .magazineCache s).bind fun found t => ?_
    cases found with
    | none => exact .ret
    | some m => exact (Moves.update (R := OrderKept) (.of_list rfl)).bind fun _ _ => .ret

theorem freeLoop_orderKept (cpu : Fin NCPU_MAX) (c : CacheRef) (obj rounds : Nat)
    (s : AllocState) : Moves OrderKept (freeLoop cpu c obj rounds) s := by
  have steps := orderKept_steps c
  induction rounds generalizing s with
  | zero =>
      intro a t runs
      cases runs
  | succ rounds ih =>
      unfold freeLoop
      apply Moves.read_bind
      split
      · exact .write (.of_list rfl)
      · split
        · exact (Moves.write (R := OrderKept) (.of_list rfl)).bind fun _ t => ih t
        · refine (steps.acquire _ s).bind fun _ t => ?_
          refine (emptyMagazine_orderKept c t).bind fun found u => ?_
          cases found with
          | none =>
              refine (steps.slabFreeLocked obj (.inl rfl) u).bind fun _ v => ?_
              exact steps.release _ v
          | some m =>
              refine (Moves.update (R := OrderKept) (.of_list rfl)).bind fun _ v => ?_
              exact (steps.release _ v).bind fun _ w => ih w

theorem kmemCacheFree_orderKept (cpu : Fin NCPU_MAX) (c : CacheRef) (obj : Nat) (s : AllocState) :
    Moves OrderKept (kmemCacheFree cpu c obj) s := by
  unfold kmemCacheFree
  split
  · exact freeLoop_orderKept cpu c obj 2 s
  · exact (orderKept_steps c).freeDirect obj (.inl rfl) s

theorem kmemCacheCreate_orderKept (cpu : Fin NCPU_MAX) (size align : BitVec 64) (s : AllocState) :
    Moves OrderKept (kmemCacheCreate cpu size align) s := by
  have steps := orderKept_steps .cacheCache
  unfold kmemCacheCreate
  split
  · exact .ret
  · refine (kmemCacheAlloc_orderKept cpu .cacheCache s).bind fun found t => ?_
    cases found with
    | none => exact .ret
    | some addr =>
        refine (Moves.update (R := OrderKept) (.of_list rfl)).bind fun _ u => ?_
        split
        · exact (kmemCacheFree_orderKept cpu .cacheCache addr u).bind fun _ _ => .ret
        · refine (steps.acquire _ u).bind fun _ v => ?_
          have inserted : OrderKept v { v with kmemCaches := .object addr :: v.kmemCaches } :=
            magazinesLast_cons addr
          exact (Moves.update inserted).bind fun _ w => (steps.release _ w).bind fun _ _ => .ret

theorem kmemCacheDestroy_orderKept (cpu : Fin NCPU_MAX) (addr : Nat) (s : AllocState) :
    Moves OrderKept (kmemCacheDestroy cpu addr) s := by
  have struct := (orderKept_steps .cacheCache).toFreeSteps
  exact (orderKept_steps (.object addr)).kmemCacheDestroy struct (fun t last => last.erase _) s

theorem createClasses_orderKept (cpu : Fin NCPU_MAX) (sizes : List Nat) (s : AllocState) :
    Moves OrderKept (createClasses cpu sizes) s := by
  induction sizes generalizing s with
  | nil => exact .ret
  | cons size rest ih =>
      refine (kmemCacheCreate_orderKept cpu _ _ s).bind fun found t => ?_
      cases found with
      | none =>
          intro a u runs
          cases runs
      | some c => exact (ih t).bind fun _ _ => .ret

theorem kfree_orderKept (cpu : Fin NCPU_MAX) (ptr : Nat) (s : AllocState) :
    Moves OrderKept (kfree cpu ptr) s := by
  unfold kfree
  split
  · exact .ret
  · apply Moves.read_bind
    split
    · exact .read_bind (kmemCacheFree_orderKept cpu _ ptr s)
    · exact (orderKept_steps .magazineCache).kpageFree ptr s

theorem kmalloc_orderKept (cpu : Fin NCPU_MAX) (classes : List CacheRef) (size : BitVec 64)
    (s : AllocState) : Moves OrderKept (kmalloc cpu classes size) s := by
  unfold kmalloc
  split
  · exact .ret
  · split
    · split
      · exact .ret
      · exact kmemCacheAlloc_orderKept cpu _ s
    · split
      · exact kpageAlloc_orderKept s
      · exact .ret

theorem Op.run_orderKept (cpu : Fin NCPU_MAX) (classes : List CacheRef) (op : Op)
    (s : AllocState) : Moves OrderKept (op.run cpu classes) s := by
  cases op with
  | kmalloc size => exact kmalloc_orderKept cpu classes size s
  | kfree ptr => exact (kfree_orderKept cpu ptr s).bind fun _ _ => .ret
  | cacheAlloc c => exact kmemCacheAlloc_orderKept cpu c s
  | cacheFree c obj => exact (kmemCacheFree_orderKept cpu c obj s).bind fun _ _ => .ret
  | create size align => exact (kmemCacheCreate_orderKept cpu size align s).bind fun _ _ => .ret
  | destroy addr => exact (kmemCacheDestroy_orderKept cpu addr s).bind fun _ _ => .ret
  | pageAlloc => exact kpageAlloc_orderKept s
  | pageFree vaddr =>
      exact ((orderKept_steps .magazineCache).kpageFree vaddr s).bind fun _ _ => .ret
  | reclaim => exact (kmemReclaim_moves orderKept_steps s).bind fun _ _ => .ret

/-- In every state that a run leads to, `magazine_cache` comes after the caches with magazines. -/
theorem magazinesLast_of_reachable {s : System} (reached : KmemReachable allowed s) :
    MagazinesLast s.alloc.kmemCaches := by
  refine Reachable.invariant (I := fun s => MagazinesLast s.alloc.kmemCaches) ?_ ?_ reached
  · rintro start ⟨ram, -, -, cpu, boot, -⟩
    apply createClasses_orderKept cpu _ _ _ _ boot
    show MagazinesLast [.magazineCache, .cacheCache]
    simp [MagazinesLast, CacheRef.useMag]
  · rintro state after - last ⟨cpu, op, -, -, next⟩
    unfold System.exec at next
    cases outcome : op.run cpu state.classes state.alloc with
    | error e =>
        rw [outcome] at next
        cases next
    | ok result =>
        obtain ⟨result, alloc⟩ := result
        rw [outcome] at next
        cases next
        exact Op.run_orderKept cpu _ op _ _ _ outcome last

end Kmem

end Av6
