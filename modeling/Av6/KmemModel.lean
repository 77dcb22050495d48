import Av6.Bitstring
import Av6.FallibleState
import Mathlib.Logic.Function.Basic

/-!
# The page allocator and the slab allocator

`vm/kalloc.c` and `vm/slab.c`, as programs over one state that stop where an assertion
fails.  A page is named by its number in the direct map, an object by its address,
and both are natural numbers.
The operations run one after the other, each on some CPU, so a lock that an operation
finds taken is one that it holds itself.

What a constructor writes into an object is left out: no function reads it.
-/

namespace Av6

namespace Kmem

open Bitstring FallibleState

def PGSIZE : Nat := 4096

def NCPU_MAX : Nat := 32

instance : NeZero NCPU_MAX :=
  ⟨by decide⟩

def MAG_DEPTH : Nat := 15

def KMEM_MIN_ALIGN : Nat := 16

def SLAB_MAX_OBJS : Nat := 256

/-- `sizeof(struct slab)` -/
def slabHeaderSize : Nat := 64

/-- `sizeof(struct kmem_cache)`, with 32 CPUs. -/
def cacheSize : Nat := 640

/-- `sizeof(struct kmem_magazine)` -/
def magazineSize : Nat := 144

/-- The two static caches, and those in objects of `cache_cache`. -/
inductive CacheRef
  | cacheCache
  | magazineCache
  | object (addr : Nat)
  deriving DecidableEq

/-- `use_mag`: `kmem_init` clears it and `kmem_cache_create` sets it, and nothing else
writes it. -/
def CacheRef.useMag : CacheRef → Bool
  | object _ => true
  | _ => false

inductive Lock
  | kmem
  | kmemCaches
  | cache (c : CacheRef)
  deriving DecidableEq

inductive PageFlag
  | unused
  | free
  | used
  | slab
  deriving DecidableEq

/-- The assertions, and the two places where the model stops without one: a read past
the end of `used[]`, and a loop that goes round more often than it has reason to. -/
inductive Panic
  | alreadyHeld (l : Lock)
  | notHeld (l : Lock)
  | unaligned
  | notManaged
  | notAllocated
  | badRefcnt
  | noFreeSlot
  | wrongCache
  | badAddress
  | liveObjects
  | noCache (size : Nat)
  | pastUsed
  | endless
  deriving DecidableEq

/-- What `cache_setup` computes. -/
structure Layout where
  objsize : Nat
  objOffset : Nat
  slotsPerSlab : Nat
  deriving DecidableEq

/-- The header of a slab page. -/
structure Slab where
  cache : CacheRef
  inuse : Int
  used : Bitstr

/-- `struct kmem_cache`.  A slab is named by its page and a magazine by its address. -/
structure Cache where
  layout : Layout
  partialSlabs : List Nat
  fullSlabs : List Nat
  emptySlabs : List Nat
  fullMags : List Nat
  emptyMags : List Nat
  loaded : Fin NCPU_MAX → Option Nat
  previous : Fin NCPU_MAX → Option Nat

/-- The two allocators, with the descriptors of the managed pages, the headers of the
slab pages, and the valid entries of every magazine.  `held` are the locks that the
running operation holds. -/
structure AllocState where
  managed : List Nat
  freelist : List Nat
  flags : Nat → PageFlag
  refcnt : Nat → Int
  slabs : Nat → Slab
  magazines : Nat → List Nat
  caches : CacheRef → Cache
  kmemCaches : List CacheRef
  held : List Lock

abbrev Alloc := StateT AllocState (Except Panic)

def AllocState.updateCache (s : AllocState) (c : CacheRef) (f : Cache → Cache) : AllocState :=
  { s with caches := Function.update s.caches c (f (s.caches c)) }

/-- `acquire_spinlock` -/
def acquire (l : Lock) : Alloc Unit := do
  let s ← get
  check (l ∉ s.held) (.alreadyHeld l)
  set { s with held := l :: s.held }

/-- `try_acquire_spinlock`: no other CPU is inside an operation. -/
def tryAcquire (l : Lock) : Alloc Bool := do
  acquire l
  return true

/-- `release_spinlock` -/
def release (l : Lock) : Alloc Unit := do
  let s ← get
  check (l ∈ s.held) (.notHeld l)
  set { s with held := s.held.erase l }

/-- The last part of `kpage_free`. -/
def AllocState.pushFree (s : AllocState) (p : Nat) : AllocState :=
  { s with
    flags := Function.update s.flags p .free
    refcnt := Function.update s.refcnt p 0
    freelist := p :: s.freelist }

def kpageFree (vaddr : Nat) : Alloc Unit := do
  check (vaddr % PGSIZE = 0) .unaligned
  let s ← get
  let p := vaddr / PGSIZE
  check (p ∈ s.managed) .notManaged
  acquire .kmem
  check (s.flags p = .used ∨ s.flags p = .slab) .notAllocated
  check (s.refcnt p = 1) .badRefcnt
  modify (·.pushFree p)
  release .kmem

/-- Take the page off the freelist. -/
def AllocState.popFree (s : AllocState) (p : Nat) (rest : List Nat) : AllocState :=
  { s with
    freelist := rest
    flags := Function.update s.flags p .used
    refcnt := Function.update s.refcnt p 1 }

def freelistPop : Alloc (Option Nat) := do
  acquire .kmem
  let s ← get
  match s.freelist with
  | [] => do
      release .kmem
      return none
  | p :: rest => do
      set (s.popFree p rest)
      release .kmem
      return some p

def kpageSetSlab (p : Nat) : Alloc Unit := do
  let s ← get
  check (p ∈ s.managed) .notManaged
  set { s with flags := Function.update s.flags p .slab }

def kpageIsSlab (s : AllocState) (va : Nat) : Bool :=
  va / PGSIZE ∈ s.managed && s.flags (va / PGSIZE) = .slab

/-- `(x + align - 1) & ~(align - 1)` -/
def roundUp (x align : BitVec 64) : BitVec 64 :=
  (x + align - 1) &&& ~~~(align - 1)

/-- The layout that `cache_setup` fills in; a division by zero gives zero, as the
machine's does. -/
def cacheLayout (size align : BitVec 64) : Layout :=
  let align := if align < 16 then 16 else align
  let size := roundUp size align
  let off := roundUp 64 align
  { objsize := size.toNat
    objOffset := off.toNat % 2 ^ 32
    slotsPerSlab := ((4096 - off) / size).toNat % 2 ^ 32 }

/-- `cache_setup` -/
def cacheSetup (size align : BitVec 64) : Cache where
  layout := cacheLayout size align
  partialSlabs := []
  fullSlabs := []
  emptySlabs := []
  fullMags := []
  emptyMags := []
  loaded _ := none
  previous _ := none

/-- `slab_obj`; addresses are 64 bits wide. -/
def slabObj (l : Layout) (p : Nat) (slot : Nat) : Nat :=
  (p * PGSIZE + l.objOffset + slot * l.objsize) % 2 ^ 64

/-- The conversion of an unsigned value to `int`. -/
def toInt32 (n : Nat) : Int := (BitVec.ofNat 32 n).toInt

/-- The slot number that `slab_free_locked` computes. -/
def slotOf (l : Layout) (p : Nat) (obj : Nat) : Int :=
  toInt32 ((obj + 2 ^ 64 - (p * PGSIZE + l.objOffset) % 2 ^ 64) % 2 ^ 64 / l.objsize)

/-- `LIST_REMOVE` of a slab, from the list it is on. -/
def Cache.removeSlab (k : Cache) (p : Nat) : Cache :=
  { k with
    partialSlabs := k.partialSlabs.erase p
    fullSlabs := k.fullSlabs.erase p
    emptySlabs := k.emptySlabs.erase p }

/-- Set a slab's bit, and move the slab if it is full now. -/
def AllocState.takeSlot (s : AllocState) (c : CacheRef) (p : Nat) (slot : Nat) : AllocState :=
  let k := s.caches c
  let slab := s.slabs p
  let inuse := slab.inuse + 1
  let k :=
    if inuse = k.layout.slotsPerSlab then
      { k.removeSlab p with fullSlabs := p :: (k.removeSlab p).fullSlabs }
    else k
  { s with
    slabs := Function.update s.slabs p { slab with inuse := inuse, used := bitSet slab.used slot }
    caches := Function.update s.caches c k }

/-- Clear a slab's bit, and move the slab if it was full or is empty now. -/
def AllocState.putSlot (s : AllocState) (c : CacheRef) (p : Nat) (slot : Nat) : AllocState :=
  let k := s.caches c
  let slab := s.slabs p
  let wasFull := slab.inuse = k.layout.slotsPerSlab
  let inuse := slab.inuse - 1
  let k :=
    if wasFull then
      { k.removeSlab p with partialSlabs := p :: (k.removeSlab p).partialSlabs }
    else k
  let k :=
    if inuse = 0 then
      { k.removeSlab p with emptySlabs := p :: (k.removeSlab p).emptySlabs }
    else k
  { s with
    slabs := Function.update s.slabs p
      { slab with inuse := inuse, used := bitClear slab.used slot }
    caches := Function.update s.caches c k }

def slabFreeLocked (c : CacheRef) (obj : Nat) : Alloc Unit := do
  let s ← get
  let p := obj / PGSIZE
  check ((s.slabs p).cache = c) .wrongCache
  let layout := (s.caches c).layout
  let slot := slotOf layout p obj
  check (0 ≤ slot ∧ slot < layout.slotsPerSlab ∧ bitTest (s.slabs p).used slot.toNat = true)
    .badAddress
  set (s.putSlot c p slot.toNat)

/-- `kmem_cache_free` on a cache without magazines. -/
def freeDirect (c : CacheRef) (obj : Nat) : Alloc Unit := do
  acquire (.cache c)
  slabFreeLocked c obj
  release (.cache c)

def drainMagazine (c : CacheRef) (m : Nat) : Alloc Unit := do
  let s ← get
  (s.magazines m).forM (slabFreeLocked c)
  modify fun s => { s with magazines := Function.update s.magazines m [] }
  freeDirect .magazineCache m

/-- Drain the depot: the full magazines. -/
def drainFull (c : CacheRef) (m : Nat) : Alloc Unit := do
  modify (·.updateCache c fun k => { k with fullMags := k.fullMags.erase m })
  drainMagazine c m

/-- Drain the depot: the empty magazines. -/
def drainEmpty (c : CacheRef) (m : Nat) : Alloc Unit := do
  modify (·.updateCache c fun k => { k with emptyMags := k.emptyMags.erase m })
  drainMagazine c m

/-- Give the page of an empty slab back. -/
def releaseSlab (c : CacheRef) (p : Nat) : Alloc Unit := do
  modify (·.updateCache c fun k => { k with emptySlabs := k.emptySlabs.erase p })
  kpageFree (p * PGSIZE)

/-- The three loops over a cache whose lock is held; the result is the number of pages
given back. -/
def drainCache (c : CacheRef) : Alloc Nat := do
  let s ← get
  (s.caches c).fullMags.forM (drainFull c)
  let s ← get
  (s.caches c).emptyMags.forM (drainEmpty c)
  let s ← get
  (s.caches c).emptySlabs.forM (releaseSlab c)
  return (s.caches c).emptySlabs.length

/-- The loop of `kmem_reclaim` over the caches. -/
def reclaimCaches : List CacheRef → Alloc Nat
  | [] => return 0
  | c :: rest => do
      let s ← get
      if Lock.cache c ∈ s.held then reclaimCaches rest
      else do
        let _ ← tryAcquire (.cache c)
        let freed ← drainCache c
        release (.cache c)
        let more ← reclaimCaches rest
        return freed + more

def kmemReclaim : Alloc Nat := do
  let _ ← tryAcquire .kmemCaches
  let s ← get
  let freed ← reclaimCaches s.kmemCaches
  release .kmemCaches
  return freed

def kpageAlloc : Alloc (Option Nat) := do
  match ← freelistPop with
  | some p => return some (p * PGSIZE)
  | none => do
      if 0 < (← kmemReclaim) then
        return (← freelistPop).map (· * PGSIZE)
      else return none

/-- A page becomes a slab with all slots free. -/
def AllocState.carve (s : AllocState) (c : CacheRef) (p : Nat) : AllocState :=
  { s with
    slabs := Function.update s.slabs p
      { cache := c, inuse := 0, used := List.replicate (SLAB_MAX_OBJS / 64) 0 } }

def slabGrow (c : CacheRef) : Alloc (Option Nat) := do
  match ← kpageAlloc with
  | none => return none
  | some page => do
      kpageSetSlab (page / PGSIZE)
      modify (·.carve c (page / PGSIZE))
      return some (page / PGSIZE)

/-- The first part of `slab_alloc_locked`: a slab with a free slot, at the head of the
partial list. -/
def findSlab (c : CacheRef) : Alloc (Option Nat) := do
  let s ← get
  match (s.caches c).partialSlabs, (s.caches c).emptySlabs with
  | p :: _, _ => return some p
  | [], p :: _ => do
      set (s.updateCache c fun k =>
        { k.removeSlab p with partialSlabs := p :: (k.removeSlab p).partialSlabs })
      return some p
  | [], [] => do
      match ← slabGrow c with
      | none => return none
      | some p => do
          modify (·.updateCache c fun k => { k with partialSlabs := p :: k.partialSlabs })
          return some p

/-- The second part of `slab_alloc_locked`: a slot of the slab. -/
def takeObject (c : CacheRef) (p : Nat) : Alloc Nat := do
  let s ← get
  let layout := (s.caches c).layout
  check (toInt32 layout.slotsPerSlab ≤ SLAB_MAX_OBJS) .pastUsed
  let slot := bitFfc (s.slabs p).used (toInt32 layout.slotsPerSlab)
  check (0 ≤ slot) .noFreeSlot
  set (s.takeSlot c p slot.toNat)
  return slabObj layout p slot.toNat

def slabAllocLocked (c : CacheRef) : Alloc (Option Nat) := do
  match ← findSlab c with
  | none => return none
  | some p => do
      let obj ← takeObject c p
      return some obj

/-- `kmem_cache_alloc` on a cache without magazines. -/
def allocDirect (c : CacheRef) : Alloc (Option Nat) := do
  acquire (.cache c)
  let obj ← slabAllocLocked c
  release (.cache c)
  return obj

/-- The magazine and the object on its top. -/
def AllocState.top (s : AllocState) (m : Option Nat) : Option (Nat × Nat) :=
  m.bind fun m => (s.magazines m).getLast?.map fun obj => (m, obj)

/-- The magazine, if it has room. -/
def AllocState.room (s : AllocState) (m : Option Nat) : Option Nat :=
  m.filter fun m => (s.magazines m).length < MAG_DEPTH

def AllocState.hasCount (s : AllocState) (m : Option Nat) (count : Nat) : Bool :=
  m.any fun m => (s.magazines m).length = count

/-- Exchange a CPU's two magazines. -/
def AllocState.swap (s : AllocState) (cpu : Fin NCPU_MAX) (c : CacheRef) : AllocState :=
  s.updateCache c fun k =>
    { k with
      loaded := Function.update k.loaded cpu (k.previous cpu)
      previous := Function.update k.previous cpu (k.loaded cpu) }

/-- Load a full magazine of the depot. -/
def AllocState.loadFull (s : AllocState) (cpu : Fin NCPU_MAX) (c : CacheRef) (full : Nat) :
    AllocState :=
  s.updateCache c fun k =>
    { k with
      fullMags := k.fullMags.erase full
      emptyMags := (k.previous cpu).toList ++ k.emptyMags
      previous := Function.update k.previous cpu (k.loaded cpu)
      loaded := Function.update k.loaded cpu (some full) }

/-- Load an empty magazine that is on no list. -/
def AllocState.loadEmpty (s : AllocState) (cpu : Fin NCPU_MAX) (c : CacheRef) (empty : Nat) :
    AllocState :=
  s.updateCache c fun k =>
    { k with
      fullMags := (k.previous cpu).toList ++ k.fullMags
      previous := Function.update k.previous cpu (k.loaded cpu)
      loaded := Function.update k.loaded cpu (some empty) }

/-- The loop of `kmem_cache_alloc`. -/
def allocLoop (cpu : Fin NCPU_MAX) (c : CacheRef) : Nat → Alloc (Option Nat)
  | 0 => throw .endless
  | rounds + 1 => do
      let s ← get
      match s.top ((s.caches c).loaded cpu) with
      | some (m, obj) => do
          set { s with magazines := Function.update s.magazines m (s.magazines m).dropLast }
          return some obj
      | none =>
          if s.hasCount ((s.caches c).previous cpu) MAG_DEPTH then do
            set (s.swap cpu c)
            allocLoop cpu c rounds
          else do
            acquire (.cache c)
            match (s.caches c).fullMags with
            | full :: _ => do
                modify (·.loadFull cpu c full)
                release (.cache c)
                allocLoop cpu c rounds
            | [] => do
                let obj ← slabAllocLocked c
                release (.cache c)
                return obj

def kmemCacheAlloc (cpu : Fin NCPU_MAX) (c : CacheRef) : Alloc (Option Nat) :=
  if c.useMag then allocLoop cpu c 2 else allocDirect c

/-- An empty magazine, from the depot or a new one. -/
def emptyMagazine (c : CacheRef) : Alloc (Option Nat) := do
  let s ← get
  match (s.caches c).emptyMags with
  | empty :: _ => do
      set (s.updateCache c fun k => { k with emptyMags := k.emptyMags.erase empty })
      return some empty
  | [] => do
      match ← allocDirect .magazineCache with
      | none => return none
      | some empty => do
          modify fun s => { s with magazines := Function.update s.magazines empty [] }
          return some empty

/-- The loop of `kmem_cache_free`. -/
def freeLoop (cpu : Fin NCPU_MAX) (c : CacheRef) (obj : Nat) : Nat → Alloc Unit
  | 0 => throw .endless
  | rounds + 1 => do
      let s ← get
      match s.room ((s.caches c).loaded cpu) with
      | some m =>
          set { s with magazines := Function.update s.magazines m (s.magazines m ++ [obj]) }
      | none =>
          if s.hasCount ((s.caches c).previous cpu) 0 then do
            set (s.swap cpu c)
            freeLoop cpu c obj rounds
          else do
            acquire (.cache c)
            match ← emptyMagazine c with
            | none => do
                slabFreeLocked c obj
                release (.cache c)
            | some empty => do
                modify (·.loadEmpty cpu c empty)
                release (.cache c)
                freeLoop cpu c obj rounds

def kmemCacheFree (cpu : Fin NCPU_MAX) (c : CacheRef) (obj : Nat) : Alloc Unit :=
  if c.useMag then freeLoop cpu c obj 2 else freeDirect c obj

def kmemFree (cpu : Fin NCPU_MAX) (obj : Nat) : Alloc Unit := do
  let s ← get
  kmemCacheFree cpu (s.slabs (obj / PGSIZE)).cache obj

def kmemCacheCreate (cpu : Fin NCPU_MAX) (size align : BitVec 64) : Alloc (Option CacheRef) := do
  if size = 0 then return none
  else do
    match ← kmemCacheAlloc cpu .cacheCache with
    | none => return none
    | some addr => do
        modify (·.updateCache (.object addr) fun _ => cacheSetup size align)
        if (cacheLayout size align).slotsPerSlab = 0 then do
          kmemCacheFree cpu .cacheCache addr
          return none
        else do
          acquire .kmemCaches
          modify fun s => { s with kmemCaches := .object addr :: s.kmemCaches }
          release .kmemCaches
          return some (.object addr)

/-- Drain and clear the `loaded` slot of a CPU. -/
def drainLoaded (c : CacheRef) (cpu : Fin NCPU_MAX) : Alloc Unit := do
  let s ← get
  match (s.caches c).loaded cpu with
  | none => return
  | some m => do
      drainMagazine c m
      modify (·.updateCache c fun k => { k with loaded := Function.update k.loaded cpu none })

/-- Drain and clear the `previous` slot of a CPU. -/
def drainPrevious (c : CacheRef) (cpu : Fin NCPU_MAX) : Alloc Unit := do
  let s ← get
  match (s.caches c).previous cpu with
  | none => return
  | some m => do
      drainMagazine c m
      modify (·.updateCache c fun k => { k with previous := Function.update k.previous cpu none })

/-- The body of the loop of `kmem_cache_destroy` over the CPUs. -/
def drainCpu (c : CacheRef) (cpu : Fin NCPU_MAX) : Alloc Unit := do
  drainLoaded c cpu
  drainPrevious c cpu

/-- `kmem_cache_destroy` up to its assertion: the cache leaves the list, and its magazines
are drained. -/
def detachCache (c : CacheRef) : Alloc Unit := do
  acquire .kmemCaches
  modify fun s => { s with kmemCaches := s.kmemCaches.erase c }
  release .kmemCaches
  acquire (.cache c)
  (List.finRange NCPU_MAX).forM (drainCpu c)
  let s ← get
  (s.caches c).fullMags.forM (drainFull c)
  let s ← get
  (s.caches c).emptyMags.forM (drainEmpty c)

/-- `kmem_cache_destroy` of the cache in the object at `addr`. -/
def kmemCacheDestroy (cpu : Fin NCPU_MAX) (addr : Nat) : Alloc Unit := do
  let c : CacheRef := .object addr
  detachCache c
  let s ← get
  check ((s.caches c).partialSlabs = [] ∧ (s.caches c).fullSlabs = []) .liveObjects
  (s.caches c).emptySlabs.forM (releaseSlab c)
  release (.cache c)
  kmemCacheFree cpu .cacheCache addr

/-- After `kinit` on the pages `ram`, and `kmem_init`. -/
def kmemInit (ram : List Nat) : AllocState where
  managed := ram
  freelist := ram.reverse
  flags p := if p ∈ ram then .free else .unused
  refcnt _ := 0
  slabs _ := ⟨.cacheCache, 0, []⟩
  magazines _ := []
  caches
    | .cacheCache => cacheSetup (BitVec.ofNat 64 cacheSize) 0
    | .magazineCache => cacheSetup (BitVec.ofNat 64 magazineSize) 0
    | .object _ => cacheSetup 0 0
  kmemCaches := [.magazineCache, .cacheCache]
  held := []

end Kmem

end Av6
