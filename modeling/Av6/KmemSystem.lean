import Av6.KmemModel
import Av6.TransitionSystem

/-!
# The clients of the allocators

`vm/kmalloc.c`, and the runs of the public operations of `kalloc.c`, `slab.c` and
`kmalloc.c`.  A grant is what a client has: the pointer, the number of bytes it may use, and
where they came from.
-/

namespace Av6

namespace Kmem

open FallibleState TransitionSystem

def KMALLOC_ALIGN : Nat := 16

def KMALLOC_MAX_SLAB : Nat := 1024

def ZERO_SIZE_PTR : Nat := 16

/-- `kmalloc_size` -/
def kmallocSize : List Nat :=
  [16, 32, 64, 96, 128, 192, 256, 384, 512, 1024]

/-- The inner loop of `kmalloc_init`; there are at most as many rounds as classes. -/
def skipClasses (size : Nat) : Nat → Nat → Nat
  | 0, k => k
  | rounds + 1, k =>
      if kmallocSize.getD k 0 < size then skipClasses size rounds (k + 1) else k

/-- The outer loop of `kmalloc_init`, which goes on from the class it has reached. -/
def fillIdx (k : Nat) : List Nat → List Nat
  | [] => []
  | size :: rest =>
      let k := skipClasses size kmallocSize.length k
      k :: fillIdx k rest

/-- `kmalloc_idx`: the class for a size in multiples of sixteen. -/
def kmallocIdx : List Nat :=
  0 :: fillIdx 0 ((List.range (KMALLOC_MAX_SLAB / KMALLOC_ALIGN)).map fun i =>
    (i + 1) * KMALLOC_ALIGN)

/-- The caches for the sizes, in their order. -/
def createClasses (cpu : Fin NCPU_MAX) : List Nat → Alloc (List CacheRef)
  | [] => return []
  | size :: rest => do
      match ← kmemCacheCreate cpu (BitVec.ofNat 64 size) (BitVec.ofNat 64 KMALLOC_ALIGN) with
      | none => throw (.noCache size)
      | some c => do
          let more ← createClasses cpu rest
          return c :: more

/-- `kmalloc_init`; the result is the table `kmalloc_cache`. -/
def kmallocInit (cpu : Fin NCPU_MAX) : Alloc (List CacheRef) :=
  createClasses cpu kmallocSize

/-- The class of a size that the slab range covers. -/
def classOf (size : BitVec 64) : Nat :=
  kmallocIdx.getD (roundUp size 16 / 16).toNat 0

/-- The cache that `kmalloc` turns to, and none for a whole page. -/
def kmallocOrigin (classes : List CacheRef) (size : BitVec 64) : Option CacheRef :=
  if size.toNat ≤ KMALLOC_MAX_SLAB then classes[classOf size]? else none

/-- `kmalloc`; after `kmalloc_init` the table has a cache for every class. -/
def kmalloc (cpu : Fin NCPU_MAX) (classes : List CacheRef) (size : BitVec 64) :
    Alloc (Option Nat) :=
  if size = 0 then return some ZERO_SIZE_PTR
  else if size.toNat ≤ KMALLOC_MAX_SLAB then
    match classes[classOf size]? with
    | none => return none
    | some c => kmemCacheAlloc cpu c
  else if size.toNat ≤ PGSIZE then kpageAlloc
  else return none

def kfree (cpu : Fin NCPU_MAX) (ptr : Nat) : Alloc Unit := do
  if ptr ≤ ZERO_SIZE_PTR then return
  else do
    let s ← get
    if kpageIsSlab s ptr then kmemFree cpu ptr
    else kpageFree ptr

/-- What a client has been given, and not given back. -/
structure Grant where
  ptr : Nat
  size : Nat
  origin : Option CacheRef
  deriving DecidableEq

/-- The allocators, the table `kmalloc_cache`, and what the clients have. -/
structure System where
  alloc : AllocState
  classes : List CacheRef
  grants : List Grant

/-- The public operations. -/
inductive Op
  | kmalloc (size : BitVec 64)
  | kfree (ptr : Nat)
  | cacheAlloc (c : CacheRef)
  | cacheFree (c : CacheRef) (obj : Nat)
  | create (size align : BitVec 64)
  | destroy (addr : Nat)
  | pageAlloc
  | pageFree (vaddr : Nat)
  | reclaim
  deriving DecidableEq

def Op.run (cpu : Fin NCPU_MAX) (classes : List CacheRef) : Op → Alloc (Option Nat)
  | kmalloc size => Kmem.kmalloc cpu classes size
  | kfree ptr => do
      Kmem.kfree cpu ptr
      return none
  | cacheAlloc c => kmemCacheAlloc cpu c
  | cacheFree c obj => do
      kmemCacheFree cpu c obj
      return none
  | create size align => do
      let _ ← kmemCacheCreate cpu size align
      return none
  | destroy addr => do
      kmemCacheDestroy cpu addr
      return none
  | pageAlloc => kpageAlloc
  | pageFree vaddr => do
      kpageFree vaddr
      return none
  | reclaim => do
      let _ ← kmemReclaim
      return none

/-- What a client may ask for: it frees only what it has, and by the right function, it uses
the caches that there are, and it destroys none of those of `kmalloc`. -/
def Op.Legal (s : System) : Op → Prop
  | kmalloc _ => True
  | kfree ptr => ptr ≤ ZERO_SIZE_PTR ∨ ∃ g ∈ s.grants, g.ptr = ptr
  | cacheAlloc c => c.useMag = true ∧ c ∈ s.alloc.kmemCaches
  | cacheFree c obj => ∃ g ∈ s.grants, g.ptr = obj ∧ g.origin = some c
  | create _ _ => True
  | destroy addr => .object addr ∈ s.alloc.kmemCaches ∧ .object addr ∉ s.classes
  | pageAlloc => True
  | pageFree vaddr => ∃ g ∈ s.grants, g.ptr = vaddr ∧ g.origin = none
  | reclaim => True

instance (s : System) (op : Op) : Decidable (op.Legal s) := by
  cases op <;> unfold Op.Legal <;> infer_instance

/-- A new grant, if the operation has returned a pointer. -/
def grantOf (size : Nat) (origin : Option CacheRef) (ptr : Option Nat) : List Grant :=
  ptr.toList.map fun ptr => ⟨ptr, size, origin⟩

/-- What the clients have after an operation with the given result. -/
def Op.grants (s : System) (result : Option Nat) : Op → List Grant
  | kmalloc size =>
      if size = 0 then s.grants
      else grantOf size.toNat (kmallocOrigin s.classes size) result ++ s.grants
  | kfree ptr => s.grants.eraseP fun g => g.ptr = ptr
  | cacheAlloc c => grantOf (s.alloc.caches c).layout.objsize (some c) result ++ s.grants
  | cacheFree c obj => s.grants.eraseP fun g => g.ptr = obj ∧ g.origin = some c
  | create _ _ => s.grants
  | destroy _ => s.grants
  | pageAlloc => grantOf PGSIZE none result ++ s.grants
  | pageFree vaddr => s.grants.eraseP fun g => g.ptr = vaddr ∧ g.origin = none
  | reclaim => s.grants

/-- One operation on some CPU; a run that meets a failing assertion goes no further. -/
def System.exec (s : System) (cpu : Fin NCPU_MAX) (op : Op) : Except Panic System := do
  let (result, alloc) ← op.run cpu s.classes s.alloc
  return { s with alloc := alloc, grants := op.grants s result }

variable {allowed : Op → Prop} {s t : System}

/-- The allocators after boot, on some set of pages. -/
def Booted (s : System) : Prop :=
  ∃ ram : List Nat, ram.Nodup ∧ (∀ p ∈ ram, 0 < p ∧ p < 2 ^ 52) ∧ ∃ cpu,
    kmallocInit cpu (kmemInit ram) = .ok (s.classes, s.alloc) ∧ s.grants = []

def KmemStep (allowed : Op → Prop) (s t : System) : Prop :=
  ∃ cpu op, op.Legal s ∧ allowed op ∧ s.exec cpu op = .ok t

/-- The states that runs of the allowed operations lead to. -/
def KmemReachable (allowed : Op → Prop) (s : System) : Prop :=
  Reachable Booted (KmemStep allowed) s

/-- A run, one operation after the other. -/
def System.execAll (s : System) : List (Fin NCPU_MAX × Op) → Option System
  | [] => some s
  | (cpu, op) :: rest =>
      if op.Legal s then
        match s.exec cpu op with
        | .ok t => t.execAll rest
        | .error _ => none
      else none

theorem KmemReachable.execAll (reached : KmemReachable allowed s)
    {ops : List (Fin NCPU_MAX × Op)} (fine : ∀ step ∈ ops, allowed step.2)
    (runs : s.execAll ops = some t) : KmemReachable allowed t := by
  induction ops generalizing s with
  | nil =>
      cases runs
      exact reached
  | cons step rest ih =>
      simp only [System.execAll] at runs
      split at runs
      · rename_i legal
        split at runs
        · rename_i u next
          exact ih (reached.next ⟨_, _, legal, fine _ (by simp), next⟩)
            (fun step there => fine step (by simp [there])) runs
        · cases runs
      · cases runs

end Kmem

end Av6
