import Av6.KmemModel

/-!
# User page tables

The user half of `arch/pmap.c`, over the page allocator and the contents of the pages.  A page
is named by the number of its address in the direct map, and a pointer to a page-table entry
is a page and an index.  A page's contents are bytes, and a page-table entry is eight of them.
Cache maintenance and barriers have no effect here.
-/

namespace Av6

namespace Pmap

open FallibleState Kmem

def TABLE_ENTRIES : Nat := 512

def MAXUVA : Nat := 2 ^ 48

def USER_BASE : Nat := 0

def KERN_BASE : Nat := 0xFFFF000000000000

def PTE_VALID : Nat := 1

def PTE_TABLE : Nat := 2

/-- `PTE_VALID | PTE_TABLE | PTE_ATTRINDX(2) | PTE_AP_RW_ALL | PTE_SH_INNER | PTE_AF | PTE_PXN` -/
def PAGE_USER : Nat := 1 ||| 2 ||| 2 <<< 2 ||| 1 <<< 6 ||| 3 <<< 8 ||| 1 <<< 10 ||| 1 <<< 53

inductive Panic where
  | kmem (why : Kmem.Panic)
  | walkRange (va : Nat)
  | mapEmpty
  | remap (va : Nat)
  | imageOutside (off len : Nat)
  | kstackRange (slot : Nat)
  | nullPte
  deriving DecidableEq

abbrev Memory := Nat → Nat → UInt8

/-- The page of the static table `l2_kstack`, in the kernel image; no page of the direct map. -/
def L2_KSTACK : Nat := 0

structure VmState where
  kmem : AllocState
  memory : Memory

abbrev Vm := StateT VmState (Except Panic)

def onKmem {α : Type} (m : Alloc α) : Vm α :=
  onPart VmState.kmem (fun s kmem => { s with kmem }) .kmem m

/-- `kpage_alloc`, as a page number. -/
def allocPage : Vm (Option Nat) := do
  let page ← onKmem kpageAlloc
  return page.map (· / PGSIZE)

/-- `kpage_free` -/
def freePage (page : Nat) : Vm Unit := onKmem (kpageFree (page * PGSIZE))

/-- `KVA_TO_PA` of a page. -/
def kvaToPa (page : Nat) : Nat := page * PGSIZE - KERN_BASE

/-- `PA_TO_KVA`, as a page number. -/
def paToKva (pa : Nat) : Nat := (pa + KERN_BASE) / PGSIZE

/-- `PTE_ADDR`: the mask is `0x0000FFFFFFFFF000`. -/
def pteAddr (pte : Nat) : Nat := pte &&& (2 ^ 36 - 1) <<< 12

/-- `*pte & PTE_VALID` -/
def isValid (pte : Nat) : Prop := pte &&& PTE_VALID ≠ 0

instance (pte : Nat) : Decidable (isValid pte) :=
  inferInstanceAs (Decidable (_ ≠ _))

/-- The page that an entry points at. -/
def ptePage (pte : Nat) : Nat := paToKva (pteAddr pte)

/-- Eight bytes of a page, little-endian. -/
def wordAt (memory : Memory) (page i : Nat) : Nat :=
  (memory page (8 * i)).toNat + (memory page (8 * i + 1)).toNat * 2 ^ 8
    + (memory page (8 * i + 2)).toNat * 2 ^ 16 + (memory page (8 * i + 3)).toNat * 2 ^ 24
    + (memory page (8 * i + 4)).toNat * 2 ^ 32 + (memory page (8 * i + 5)).toNat * 2 ^ 40
    + (memory page (8 * i + 6)).toNat * 2 ^ 48 + (memory page (8 * i + 7)).toNat * 2 ^ 56

def setWord (memory : Memory) (page i word : Nat) : Memory := fun q off =>
  if q = page ∧ off / 8 = i then UInt8.ofNat (word / 2 ^ (8 * (off % 8))) else memory q off

/-- `memset(page, 0, PGSIZE)` -/
def zeroPage (memory : Memory) (page : Nat) : Memory := fun q off =>
  if q = page ∧ off < PGSIZE then 0 else memory q off

/-- `memcpy` of whole pages. -/
def copyPage (memory : Memory) (dst src : Nat) : Memory := fun q off =>
  if q = dst ∧ off < PGSIZE then memory src off else memory q off

def readPte (page i : Nat) : Vm Nat := do
  let s ← get
  return wordAt s.memory page i

def writePte (page i word : Nat) : Vm Unit :=
  modify fun s => { s with memory := setWord s.memory page i word }

/-- `ptalloc` -/
def ptalloc : Vm (Option Nat) := do
  match ← allocPage with
  | none => return none
  | some page => do
      modify fun s => { s with memory := zeroPage s.memory page }
      return some page

/-- `pt_shift` -/
def ptShift (level : Nat) : Nat := 39 - 9 * level

def tableIndex (va level : Nat) : Nat := va / 2 ^ ptShift level % TABLE_ENTRIES

/-- The loop of `walk`, from the table at a level to the last table. -/
def walkLoop (va : Nat) (alloc : Bool) : Nat → Nat → Nat → Vm (Option Nat)
  | 0, _, page => return some page
  | left + 1, level, page => do
      let pte ← readPte page (tableIndex va level)
      if isValid pte then walkLoop va alloc left (level + 1) (ptePage pte)
      else if alloc then
        match ← ptalloc with
        | none => return none
        | some next => do
            writePte page (tableIndex va level) (kvaToPa next ||| PTE_VALID ||| PTE_TABLE)
            walkLoop va alloc left (level + 1) next
      else return none

/-- `walk`: the last table and the index in it. -/
def walk (pagetable va : Nat) (alloc : Bool) : Vm (Option (Nat × Nat)) := do
  check (va < MAXUVA) (.walkRange va)
  let last ← walkLoop va alloc 3 0 pagetable
  return last.map fun page => (page, tableIndex va 3)

def pgRoundDown (va : Nat) : Nat := va / PGSIZE * PGSIZE

/-- `PGROUNDUP`, in 64 bits. -/
def pgRoundUp (va : Nat) : Nat := pgRoundDown ((va + (PGSIZE - 1)) % 2 ^ 64)

/-- The loop of `mappages`; `rounds` is what is left of the way to `last`. -/
def mapLoop (pagetable perm : Nat) : Nat → Nat → Nat → Vm Bool
  | rounds, a, pa => do
      match ← walk pagetable a true with
      | none => return false
      | some (page, i) => do
          let pte ← readPte page i
          check (¬ isValid pte) (.remap a)
          writePte page i (pa ||| perm)
          match rounds with
          | 0 => return true
          | rounds + 1 => mapLoop pagetable perm rounds (a + PGSIZE) (pa + PGSIZE)

/-- `mappages`; `false` is the return value -1. -/
def mappages (pagetable va pa sz perm : Nat) : Vm Bool := do
  check (sz ≠ 0) .mapEmpty
  let a := pgRoundDown va
  let last := pgRoundDown (va + sz - 1)
  mapLoop pagetable perm ((last - a) / PGSIZE) a pa

/-- `uvmcreate` -/
def uvmcreate : Vm (Option Nat) := ptalloc

/-- A round of the loop of `freewalk`. -/
def freeEntry (dispose : Nat → Vm Unit) (page i : Nat) : Vm Unit := do
  let entry ← readPte page i
  if isValid entry then do
    dispose (ptePage entry)
    writePte page i 0
  else return ()

/-- `freewalk`, at a table that is `left` levels above the last. -/
def freewalk : Nat → Nat → Vm Unit
  | 0, page => do
      (List.range TABLE_ENTRIES).forM (freeEntry freePage page)
      freePage page
  | left + 1, page => do
      (List.range TABLE_ENTRIES).forM (freeEntry (freewalk left) page)
      freePage page

/-- `uvmfree` -/
def uvmfree (pagetable : Nat) : Vm Unit := freewalk 3 pagetable

/-- The addresses of the entries of a level that the loop of `uvmunmap_range` visits. -/
def entriesIn (level vaStart vaEnd : Nat) : List Nat :=
  let size := 2 ^ ptShift level
  let va := vaStart / size * size
  (List.range ((vaEnd - va + (size - 1)) / size)).map fun k => va + k * size

/-- Whether all entries of a table are 0. -/
def tableEmpty (page : Nat) : Vm Bool := do
  let s ← get
  return decide (∀ j < TABLE_ENTRIES, wordAt s.memory page j = 0)

/-- A round of the loop of `uvmunmap_range`, at the last level. -/
def unmapLeaf (table vaStart vaEnd va : Nat) : Vm Unit := do
  let pte ← readPte table (tableIndex va 3)
  if isValid pte ∧ vaStart ≤ va ∧ va < vaEnd then do
    freePage (ptePage pte)
    writePte table (tableIndex va 3) 0
  else return ()

/-- A round of the loop of `uvmunmap_range`, above the last level. -/
def unmapTable (descend : Nat → Nat → Nat → Vm Unit) (level table vaStart vaEnd va : Nat) :
    Vm Unit := do
  let pte ← readPte table (tableIndex va level)
  if isValid pte then do
    let nextVa := va + 2 ^ ptShift level
    descend (ptePage pte) (if va < vaStart then vaStart else va)
      (if vaEnd < nextVa then vaEnd else nextVa)
    if ← tableEmpty (ptePage pte) then do
      freePage (ptePage pte)
      writePte table (tableIndex va level) 0
    else return ()
  else return ()

/-- `uvmunmap_range`, at a table that is `left` levels above the last. -/
def uvmunmapRange : Nat → Nat → Nat → Nat → Vm Unit
  | 0, table, vaStart, vaEnd => (entriesIn 3 vaStart vaEnd).forM (unmapLeaf table vaStart vaEnd)
  | left + 1, table, vaStart, vaEnd =>
      (entriesIn (2 - left) vaStart vaEnd).forM
        (unmapTable (uvmunmapRange left) (2 - left) table vaStart vaEnd)

/-- `uvmdealloc` -/
def uvmdealloc (pagetable oldsz newsz : Nat) : Vm Nat := do
  if oldsz ≤ newsz then return oldsz
  else do
    let vaStart := USER_BASE + pgRoundUp newsz
    let vaEnd := USER_BASE + pgRoundUp oldsz
    if vaStart < vaEnd then do
      uvmunmapRange 3 pagetable vaStart vaEnd
      return newsz
    else return newsz

/-- The loop of `uvmcopy`. -/
def copyLoop (src dst : Nat) : Nat → Nat → Vm Bool
  | 0, _ => return true
  | rounds + 1, va => do
      match ← walk src va false with
      | none => copyLoop src dst rounds (va + PGSIZE)
      | some (table, i) => do
          let pte ← readPte table i
          if isValid pte then do
            match ← allocPage with
            | none => return false
            | some mem => do
                modify fun s => { s with memory := copyPage s.memory mem (ptePage pte) }
                if ← mappages dst va (kvaToPa mem) PGSIZE (pte ^^^ pteAddr pte) then
                  copyLoop src dst rounds (va + PGSIZE)
                else do
                  freePage mem
                  return false
          else copyLoop src dst rounds (va + PGSIZE)

/-- `uvmcopy`; `false` is the return value -1. -/
def uvmcopy (src dst sz : Nat) : Vm Bool :=
  copyLoop src dst ((sz + (PGSIZE - 1)) / PGSIZE) USER_BASE

/-- The loop of `uvmalloc`, from `a` on. -/
def allocLoop (pagetable oldsz newsz : Nat) : Nat → Nat → Vm Nat
  | 0, _ => return newsz
  | rounds + 1, a => do
      match ← allocPage with
      | none => do
          let _ ← uvmdealloc pagetable a oldsz
          return 0
      | some mem => do
          modify fun s => { s with memory := zeroPage s.memory mem }
          if ← mappages pagetable (USER_BASE + a) (kvaToPa mem) PGSIZE PAGE_USER then
            allocLoop pagetable oldsz newsz rounds (a + PGSIZE)
          else do
            freePage mem
            let _ ← uvmdealloc pagetable a oldsz
            return 0

/-- `uvmalloc` -/
def uvmalloc (pagetable oldsz newsz : Nat) : Vm Nat := do
  if newsz < oldsz then return oldsz
  else do
    let start := pgRoundUp oldsz
    allocLoop pagetable start newsz ((newsz - start + (PGSIZE - 1)) / PGSIZE) start

end Pmap

end Av6
