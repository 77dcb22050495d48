import Av6.PhysmemModel

/-!
# Building the freelist

The parts of `kvminit` and `kinit` that carve memory off and free the rest.  A descriptor
is its number in the array `pages`.
-/

namespace Av6

namespace Physmem

/-- `BLOCK_SIZE_1G` -/
def BLOCK_SIZE_1G : Nat := 2 ^ 30

def KSTACK_WINDOW_L1 : Nat := 511

/-- `sizeof(struct page)` -/
def pageStructSize : Nat := 16

/-- `struct vm_phys_seg`, with its slice of the descriptor array. -/
structure PhysSeg where
  start : Nat
  stop : Nat
  firstPage : Nat
  deriving DecidableEq

/-- The number of pages of a segment. -/
def PhysSeg.pages (seg : PhysSeg) : Nat := (seg.stop - seg.start) / PGSIZE

/-- `physmem_seg` -/
def physmemSeg (segs : List (Nat × Nat)) (pa : Nat) : Option (Nat × Nat) :=
  segs.find? fun seg => seg.1 ≤ pa ∧ pa < seg.2

/-- `physmem_size` -/
def physmemSize (segs : List (Nat × Nat)) : Nat :=
  (segs.map fun seg => seg.2 - seg.1).foldl add64 0

/-- The loop that slices the descriptor array across the segments. -/
def slice (pg : Nat) : List (Nat × Nat) → List PhysSeg
  | [] => []
  | (start, stop) :: rest => ⟨start, stop, pg⟩ :: slice (pg + (stop - start) / PGSIZE) rest

/-- `pa_to_page` -/
def paToPage (segs : List PhysSeg) (pa : Nat) : Option Nat :=
  (segs.find? fun seg => seg.start ≤ pa ∧ pa < seg.stop).map fun seg =>
    seg.firstPage + (pa - seg.start) / PGSIZE

/-- `page_to_pa`; there is no result where the source says unreachable. -/
def pageToPa (segs : List PhysSeg) (pg : Nat) : Option Nat :=
  (segs.find? fun seg => seg.firstPage ≤ pg ∧ pg < seg.firstPage + seg.pages).map fun seg =>
    seg.start + (pg - seg.firstPage) * PGSIZE

/-- The addresses of the pages of a segment. -/
def PhysSeg.addresses (seg : PhysSeg) : List Nat :=
  (List.range seg.pages).map fun i => seg.start + i * PGSIZE

/-- The loop that pushes the descriptor of every page on the freelist. -/
def freePages (segs : List PhysSeg) (addresses freelist : List Nat) : Option (List Nat) :=
  match addresses with
  | [] => some freelist
  | pa :: rest => (paToPage segs pa).bind fun pg => freePages segs rest (pg :: freelist)

/-- `kvminit`, as far as it deals with physical memory: every bank lies in the direct map, and
the kernel image and the boot page tables, of which there are `tables`, are withheld.  The
result has the value of `boot_freemem`. -/
def MemoryMap.kvminit (m : MemoryMap) (stext imageEnd tables : Nat) :
    Option (MemoryMap × Nat) := do
  let segs ← m.avail
  if ∀ seg ∈ segs, BLOCK_SIZE_1G ≤ seg.1 ∧ seg.2 ≤ KSTACK_WINDOW_L1 * BLOCK_SIZE_1G then
    let freemem := add64 (pgRoundUp imageEnd) (tables * PGSIZE)
    let m ← m.excludeRegion stext (sub64 freemem stext)
    return (m, freemem)
  else none

/-- What `kinit` leaves behind. -/
structure Kinit where
  segs : List PhysSeg
  freelist : List Nat
  arrayPa : Nat
  arrayBytes : Nat
  bootFreemem : Nat
  deriving DecidableEq

def MemoryMap.kinit (m : MemoryMap) (freemem : Nat) : Option Kinit := do
  let segs ← m.avail
  let npages := physmemSize segs / PGSIZE
  let arrayBytes := pgRoundUp (npages * pageStructSize)
  let arrayPa := freemem
  let seg ← physmemSeg segs arrayPa
  if add64 arrayPa arrayBytes ≤ seg.2 then
    let m ← m.excludeRegion arrayPa arrayBytes
    let segs ← m.avail
    let segs := slice 0 segs
    let freelist ← freePages segs (segs.flatMap PhysSeg.addresses) []
    return { segs, freelist, arrayPa, arrayBytes, bootFreemem := add64 freemem arrayBytes }
  else none

/-- The boot: the reports of the device tree, `kvminit`, further exclusions, `kinit`. -/
def boot (reports : List Report) (stext imageEnd tables : Nat) (exclusions : List (Nat × Nat)) :
    Option Kinit := do
  let m ← empty.reportAll reports
  let (m, freemem) ← m.kvminit stext imageEnd tables
  let m ← m.reportAll (exclusions.map fun x => .exclude x.1 x.2)
  m.kinit freemem

end Physmem

end Av6
