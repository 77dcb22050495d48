import Av6.PhysmemModel
import Av6.PmapModel

/-!
# The direct map

`kvminit` of `arch/pmap.c` and what it calls: the translation tables of the kernel, built from
the segments of RAM while the MMU is off.  A page is named by the number of its physical
address.  The static tables lie in the image, and further tables are taken behind it.
-/

namespace Av6

namespace Dmap

open FallibleState Kmem Pmap

def KSTACK_WINDOW_L1 : Nat := 511

def BLOCK_SIZE_2M : Nat := 2 ^ 21

def BLOCK_SIZE_1G : Nat := 2 ^ 30

/-- `PTE_VALID | PTE_BLOCK | PTE_ATTRINDX(0) | PTE_AP_RW_EL1 | PTE_SH_NONE | PTE_AF | PTE_PXN |
PTE_UXN` -/
def BLOCK_DEVICE : Nat :=
  1 ||| 0 <<< 1 ||| 0 <<< 2 ||| 0 <<< 6 ||| 0 <<< 8 ||| 1 <<< 10 ||| 1 <<< 53 ||| 1 <<< 54

/-- `PTE_VALID | PTE_BLOCK | PTE_ATTRINDX(1) | PTE_AP_RW_EL1 | PTE_SH_INNER | PTE_AF | PTE_UXN` -/
def BLOCK_NORMAL : Nat :=
  1 ||| 0 <<< 1 ||| 1 <<< 2 ||| 0 <<< 6 ||| 3 <<< 8 ||| 1 <<< 10 ||| 1 <<< 54

/-- `PTE_VALID | PTE_TABLE | PTE_ATTRINDX(1) | PTE_AP_RW_EL1 | PTE_SH_INNER | PTE_AF | PTE_PXN |
PTE_UXN` -/
def PAGE_KERNEL : Nat :=
  1 ||| 1 <<< 1 ||| 1 <<< 2 ||| 0 <<< 6 ||| 3 <<< 8 ||| 1 <<< 10 ||| 1 <<< 53 ||| 1 <<< 54

/-- What the linker fixes: the text, the end of the image, and the pages of the static tables,
which are behind the text. -/
structure Image where
  stext : Nat
  etext : Nat
  imageEnd : Nat
  l0Table : Nat
  l1Table : Nat
  l2Device : Nat
  l2Kstack : Nat
  text : stext ≤ etext
  tables : ∀ table ∈ [l0Table, l1Table, l2Device, l2Kstack],
    etext ≤ table * PGSIZE ∧ (table + 1) * PGSIZE ≤ imageEnd
  distinct : [l0Table, l1Table, l2Device, l2Kstack].Nodup

structure BootState where
  memory : Memory
  bootFreemem : Nat
  physmem : Physmem.MemoryMap

inductive Panic where
  | reservedSlot
  | belowDevices
  | kstackWindow
  | segments
  | exclusions
  deriving DecidableEq

abbrev Boot := StateT BootState (Except Panic)

def readEntry (table i : Nat) : Boot Nat := do
  let s ← get
  return wordAt s.memory table i

def writeEntry (table i word : Nat) : Boot Unit :=
  modify fun s => { s with memory := setWord s.memory table i word }

/-- `memset(table, 0x00, PGSIZE)` -/
def clearTable (table : Nat) : Boot Unit :=
  modify fun s => { s with memory := zeroPage s.memory table }

/-- `boot_alloc` -/
def bootAlloc (npages : Nat) : Boot Nat := do
  let s ← get
  set { s with bootFreemem := (s.bootFreemem + npages * PGSIZE) % 2 ^ 64 }
  return s.bootFreemem

/-- `boot_pgtable` -/
def bootPgtable : Boot Nat := do
  let pa ← bootAlloc 1
  clearTable (pa / PGSIZE)
  return pa / PGSIZE

/-- The descriptor of a table. -/
def tableEntry (table : Nat) : Nat := table * PGSIZE ||| PTE_VALID ||| PTE_TABLE

/-- An entry that is not valid gets a new table. -/
def fillEntry (table i : Nat) : Boot Unit := do
  let entry ← readEntry table i
  if isValid entry then return ()
  else do
    let next ← bootPgtable
    writeEntry table i (tableEntry next)

/-- The table below an entry, created on first use. -/
def childTable (table i : Nat) : Boot Nat := do
  fillEntry table i
  let entry ← readEntry table i
  return pteAddr entry / PGSIZE

/-- `dmap_l2` -/
def dmapL2 (image : Image) (pa : Nat) : Boot Nat := do
  let i := tableIndex pa 1
  check (i ≠ 0 ∧ i ≠ KSTACK_WINDOW_L1) .reservedSlot
  childTable image.l1Table i

/-- `dmap_page` -/
def dmapPage (image : Image) (pa : Nat) : Boot Unit := do
  let l2 ← dmapL2 image pa
  let l3 ← childTable l2 (tableIndex pa 2)
  writeEntry l3 (tableIndex pa 3) (pa ||| PAGE_KERNEL)

/-- `dmap_block_2m` -/
def dmapBlock2m (image : Image) (pa : Nat) : Boot Unit := do
  let l2 ← dmapL2 image pa
  writeEntry l2 (tableIndex pa 2) (pa ||| BLOCK_NORMAL)

/-- `dmap_block_1g` -/
def dmapBlock1g (image : Image) (pa : Nat) : Boot Unit := do
  let i := tableIndex pa 1
  check (i ≠ 0 ∧ i ≠ KSTACK_WINDOW_L1) .reservedSlot
  writeEntry image.l1Table i (pa ||| BLOCK_NORMAL)

/-- A loop of `dmap_bank`, with a bound on its rounds: it maps what is at `pa` and advances. -/
def mapWhile (goOn : Nat → Prop) [DecidablePred goOn] (map : Nat → Boot Unit) (stride : Nat) :
    Nat → Nat → Boot Nat
  | 0, pa => return pa
  | rounds + 1, pa =>
      if goOn pa then do
        map pa
        mapWhile goOn map stride rounds (pa + stride)
      else return pa

/-- `dmap_bank`; no sum wraps around behind the second check, and no loop takes more rounds
than `endPa`. -/
def dmapBank (image : Image) (startPa endPa : Nat) : Boot Unit := do
  check (BLOCK_SIZE_1G ≤ startPa) .belowDevices
  check (endPa ≤ KSTACK_WINDOW_L1 * BLOCK_SIZE_1G) .kstackWindow
  let pa ← mapWhile (fun pa => pa < endPa ∧ pa % BLOCK_SIZE_2M ≠ 0) (dmapPage image) PGSIZE
    endPa startPa
  let pa ← mapWhile (fun pa => pa + BLOCK_SIZE_2M ≤ endPa ∧ pa % BLOCK_SIZE_1G ≠ 0)
    (dmapBlock2m image) BLOCK_SIZE_2M endPa pa
  let pa ← mapWhile (fun pa => pa + BLOCK_SIZE_1G ≤ endPa) (dmapBlock1g image) BLOCK_SIZE_1G
    endPa pa
  let pa ← mapWhile (fun pa => pa + BLOCK_SIZE_2M ≤ endPa) (dmapBlock2m image) BLOCK_SIZE_2M
    endPa pa
  let _ ← mapWhile (fun pa => pa < endPa) (dmapPage image) PGSIZE endPa pa

/-- `physmem_avail`, as `vm_phys_segs`. -/
def physmemAvail : Boot (List (Nat × Nat)) := do
  let s ← get
  match s.physmem.avail with
  | some segs => return segs
  | none => throw .segments

/-- `physmem_exclude_region` -/
def physmemExcludeRegion (pa size : Nat) : Boot Unit := do
  let s ← get
  match s.physmem.excludeRegion pa size with
  | some physmem => set { s with physmem }
  | none => throw .exclusions

/-- `kvminit` -/
def kvminit (image : Image) : Boot Unit := do
  clearTable image.l0Table
  clearTable image.l1Table
  clearTable image.l2Device
  clearTable image.l2Kstack
  modify fun s => { s with bootFreemem := pgRoundUp image.imageEnd }
  writeEntry image.l0Table 0 (tableEntry image.l1Table)
  writeEntry image.l1Table 0 (tableEntry image.l2Device)
  (List.range TABLE_ENTRIES).forM fun i => writeEntry image.l2Device i (i <<< 21 ||| BLOCK_DEVICE)
  writeEntry image.l1Table KSTACK_WINDOW_L1 (tableEntry image.l2Kstack)
  let segs ← physmemAvail
  segs.forM fun seg => dmapBank image seg.1 seg.2
  let s ← get
  physmemExcludeRegion image.stext (Physmem.sub64 s.bootFreemem image.stext)

end Dmap

end Av6
