import Av6.PmapModel

/-!
# Kernel stacks

The kernel-stack window of `arch/pmap.c`.  The window is the span of the static table
`l2_kstack`; the tables below it are made when they are needed and then kept.  A slot is eight
pages, the lower half of them a guard that is never mapped.
-/

namespace Av6

namespace Pmap

open FallibleState Kmem

def KSTACK_WINDOW : Nat := KERN_BASE + 511 <<< 30

def KSTACK_WINDOW_SIZE : Nat := 1 <<< 30

def KSTACK_PAGES : Nat := 4

def KSTACK_GUARD_PAGES : Nat := 4

def KSTACK_SLOT_PAGES : Nat := KSTACK_GUARD_PAGES + KSTACK_PAGES

def KSTACK_NSLOTS : Nat := KSTACK_WINDOW_SIZE / (KSTACK_SLOT_PAGES * PGSIZE)

/-- `PTE_VALID | PTE_TABLE | PTE_ATTRINDX(MT_NORMAL) | PTE_AP_RW_EL1 | PTE_SH_INNER | PTE_AF
| PTE_PXN | PTE_UXN` -/
def PAGE_KERNEL : Nat := 1 ||| 2 ||| 1 <<< 2 ||| 3 <<< 8 ||| 1 <<< 10 ||| 1 <<< 53 ||| 1 <<< 54

/-- `kstack_walk`: the table and the index in it. -/
def kstackWalk (va : Nat) (alloc : Bool) : Vm (Option (Nat × Nat)) := do
  let l2i := tableIndex va 2
  let entry ← readPte L2_KSTACK l2i
  if isValid entry then return some (ptePage entry, tableIndex va 3)
  else if alloc then
    match ← ptalloc with
    | none => return none
    | some l3 => do
        writePte L2_KSTACK l2i (kvaToPa l3 ||| PTE_VALID ||| PTE_TABLE)
        let entry ← readPte L2_KSTACK l2i
        return some (ptePage entry, tableIndex va 3)
  else return none

/-- `kstack_base_va` -/
def kstackBaseVa (idx : Nat) : Nat :=
  KSTACK_WINDOW + idx * KSTACK_SLOT_PAGES * PGSIZE + KSTACK_GUARD_PAGES * PGSIZE

/-- A round of the loop of `kstack_alloc` that unmaps the stack again. -/
def unwindStack (idx j : Nat) : Vm Unit := do
  match ← kstackWalk (kstackBaseVa idx + j * PGSIZE) false with
  | none => throw .nullPte
  | some (l3, k) => do
      let pte ← readPte l3 k
      freePage (ptePage pte)
      writePte l3 k 0

/-- The loop of `kstack_alloc`, from the page `i` on.  With no table there is no page to free. -/
def stackLoop (idx : Nat) : Nat → Nat → Vm Bool
  | 0, _ => return true
  | left + 1, i => do
      match ← kstackWalk (kstackBaseVa idx + i * PGSIZE) true with
      | none => do
          (List.range i).forM (unwindStack idx)
          return false
      | some (l3, k) => do
          match ← allocPage with
          | none => do
              (List.range i).forM (unwindStack idx)
              return false
          | some mem => do
              writePte l3 k (kvaToPa mem ||| PAGE_KERNEL)
              stackLoop idx left (i + 1)

/-- `kstack_alloc`: the top of the stack, or 0. -/
def kstackAlloc (idx : Nat) : Vm Nat := do
  check ((idx + 1) * KSTACK_SLOT_PAGES * PGSIZE ≤ KSTACK_WINDOW_SIZE) (.kstackRange idx)
  if ← stackLoop idx KSTACK_PAGES 0 then
    return KSTACK_WINDOW + (idx + 1) * KSTACK_SLOT_PAGES * PGSIZE
  else return 0

/-- A round of the loop of `kstack_free`. -/
def freeStackPage (idx i : Nat) : Vm Unit := do
  match ← kstackWalk (kstackBaseVa idx + i * PGSIZE) false with
  | none => return ()
  | some (l3, k) => do
      let pte ← readPte l3 k
      if isValid pte then do
        freePage (ptePage pte)
        writePte l3 k 0
      else return ()

/-- `kstack_free` -/
def kstackFree (idx : Nat) : Vm Unit :=
  (List.range KSTACK_PAGES).forM (freeStackPage idx)

end Pmap

end Av6
