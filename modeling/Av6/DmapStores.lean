import Av6.DmapModel

/-!
# The stores of `kvminit`

The functions that build the direct map, with the store to a table as a parameter.  With
`writeEntry` they are the functions of `pmap.c`.  With `storeUnused`, which stops where the entry
is in use, a run to the end says that no store has overwritten a valid entry.
-/

namespace Av6

namespace Dmap

open FallibleState Kmem Pmap

abbrev Store := Nat → Nat → Nat → Boot Unit

/-- A store to an entry that is not valid; which panic the others end in plays no role. -/
def storeUnused : Store := fun table i word => do
  let entry ← readEntry table i
  check (¬isValid entry) .reservedSlot
  writeEntry table i word

def fillEntryWith (store : Store) (table i : Nat) : Boot Unit := do
  let entry ← readEntry table i
  if isValid entry then return ()
  else do
    let next ← bootPgtable
    store table i (tableEntry next)

def childTableWith (store : Store) (table i : Nat) : Boot Nat := do
  fillEntryWith store table i
  let entry ← readEntry table i
  return pteAddr entry / PGSIZE

def dmapL2With (store : Store) (image : Image) (pa : Nat) : Boot Nat := do
  let i := tableIndex pa 1
  check (i ≠ 0 ∧ i ≠ KSTACK_WINDOW_L1) .reservedSlot
  childTableWith store image.l1Table i

def dmapPageWith (store : Store) (image : Image) (pa : Nat) : Boot Unit := do
  let l2 ← dmapL2With store image pa
  let l3 ← childTableWith store l2 (tableIndex pa 2)
  store l3 (tableIndex pa 3) (pa ||| PAGE_KERNEL)

def dmapBlock2mWith (store : Store) (image : Image) (pa : Nat) : Boot Unit := do
  let l2 ← dmapL2With store image pa
  store l2 (tableIndex pa 2) (pa ||| BLOCK_NORMAL)

def dmapBlock1gWith (store : Store) (image : Image) (pa : Nat) : Boot Unit := do
  let i := tableIndex pa 1
  check (i ≠ 0 ∧ i ≠ KSTACK_WINDOW_L1) .reservedSlot
  store image.l1Table i (pa ||| BLOCK_NORMAL)

def dmapBankWith (store : Store) (image : Image) (startPa endPa : Nat) : Boot Unit := do
  check (BLOCK_SIZE_1G ≤ startPa) .belowDevices
  check (endPa ≤ KSTACK_WINDOW_L1 * BLOCK_SIZE_1G) .kstackWindow
  let pa ← mapWhile (fun pa => pa < endPa ∧ pa % BLOCK_SIZE_2M ≠ 0) (dmapPageWith store image)
    PGSIZE endPa startPa
  let pa ← mapWhile (fun pa => pa + BLOCK_SIZE_2M ≤ endPa ∧ pa % BLOCK_SIZE_1G ≠ 0)
    (dmapBlock2mWith store image) BLOCK_SIZE_2M endPa pa
  let pa ← mapWhile (fun pa => pa + BLOCK_SIZE_1G ≤ endPa) (dmapBlock1gWith store image)
    BLOCK_SIZE_1G endPa pa
  let pa ← mapWhile (fun pa => pa + BLOCK_SIZE_2M ≤ endPa) (dmapBlock2mWith store image)
    BLOCK_SIZE_2M endPa pa
  let _ ← mapWhile (fun pa => pa < endPa) (dmapPageWith store image) PGSIZE endPa pa

def kvminitWith (store : Store) (image : Image) : Boot Unit := do
  clearTable image.l0Table
  clearTable image.l1Table
  clearTable image.l2Device
  clearTable image.l2Kstack
  modify fun s => { s with bootFreemem := pgRoundUp image.imageEnd }
  store image.l0Table 0 (tableEntry image.l1Table)
  store image.l1Table 0 (tableEntry image.l2Device)
  (List.range TABLE_ENTRIES).forM fun i => store image.l2Device i (i <<< 21 ||| BLOCK_DEVICE)
  store image.l1Table KSTACK_WINDOW_L1 (tableEntry image.l2Kstack)
  let segs ← physmemAvail
  segs.forM fun seg => dmapBankWith store image seg.1 seg.2
  let s ← get
  physmemExcludeRegion image.stext (Physmem.sub64 s.bootFreemem image.stext)

theorem kvminitWith_writeEntry (image : Image) : kvminitWith writeEntry image = kvminit image :=
  rfl

variable {image : Image} {s : BootState}

theorem storeUnused_yields {table i word : Nat} {Q : Unit → BootState → Prop}
    (unused : ¬isValid (wordAt s.memory table i))
    (holds : Q () { s with memory := setWord s.memory table i word }) :
    Yields (storeUnused table i word) s Q := by
  unfold storeUnused
  apply Yields.read_bind
  apply Yields.check_bind unused
  exact .update holds

theorem storeUnused_bind {table i word : Nat} {f : Unit → Boot Unit}
    {Q : Unit → BootState → Prop} (unused : ¬isValid (wordAt s.memory table i))
    (rest : Yields (f ()) { s with memory := setWord s.memory table i word } Q) :
    Yields (storeUnused table i word >>= f) s Q := by
  apply (storeUnused_yields (Q := fun _ t => t = { s with
    memory := setWord s.memory table i word }) unused rfl).bind
  rintro _ t rfl
  exact rest

theorem storeUnused_erases (table i word : Nat) :
    Erases (storeUnused table i word) (writeEntry table i word) := by
  apply Erases.of_read
  intro s
  exact Erases.of_check (.refl _)

theorem fillEntryWith_erases (table i : Nat) :
    Erases (fillEntryWith storeUnused table i) (fillEntryWith writeEntry table i) := by
  apply Erases.bind (.refl _)
  intro entry
  split
  · exact .refl _
  · apply Erases.bind (.refl _)
    exact fun next => storeUnused_erases table i (tableEntry next)

theorem childTableWith_erases (table i : Nat) :
    Erases (childTableWith storeUnused table i) (childTableWith writeEntry table i) :=
  (fillEntryWith_erases table i).bind fun _ => .refl _

theorem dmapL2With_erases (pa : Nat) :
    Erases (dmapL2With storeUnused image pa) (dmapL2With writeEntry image pa) :=
  Erases.bind (.refl _) fun _ => childTableWith_erases _ _

theorem dmapPageWith_erases (pa : Nat) :
    Erases (dmapPageWith storeUnused image pa) (dmapPageWith writeEntry image pa) := by
  apply (dmapL2With_erases pa).bind
  intro l2
  apply (childTableWith_erases l2 _).bind
  exact fun l3 => storeUnused_erases l3 _ _

theorem dmapBlock2mWith_erases (pa : Nat) :
    Erases (dmapBlock2mWith storeUnused image pa) (dmapBlock2mWith writeEntry image pa) :=
  (dmapL2With_erases pa).bind fun l2 => storeUnused_erases l2 _ _

theorem dmapBlock1gWith_erases (pa : Nat) :
    Erases (dmapBlock1gWith storeUnused image pa) (dmapBlock1gWith writeEntry image pa) :=
  Erases.bind (.refl _) fun _ => storeUnused_erases _ _ _

theorem mapWhile_erases {goOn : Nat → Prop} [DecidablePred goOn] {map map' : Nat → Boot Unit}
    (erases : ∀ pa, Erases (map pa) (map' pa)) (stride rounds : Nat) (pa : Nat) :
    Erases (mapWhile goOn map stride rounds pa) (mapWhile goOn map' stride rounds pa) := by
  induction rounds generalizing pa with
  | zero => exact .refl _
  | succ rounds ih =>
      unfold mapWhile
      split
      · exact (erases pa).bind fun _ => ih (pa + stride)
      · exact .refl _

theorem dmapBankWith_erases (startPa endPa : Nat) :
    Erases (dmapBankWith storeUnused image startPa endPa)
      (dmapBankWith writeEntry image startPa endPa) := by
  apply Erases.bind (.refl _)
  intro _
  apply Erases.bind (.refl _)
  intro _
  apply (mapWhile_erases dmapPageWith_erases _ _ _).bind
  intro pa
  apply (mapWhile_erases dmapBlock2mWith_erases _ _ _).bind
  intro pa
  apply (mapWhile_erases dmapBlock1gWith_erases _ _ _).bind
  intro pa
  apply (mapWhile_erases dmapBlock2mWith_erases _ _ _).bind
  intro pa
  apply (mapWhile_erases dmapPageWith_erases _ _ _).bind
  exact fun _ => .refl _

/-- Where no store finds its entry in use, the runs are the same. -/
theorem kvminitWith_erases (image : Image) :
    Erases (kvminitWith storeUnused image) (kvminit image) := by
  rw [← kvminitWith_writeEntry]
  apply Erases.bind (.refl _)
  intro _
  apply Erases.bind (.refl _)
  intro _
  apply Erases.bind (.refl _)
  intro _
  apply Erases.bind (.refl _)
  intro _
  apply Erases.bind (.refl _)
  intro _
  apply (storeUnused_erases _ _ _).bind
  intro _
  apply (storeUnused_erases _ _ _).bind
  intro _
  apply (Erases.forM (fun _ => storeUnused_erases _ _ _) _).bind
  intro _
  apply (storeUnused_erases _ _ _).bind
  intro _
  apply Erases.bind (.refl _)
  intro segs
  apply (Erases.forM (fun _ => dmapBankWith_erases _ _) segs).bind
  exact fun _ => .refl _

end Dmap

end Av6
