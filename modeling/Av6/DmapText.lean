import Av6.DmapBanks
import Av6.PhysmemAvail

/-!
# Kernel text in the direct map

The translation of an address by the hardware, for the tables that `kvminit` builds: all RAM is
mapped to itself, and it is executable in EL1 exactly where the 2 MB block around it is all RAM.
-/

namespace Av6

namespace Dmap

open FallibleState Kmem Pmap Intervals

variable {image : Image} {m : Physmem.MemoryMap} {ram : Set Nat}
  {cells : Nat → Nat → Cell} {s t : BootState} {memory : Memory}
  {pa bound level left table next a va y : Nat}

/-- How the hardware translates an address from a table with so many levels below it: the output
address, and whether the descriptors forbid EL1 to execute (`PXN`, and `PXNTable` above). -/
def translate (memory : Memory) (va : Nat) : Nat → Nat → Option (Nat × Bool)
  | 0, table =>
      let entry := wordAt memory table (tableIndex va 3)
      if isValid entry ∧ entry.testBit 1 then
        some (pteAddr entry + va % PGSIZE, entry.testBit 53)
      else none
  | left + 1, table =>
      let level := 2 - left
      let entry := wordAt memory table (tableIndex va level)
      if isValid entry then
        if entry.testBit 1 then
          (translate memory va left (pteAddr entry / PGSIZE)).map fun result =>
            (result.1, result.2 || entry.testBit 59)
        else if level = 0 then none
        else some (pteAddr entry / span level * span level + va % span level, entry.testBit 53)
      else none

/-- An address through the direct map. -/
def translateKva (memory : Memory) (image : Image) (a : Nat) : Option (Nat × Bool) :=
  translate memory (a + KERN_BASE) 3 image.l0Table

theorem tableIndex_kva (high : level ≤ 3) :
    tableIndex (a + KERN_BASE) level = tableIndex a level := by
  obtain rfl | rfl | rfl | rfl : level = 0 ∨ level = 1 ∨ level = 2 ∨ level = 3 := by omega
  all_goals
    unfold tableIndex ptShift KERN_BASE TABLE_ENTRIES
    omega

theorem testBit_tableEntry (small : table < 2 ^ 36) :
    (tableEntry table).testBit 1 = true ∧ (tableEntry table).testBit 59 = false := by
  constructor
  · unfold tableEntry
    rw [Nat.testBit_or]
    have bit : Nat.testBit PTE_TABLE 1 = true := by decide
    rw [bit, Bool.or_true]
  · apply Nat.testBit_lt_two_pow
    unfold tableEntry
    rw [Nat.or_assoc]
    apply Nat.or_lt_two_pow
    · unfold PGSIZE
      omega
    · decide

/-- The hardware follows the descriptor of a table. -/
theorem translate_table (small : next < 2 ^ 36)
    (entry : wordAt memory table (tableIndex va (2 - left)) = tableEntry next) :
    translate memory va (left + 1) table = translate memory va left next := by
  obtain ⟨isTable, noPxn⟩ := testBit_tableEntry small
  have page : pteAddr (tableEntry next) / PGSIZE = next := by
    rw [pteAddr_tableEntry small]
    exact Nat.mul_div_cancel next (by decide)
  rw [translate, entry, if_pos isValid_tableEntry, if_pos isTable, page, noPxn]
  cases translate memory va left next <;> simp

theorem pteAddr_leaf (small : pa < 2 ^ 48) (page : PGSIZE ∣ pa) :
    pteAddr (pa ||| leafAttributes level) = pa := by
  obtain ⟨k, rfl⟩ := page
  have shift : pteAddr (PGSIZE * k) = PGSIZE * k := by
    rw [Nat.mul_comm]
    apply pteAddr_shift
    unfold PGSIZE at small
    omega
  have attributes : pteAddr (leafAttributes level) = 0 := by
    unfold leafAttributes
    split
    · decide
    · decide
  unfold pteAddr at *
  rw [Nat.and_or_distrib_right, attributes, Nat.or_zero, shift]

theorem isValid_leaf : isValid (pa ||| leafAttributes level) := by
  have valid : leafAttributes level &&& PTE_VALID ≠ 0 := by
    unfold leafAttributes
    split
    · decide
    · decide
  unfold isValid
  rw [Nat.and_or_distrib_right]
  intro zero
  exact valid (Nat.or_eq_zero_iff.mp zero).2

/-- Only the leaves of the last level have `PTE_TABLE` and `PTE_PXN`. -/
theorem testBit_leaf (small : pa < 2 ^ 48) (page : PGSIZE ∣ pa) :
    (pa ||| leafAttributes level).testBit 1 = decide (level = 3) ∧
      (pa ||| leafAttributes level).testBit 53 = decide (level = 3) := by
  have low : pa.testBit 1 = false := by
    obtain ⟨k, rfl⟩ := page
    show (2 ^ 12 * k).testBit 1 = false
    rw [Nat.testBit_two_pow_mul]
    simp
  have high : pa.testBit 53 = false := by
    apply Nat.testBit_lt_two_pow
    omega
  rw [Nat.testBit_or, Nat.testBit_or, low, high, Bool.false_or, Bool.false_or]
  unfold leafAttributes
  by_cases last : level = 3
  · simp only [last, if_true, decide_true]
    decide
  · simp only [last, if_false, decide_false]
    decide

/-- The hardware stops at the descriptor of a leaf. -/
theorem translate_leaf (low : 1 ≤ level) (high : level ≤ 3) (small : a < 2 ^ 48)
    (entry : wordAt memory table (tableIndex (a + KERN_BASE) level) =
      Cell.leaf.word level (a / span level)) :
    translate memory (a + KERN_BASE) (3 - level) table = some (a, decide (level = 3)) := by
  have levels : level = 1 ∨ level = 2 ∨ level = 3 := by omega
  have small' := (Nat.div_mul_le_self a (span level)).trans_lt small
  have page : PGSIZE ∣ a / span level * span level := by
    apply Nat.dvd_mul_left_of_dvd
    obtain rfl | rfl | rfl := levels <;> decide
  have offset : (a + KERN_BASE) % span level = a % span level := by
    unfold KERN_BASE
    obtain rfl | rfl | rfl := levels
    all_goals
      unfold span ptShift
      omega
  obtain ⟨isTable, pxn⟩ := @testBit_leaf _ level small' page
  have address := @pteAddr_leaf _ level small' page
  have whole := Nat.div_add_mod' a (span level)
  unfold Cell.word at entry
  obtain last | block : level = 3 ∨ level ≠ 3 := by omega
  · subst last
    have offset' : (a + KERN_BASE) % PGSIZE = a % span 3 := offset
    rw [Nat.sub_self, translate, entry, isTable, pxn, address, offset', whole]
    simp [isValid_leaf]
  · have positive : 0 < span level := Nat.two_pow_pos _
    have rounds : 3 - level = 2 - level + 1 := by omega
    have back : 2 - (2 - level) = level := by omega
    have inner : level ≠ 0 := by omega
    rw [rounds, translate, back, entry, if_pos isValid_leaf, isTable, pxn, address, offset,
      Nat.mul_div_cancel _ positive, whole]
    simp [block, inner]

theorem Built.at_one (built : Built image m cells pa bound s) (here : At image cells 1 y table) :
    image.l1Table = table := by
  cases here with
  | root => rfl
  | below entry => exact absurd (built.begun 0 y table entry).1 (by omega)

/-- The hardware finds the table that is placed for an address. -/
theorem Built.translate_at (built : Built image m cells pa bound s) (small : bound ≤ 2 ^ 48)
    (high : level < 3) (range : a < 2 ^ 39)
    (here : At image cells (level + 1) (a / span (level + 1) / TABLE_ENTRIES) table) :
    translateKva s.memory image a = translate s.memory (a + KERN_BASE) (2 - level) table := by
  induction level generalizing table with
  | zero =>
      obtain rfl := built.at_one here
      have below := built.table_lt small here
      apply translate_table below
      have first : tableIndex (a + KERN_BASE) 0 = 0 := by
        rw [tableIndex_kva (by omega)]
        unfold tableIndex ptShift
        rw [Nat.div_eq_of_lt range, Nat.zero_mod]
      rw [show 2 - 2 = 0 from rfl, first]
      exact built.reserved.root
  | succ level ih =>
      have parent : a / span (level + 2) / TABLE_ENTRIES = a / span (level + 1) := by
        obtain rfl | rfl : level = 0 ∨ level = 1 := by omega
        · exact div_span_two a
        · exact div_span_three a
      rw [parent] at here
      have below := built.table_lt small here
      cases here with
      | below entry =>
          obtain ⟨visible, up, there⟩ := built.rooted _ _ (by rw [entry]; simp)
          rw [ih (by omega) there]
          have rounds : 2 - level = 2 - (level + 1) + 1 := by omega
          rw [rounds]
          apply translate_table below
          have back : 2 - (2 - (level + 1)) = level + 1 := by omega
          rw [back, tableIndex_kva (by omega)]
          have word := built.words _ _ up there visible
          rw [entry] at word
          exact word

/-- A leaf is what the hardware finds. -/
theorem Built.translate_eq (built : Built image m cells pa bound s) (small : bound ≤ 2 ^ 48)
    (range : a < 2 ^ 39) (leaf : cells level (a / span level) = .leaf) :
    translateKva s.memory image a = some (a, decide (level = 3)) := by
  obtain ⟨low, high, -⟩ := built.past _ _ leaf
  obtain ⟨visible, table, here⟩ := built.rooted _ _ (by rw [leaf]; simp)
  obtain ⟨level, rfl⟩ : ∃ above, level = above + 1 := ⟨level - 1, by omega⟩
  rw [built.translate_at small (by omega) range here]
  have rounds : 2 - level = 3 - (level + 1) := by omega
  rw [rounds]
  apply translate_leaf low high (by omega)
  rw [tableIndex_kva high, ← leaf]
  exact built.words _ _ table here visible

/-- All RAM is mapped to itself, and EL1 can execute it where the block around it is all RAM. -/
theorem Reached.translate_iff (reached : Reached image m ram pa s)
    (small : pgRoundUp image.imageEnd + 2 * pa ≤ 2 ^ 48) (range : a < 2 ^ 39) (inRam : a ∈ ram)
    (below : a < pa) : ∃ pxn, translateKva s.memory image a = some (a, pxn) ∧
      (pxn = false ↔ ∀ b, b / span 2 = a / span 2 → b ∈ ram) := by
  obtain ⟨cells, built, covers⟩ := reached
  obtain ⟨level, leaf⟩ := covers.covered a inRam below
  obtain ⟨low, high, -⟩ := built.past _ _ leaf
  refine ⟨_, built.translate_eq small range leaf, ?_⟩
  rw [decide_eq_false_iff_not]
  constructor
  · intro block b same
    apply covers.inRam level _ leaf
    obtain rfl | rfl : level = 1 ∨ level = 2 := by omega
    · rw [← div_span_two, ← div_span_two, same]
    · exact same
  · rintro all rfl
    obtain ⟨b, block, outside⟩ := covers.ragged _ leaf
    rw [div_span_three] at block
    exact outside (all b block)

/-- Nothing is mapped by the static tables. -/
theorem reached_zero (reserved : Reserved image s.memory)
    (blank : ∀ y < TABLE_ENTRIES, y ≠ 0 → y ≠ KSTACK_WINDOW_L1 →
      wordAt s.memory image.l1Table y = 0)
    (freemem : s.bootFreemem = pgRoundUp image.imageEnd) (small : image.imageEnd ≤ 2 ^ 39)
    (physmem : s.physmem = m) : Reached image m ram 0 s := by
  have behind : ∀ table, (table + 1) * PGSIZE ≤ image.imageEnd →
      (table + 1) * PGSIZE ≤ s.bootFreemem := by
    intro table inImage
    rw [freemem]
    unfold pgRoundUp pgRoundDown
    unfold PGSIZE at *
    omega
  refine ⟨fun _ _ => .empty, ?_, ?_⟩
  · constructor
    · exact reserved
    · intro level y table here visible
      generalize above : y / TABLE_ENTRIES = x at here
      cases here with
      | root =>
          have first : y < TABLE_ENTRIES := by
            unfold TABLE_ENTRIES at *
            omega
          rw [Nat.mod_eq_of_lt first]
          exact blank y first (visible rfl).1 (visible rfl).2
      | below entry => cases entry
    · intro level level' x x' table here here'
      cases here with
      | root =>
          cases here' with
          | root => exact ⟨rfl, rfl⟩
          | below entry => cases entry
      | below entry => cases entry
    · intro level x table here
      cases here with
      | root =>
          refine ⟨image.l1Table_static, behind _ ?_⟩
          exact (image.tables image.l1Table (by simp)).2
      | below entry => cases entry
    · intro level y filled
      exact absurd rfl filled
    · intro level y page entry
      cases entry
    · intro level y entry
      cases entry
    · intro static member
      exact behind _ (image.tables static (image.mem_tables member)).2
    · rw [freemem]
      exact Nat.dvd_mul_left ..
    · rw [freemem]
      exact Nat.le_add_right ..
    · exact physmem
  · constructor
    · intro a _ below
      exact absurd below (Nat.not_lt_zero a)
    · intro level y entry
      cases entry
    · intro p entry
      cases entry

/-- The segments that `physmem_avail` publishes before anything is excluded. -/
structure Segments (ram : Set Nat) (segs : List (Nat × Nat)) : Prop where
  separated : Separated segs
  pages : ∀ i ∈ segs, PGSIZE ∣ i.1 ∧ PGSIZE ∣ i.2
  cover : cover segs = ram

theorem Segments.forM_dmapBank {segs : List (Nat × Nat)} (segments : Segments ram segs)
    (range : ∀ a ∈ ram, span 1 ≤ a ∧ a < KSTACK_WINDOW_L1 * span 1)
    (small : pgRoundUp image.imageEnd ≤ 2 ^ 40) (reached : Reached image m ram 0 s) :
    Yields (segs.forM fun seg => dmapBankWith storeUnused image seg.1 seg.2) s
      fun _ t => ∃ pa ≤ KSTACK_WINDOW_L1 * span 1, Reached image m ram pa t ∧
        ∀ a ∈ ram, a < pa := by
  have ends : ∀ i ∈ segs, span 1 ≤ i.1 ∧ i.2 ≤ KSTACK_WINDOW_L1 * span 1 := by
    intro i member
    have proper := segments.separated.proper member
    have first : i.1 ∈ ram := segments.cover.subset ⟨i, member, le_rfl, proper⟩
    have last : i.2 - 1 ∈ ram := segments.cover.subset ⟨i, member, by omega, by omega⟩
    have low := (range _ first).1
    have high := (range _ last).2
    omega
  apply Dmap.forM_dmapBank small segments.separated _ segments.cover.subset _ _ (Nat.zero_le _)
    reached
  · intro i member
    obtain ⟨low, high⟩ := ends i member
    exact ⟨low, high, segments.pages i member⟩
  · intro a inRam _
    rw [segments.cover]
    exact inRam
  · intro i member
    exact Nat.lt_of_lt_of_le (Nat.two_pow_pos _) (ends i member).1

theorem physmemAvail_yields {segs : List (Nat × Nat)} (avail : s.physmem.avail = some segs) :
    Yields physmemAvail s fun published t => published = segs ∧ t = s := by
  unfold physmemAvail
  apply Yields.read_bind
  rw [avail]
  exact .ret ⟨rfl, rfl⟩

/-- The first excluded range has room in its list. -/
theorem physmemExcludeRegion_yields {size : Nat} (unexcluded : s.physmem.exregions = []) :
    Yields (physmemExcludeRegion pa size) s fun _ t => t.memory = s.memory := by
  obtain ⟨physmem, excluded⟩ : ∃ physmem, s.physmem.excludeRegion pa size = some physmem := by
    unfold Physmem.MemoryMap.excludeRegion
    dsimp only
    split
    · exact ⟨_, rfl⟩
    · rw [unexcluded]
      exact ⟨_, rfl⟩
  unfold physmemExcludeRegion
  apply Yields.read_bind
  rw [excluded]
  exact .write rfl

/-- All RAM has been mapped, in the tables of another state with this memory. -/
def Complete (image : Image) (m : Physmem.MemoryMap) (ram : Set Nat) (memory : Memory) : Prop :=
  ∃ pa ≤ KSTACK_WINDOW_L1 * span 1, ∃ u, memory = u.memory ∧ Reached image m ram pa u ∧
    ∀ a ∈ ram, a < pa

/-- What `kvminit` does once the static tables are there. -/
theorem banks_yield {segs : List (Nat × Nat)} (avail : s.physmem.avail = some segs)
    (unexcluded : s.physmem.exregions = []) (segments : Segments ram segs)
    (range : ∀ a ∈ ram, span 1 ≤ a ∧ a < KSTACK_WINDOW_L1 * span 1)
    (small : pgRoundUp image.imageEnd ≤ 2 ^ 40) (first : Reached image m ram 0 s) :
    Yields (do
      let segs ← physmemAvail
      segs.forM fun seg => dmapBankWith storeUnused image seg.1 seg.2
      let s ← get
      physmemExcludeRegion image.stext (Physmem.sub64 s.bootFreemem image.stext)) s
      fun _ t => Complete image m ram t.memory := by
  have known : s.physmem = m := by
    obtain ⟨cells, built, -⟩ := first
    exact built.physmem
  apply (physmemAvail_yields avail).bind
  rintro _ _ ⟨rfl, rfl⟩
  apply (segments.forM_dmapBank range small first).bind
  rintro _ u ⟨pa, fits, reached, all⟩
  apply Yields.read_bind
  have same : u.physmem = m := by
    obtain ⟨cells, built, -⟩ := reached
    exact built.physmem
  apply (physmemExcludeRegion_yields (by rw [same, ← known, unexcluded])).mono
  intro _ v memory
  exact ⟨pa, fits, u, memory, reached, all⟩

theorem blockDevice_lt {i : Nat} (small : i < TABLE_ENTRIES) :
    i <<< 21 ||| BLOCK_DEVICE < 2 ^ 64 := by
  apply Nat.or_lt_two_pow
  · rw [Nat.shiftLeft_eq]
    unfold TABLE_ENTRIES at small
    omega
  · decide

/-- The blocks of the devices are stored to their table, and to no other. -/
theorem devices_yield (table : Nat) (blank : ∀ i < TABLE_ENTRIES, wordAt s.memory table i = 0) :
    Yields ((List.range TABLE_ENTRIES).forM fun i =>
      storeUnused table i (i <<< 21 ||| BLOCK_DEVICE)) s
      fun _ t => ∃ memory, t = { s with memory } ∧
        (∀ i < TABLE_ENTRIES, wordAt memory table i = (i <<< 21 ||| BLOCK_DEVICE)) ∧
        ∀ other ≠ table, ∀ i, wordAt memory other i = wordAt s.memory other i := by
  apply (Yields.forM (I := fun rest t => rest.Nodup ∧ ∃ memory, t = { s with memory } ∧
    (∀ i ∈ rest, i < TABLE_ENTRIES ∧ wordAt memory table i = 0) ∧
    (∀ i < TABLE_ENTRIES, i ∉ rest → wordAt memory table i = (i <<< 21 ||| BLOCK_DEVICE)) ∧
    ∀ other ≠ table, ∀ i, wordAt memory other i = wordAt s.memory other i) _ _ _).mono
  · rintro _ t ⟨-, memory, rfl, -, done, others⟩
    exact ⟨memory, rfl, fun i small => done i small (by simp), others⟩
  · rintro i rest t ⟨nodup, memory, rfl, left, done, others⟩
    obtain ⟨fresh, nodup⟩ := List.nodup_cons.mp nodup
    obtain ⟨small, bare⟩ := left i (by simp)
    apply storeUnused_yields
    · dsimp only
      rw [bare]
      exact not_isValid_zero
    · refine ⟨nodup, _, rfl, ?_, ?_, ?_⟩
      · intro j later
        have other : j ≠ i := by
          rintro rfl
          exact fresh later
        rw [wordAt_setWord_of_ne (.inr other)]
        exact left j (by simp [later])
      · intro j small' gone
        by_cases same : j = i
        · subst same
          exact wordAt_setWord (blockDevice_lt small)
        · rw [wordAt_setWord_of_ne (.inr same)]
          exact done j small' (by simp [same, gone])
      · intro other different j
        rw [wordAt_setWord_of_ne (.inl different)]
        exact others other different j
  · refine ⟨List.nodup_range, s.memory, rfl, ?_, ?_, fun _ _ _ => rfl⟩
    · intro i member
      have small := List.mem_range.mp member
      exact ⟨small, blank i small⟩
    · intro i small absent
      exact absurd (List.mem_range.mpr small) absent

/-- `kvminit` runs, no store finds its entry in use, and all RAM is mapped. -/
theorem kvminitWith_yields {segs : List (Nat × Nat)} (avail : s.physmem.avail = some segs)
    (unexcluded : s.physmem.exregions = []) (segments : Segments ram segs)
    (range : ∀ a ∈ ram, span 1 ≤ a ∧ a < KSTACK_WINDOW_L1 * span 1)
    (small : image.imageEnd ≤ 2 ^ 39) :
    Yields (kvminitWith storeUnused image) s
      fun _ t => Complete image s.physmem ram t.memory := by
  have distinct := image.distinct
  simp only [List.nodup_cons, List.mem_cons, List.not_mem_nil, not_or, or_false,
    not_false_eq_true, and_true, List.nodup_nil] at distinct
  obtain ⟨⟨n01, n0d, n0k⟩, ⟨n1d, n1k⟩, ndk⟩ := distinct
  have freeEnd : pgRoundUp image.imageEnd ≤ 2 ^ 40 := by
    unfold pgRoundUp pgRoundDown PGSIZE
    omega
  have width : ∀ table ∈ [image.l0Table, image.l1Table, image.l2Device, image.l2Kstack],
      tableEntry table < 2 ^ 64 := by
    intro table member
    have inImage := (image.tables table member).2
    apply tableEntry_lt
    unfold PGSIZE at inImage
    omega
  unfold kvminitWith
  apply Yields.update_bind
  apply Yields.update_bind
  apply Yields.update_bind
  apply Yields.update_bind
  apply Yields.update_bind
  dsimp only
  generalize cleared : zeroPage (zeroPage (zeroPage (zeroPage s.memory image.l0Table)
    image.l1Table) image.l2Device) image.l2Kstack = memory
  have blank : ∀ table ∈ [image.l0Table, image.l1Table, image.l2Device, image.l2Kstack],
      ∀ i < TABLE_ENTRIES, wordAt memory table i = 0 := by
    intro table member i inTable
    subst cleared
    simp only [List.mem_cons, List.not_mem_nil, or_false] at member
    rcases member with rfl | rfl | rfl | rfl
    · rw [wordAt_zeroPage_of_ne n0k, wordAt_zeroPage_of_ne n0d, wordAt_zeroPage_of_ne n01,
        wordAt_zeroPage inTable]
    · rw [wordAt_zeroPage_of_ne n1k, wordAt_zeroPage_of_ne n1d, wordAt_zeroPage inTable]
    · rw [wordAt_zeroPage_of_ne ndk, wordAt_zeroPage inTable]
    · exact wordAt_zeroPage inTable
  apply storeUnused_bind
  · rw [blank _ (by simp) 0 (by decide)]
    exact not_isValid_zero
  dsimp only
  apply storeUnused_bind
  · rw [wordAt_setWord_of_ne (.inl (Ne.symm n01)), blank _ (by simp) 0 (by decide)]
    exact not_isValid_zero
  dsimp only
  apply (devices_yield image.l2Device _).bind
  · rintro _ t ⟨memory', rfl, devices, others⟩
    dsimp only at others ⊢
    have first : ∀ y < TABLE_ENTRIES, y ≠ 0 → wordAt memory' image.l1Table y = 0 := by
      intro y inTable notDevice
      rw [others _ n1d, wordAt_setWord_of_ne (.inr notDevice),
        wordAt_setWord_of_ne (.inl (Ne.symm n01)), blank _ (by simp) y inTable]
    apply storeUnused_bind
    · rw [first _ (by decide) (by decide)]
      exact not_isValid_zero
    dsimp only
    have begins : Reached image s.physmem ram 0 { s with
        memory := setWord memory' image.l1Table KSTACK_WINDOW_L1 (tableEntry image.l2Kstack)
        bootFreemem := pgRoundUp image.imageEnd } := by
      apply reached_zero
      · constructor
        · rw [wordAt_setWord_of_ne (.inl n01), others _ n0d, wordAt_setWord_of_ne (.inl n01),
            wordAt_setWord (width _ (by simp))]
        · rw [wordAt_setWord_of_ne (.inr (by decide)), others _ n1d,
            wordAt_setWord (width _ (by simp))]
        · intro i inTable
          rw [wordAt_setWord_of_ne (.inl (Ne.symm n1d)), devices i inTable]
        · rw [wordAt_setWord (width _ (by simp))]
        · intro i inTable
          rw [wordAt_setWord_of_ne (.inl (Ne.symm n1k)), others _ (Ne.symm ndk),
            wordAt_setWord_of_ne (.inl (Ne.symm n1k)), wordAt_setWord_of_ne (.inl (Ne.symm n0k)),
            blank _ (by simp) i inTable]
      · intro y inTable notDevice notStack
        rw [wordAt_setWord_of_ne (.inr notStack), first y inTable notDevice]
      · rfl
      · exact small
      · rfl
    exact banks_yield avail unexcluded segments range freeEnd begins
  · intro i inTable
    dsimp only
    rw [wordAt_setWord_of_ne (.inl (Ne.symm n1d)), wordAt_setWord_of_ne (.inl (Ne.symm n0d)),
      blank _ (by simp) i inTable]

/-- `kvminit` runs, and it maps all RAM to itself. -/
theorem kvminit_yields {segs : List (Nat × Nat)} (avail : s.physmem.avail = some segs)
    (unexcluded : s.physmem.exregions = []) (segments : Segments ram segs)
    (range : ∀ a ∈ ram, span 1 ≤ a ∧ a < KSTACK_WINDOW_L1 * span 1)
    (small : image.imageEnd ≤ 2 ^ 39) :
    Yields (kvminit image) s fun _ t => ∀ a ∈ ram, ∃ pxn,
      translateKva t.memory image a = some (a, pxn) ∧
        (pxn = false ↔ ∀ b, b / span 2 = a / span 2 → b ∈ ram) := by
  apply (kvminitWith_erases image).yields
  apply (kvminitWith_yields avail unexcluded segments range small).mono
  rintro _ t ⟨pa, fits, u, memory, reached, all⟩ a inRam
  have high := (range a inRam).2
  unfold KSTACK_WINDOW_L1 at fits high
  rw [span_one] at fits high
  rw [memory]
  exact reached.translate_iff (by unfold pgRoundUp pgRoundDown PGSIZE; omega) (by omega) inRam
    (all a inRam)

/-- A bank of RAM that the direct map has room for. -/
structure BankOk (bank : Nat × Nat) : Prop where
  low : BLOCK_SIZE_1G ≤ bank.1
  proper : bank.1 < bank.2
  high : bank.2 ≤ KSTACK_WINDOW_L1 * BLOCK_SIZE_1G
  first : PGSIZE ∣ bank.1
  last : PGSIZE ∣ bank.2

/-- How the device tree reports banks of RAM. -/
def reportBanks (banks : List (Nat × Nat)) : List Physmem.Report :=
  banks.map fun bank => .hardware bank.1 (bank.2 - bank.1)

/-- The page has kernel text. -/
def Image.TextPage (image : Image) (p : Nat) : Prop :=
  ∃ a, image.stext ≤ a ∧ a < image.etext ∧ a / PGSIZE = p

/-- The page is in the direct map, and EL1 can execute it. -/
def Executable (memory : Memory) (image : Image) (p : Nat) : Prop :=
  ∀ off < PGSIZE, translateKva memory image (p * PGSIZE + off) = some (p * PGSIZE + off, false)

/-- The block of 2 MB around the page is all RAM. -/
def BlockInRam (banks : List (Nat × Nat)) (p : Nat) : Prop :=
  Set.Ico (p / TABLE_ENTRIES * BLOCK_SIZE_2M) ((p / TABLE_ENTRIES + 1) * BLOCK_SIZE_2M) ⊆
    cover banks

theorem BankOk.ram_eq {bank : Nat × Nat} (ok : BankOk bank) :
    (Physmem.Report.hardware bank.1 (bank.2 - bank.1)).ram = Set.Ico bank.1 bank.2 := by
  obtain ⟨-, proper, -, first, last⟩ := ok
  unfold PGSIZE at first last
  have low : (bank.1 + (Physmem.PGSIZE - 1)) / Physmem.PGSIZE * Physmem.PGSIZE = bank.1 := by
    unfold Physmem.PGSIZE
    omega
  have high : (bank.1 + (bank.2 - bank.1)) / Physmem.PGSIZE * Physmem.PGSIZE = bank.2 := by
    unfold Physmem.PGSIZE
    omega
  unfold Physmem.Report.ram
  dsimp only
  rw [low, high]

/-- The banks that are reported are what `physmem_avail` publishes. -/
theorem segments_of_banks {banks : List (Nat × Nat)} (ok : ∀ bank ∈ banks, BankOk bank)
    (reported : Physmem.empty.reportAll (reportBanks banks) = some m) :
    ∃ segs, m.avail = some segs ∧ Segments (cover banks) segs ∧ m.exregions = [] := by
  have bounded : ∀ r ∈ reportBanks banks, r.Bounded := by
    intro r member
    obtain ⟨bank, there, rfl⟩ := List.mem_map.mp member
    have proper := (ok bank there).proper
    have high := (ok bank there).high
    unfold KSTACK_WINDOW_L1 BLOCK_SIZE_1G at high
    unfold Physmem.Report.Bounded Physmem.PGSIZE
    dsimp only
    omega
  obtain ⟨mapOk, hw, ex⟩ := Physmem.empty_ok.reportAll bounded reported
  have nothing : cover (Physmem.spans []) = ∅ := cover_nil
  have ram : cover (Physmem.spans m.hwregions) = cover banks := by
    rw [hw, show Physmem.empty.hwregions = [] from rfl, nothing, Set.union_empty]
    ext a
    simp only [reportBanks, List.mem_map, Set.mem_iUnion, exists_prop]
    constructor
    · rintro ⟨_, ⟨bank, there, rfl⟩, inside⟩
      rw [(ok bank there).ram_eq] at inside
      exact ⟨bank, there, inside⟩
    · rintro ⟨bank, there, inside⟩
      rw [← (ok bank there).ram_eq] at inside
      exact ⟨_, ⟨bank, there, rfl⟩, inside⟩
  have none_ : cover (Physmem.spans m.exregions) = ∅ := by
    rw [ex, show Physmem.empty.exregions = [] from rfl, nothing, Set.union_empty]
    apply Set.eq_empty_of_forall_notMem
    intro a inside
    simp only [reportBanks, List.mem_map, Set.mem_iUnion] at inside
    obtain ⟨_, ⟨bank, -, rfl⟩, none_⟩ := inside
    exact none_
  obtain ⟨segs, published, segsOk, same⟩ := mapOk.avail
  refine ⟨segs, published, ⟨segsOk.separated, segsOk.pages, ?_⟩, ?_⟩
  · rw [same, none_, Set.sdiff_empty, ram]
  · cases excluded : m.exregions with
    | nil => rfl
    | cons x rest =>
        rw [excluded, Physmem.spans_cons] at none_
        have region := mapOk.ex.region x (by simp [excluded])
        have inside : x.addr ∈ cover ((x.addr, x.stop) :: Physmem.spans rest) :=
          ⟨_, List.mem_cons_self, le_rfl, region.lt⟩
        rw [none_] at inside
        exact absurd inside (Set.notMem_empty _)

theorem cover_range {banks : List (Nat × Nat)} (ok : ∀ bank ∈ banks, BankOk bank) :
    ∀ a ∈ cover banks, span 1 ≤ a ∧ a < KSTACK_WINDOW_L1 * span 1 := by
  rintro a ⟨bank, there, low, high⟩
  exact ⟨(ok bank there).low.trans low, high.trans_le (ok bank there).high⟩

/-- The direct map that `kvminit` leaves behind, for any banks with the image in them. -/
theorem kvminit_maps {banks : List (Nat × Nat)} (ok : ∀ bank ∈ banks, BankOk bank)
    (contains : Set.Ico image.stext image.imageEnd ⊆ cover banks)
    (reported : Physmem.empty.reportAll (reportBanks banks) = some m) (physmem : s.physmem = m) :
    Yields (kvminit image) s fun _ t => ∀ a ∈ cover banks, ∃ pxn,
      translateKva t.memory image a = some (a, pxn) ∧
        (pxn = false ↔ ∀ b, b / span 2 = a / span 2 → b ∈ cover banks) := by
  obtain ⟨segs, avail, segments, unexcluded⟩ := segments_of_banks ok reported
  have range := cover_range ok
  have room := image.tables image.l0Table (by simp)
  have text := image.text
  have last : image.imageEnd - 1 ∈ cover banks := by
    apply contains
    unfold PGSIZE at room
    constructor <;> omega
  have small := (range _ last).2
  unfold KSTACK_WINDOW_L1 at small
  rw [span_one] at small
  subst physmem
  exact kvminit_yields avail unexcluded segments range (by omega)

theorem blockInRam_iff {banks : List (Nat × Nat)} {p off : Nat} (small : off < PGSIZE) :
    (∀ b, b / span 2 = (p * PGSIZE + off) / span 2 → b ∈ cover banks) ↔ BlockInRam banks p := by
  have block : (p * PGSIZE + off) / span 2 = p / TABLE_ENTRIES := by
    rw [span_two]
    unfold PGSIZE at *
    unfold TABLE_ENTRIES
    omega
  rw [block]
  unfold BlockInRam BLOCK_SIZE_2M
  rw [span_two]
  constructor
  · rintro inRam b ⟨low, high⟩
    apply inRam
    omega
  · rintro inRam b same
    apply inRam
    constructor <;> omega

/-- The pages of the text are whole pages of RAM. -/
theorem textPage_inRam {banks : List (Nat × Nat)} (ok : ∀ bank ∈ banks, BankOk bank)
    (contains : Set.Ico image.stext image.imageEnd ⊆ cover banks) {p off : Nat}
    (text : image.TextPage p) (small : off < PGSIZE) : p * PGSIZE + off ∈ cover banks := by
  obtain ⟨a, low, high, page⟩ := text
  have room := image.tables image.l0Table (by simp)
  have inImage : a ∈ Set.Ico image.stext image.imageEnd := by
    unfold PGSIZE at room
    constructor <;> omega
  obtain ⟨bank, there, first, last⟩ := contains inImage
  obtain ⟨-, -, -, aligned, aligned'⟩ := ok bank there
  refine ⟨bank, there, ?_, ?_⟩
  · unfold PGSIZE at *
    omega
  · unfold PGSIZE at *
    omega

/-- The pages of the text are executable exactly where the blocks around them are all RAM. -/
theorem executable_iff {banks : List (Nat × Nat)} (ok : ∀ bank ∈ banks, BankOk bank)
    (contains : Set.Ico image.stext image.imageEnd ⊆ cover banks)
    (mapped : ∀ a ∈ cover banks, ∃ pxn, translateKva memory image a = some (a, pxn) ∧
      (pxn = false ↔ ∀ b, b / span 2 = a / span 2 → b ∈ cover banks))
    {p : Nat} (text : image.TextPage p) : Executable memory image p ↔ BlockInRam banks p := by
  have first : 0 < PGSIZE := by decide
  constructor
  · intro executable
    obtain ⟨pxn, found, clear⟩ := mapped _ (textPage_inRam ok contains text first)
    rw [executable 0 first] at found
    cases found
    exact (blockInRam_iff first).mp (clear.mp rfl)
  · intro block off small
    obtain ⟨pxn, found, clear⟩ := mapped _ (textPage_inRam ok contains text small)
    rw [found, clear.mpr ((blockInRam_iff small).mpr block)]

/-- After `kvminit` all pages of the kernel text are executable exactly if the blocks of 2 MB
around them are all RAM. -/
theorem kvminit_text_iff {banks : List (Nat × Nat)} (ok : ∀ bank ∈ banks, BankOk bank)
    (contains : Set.Ico image.stext image.imageEnd ⊆ cover banks)
    (reported : Physmem.empty.reportAll (reportBanks banks) = some m) (memory : Memory)
    (freemem : Nat) :
    ∃ t, kvminit image ⟨memory, freemem, m⟩ = .ok ((), t) ∧
      ((∀ p, image.TextPage p → Executable t.memory image p) ↔
        ∀ p, image.TextPage p → BlockInRam banks p) := by
  obtain ⟨⟨⟩, t, runs, mapped⟩ :=
    @kvminit_maps image m ⟨memory, freemem, m⟩ banks ok contains reported rfl
  refine ⟨t, runs, ?_⟩
  apply forall_congr'
  intro p
  exact forall_congr' fun text => executable_iff ok contains mapped text

/-- A small kernel where QEMU loads it. -/
def loadedImage : Image where
  stext := 0x40080000
  etext := 0x40090000
  imageEnd := 0x40094000
  l0Table := 0x40090
  l1Table := 0x40091
  l2Device := 0x40092
  l2Kstack := 0x40093
  text := by decide
  tables := by decide
  distinct := by decide

theorem loaded_inside {start stop : Nat} (low : start ≤ 0x40080000) (high : 0x40094000 ≤ stop) :
    Set.Ico loadedImage.stext loadedImage.imageEnd ⊆ cover [(start, stop)] := by
  rintro a ⟨first, last⟩
  refine ⟨(start, stop), by simp, low.trans first, last.trans_le high⟩

/-- On QEMU the bank begins at 1 GB. -/
theorem kvminit_text_iff_qemu :
    ∃ t, kvminit loadedImage ⟨fun _ _ => 0, 0, ⟨[⟨0x40000000, 0x40000000⟩], []⟩⟩ = .ok ((), t) ∧
      ((∀ p, loadedImage.TextPage p → Executable t.memory loadedImage p) ↔
        ∀ p, loadedImage.TextPage p → BlockInRam [(0x40000000, 0x80000000)] p) :=
  kvminit_text_iff (by simp; exact ⟨by decide, by decide, by decide, by decide, by decide⟩)
    (loaded_inside (by decide) (by decide)) (by decide) _ _

/-- With one page of RAM kept from the kernel at the start of the bank, the text is in the head
of the bank. -/
theorem head_not_executable :
    ¬∀ (image : Image) (banks : List (Nat × Nat)) (m : Physmem.MemoryMap) (memory : Memory)
      (freemem : Nat) (t : BootState), (∀ bank ∈ banks, BankOk bank) →
        banks.Pairwise (fun b c => b.2 ≤ c.1 ∨ c.2 ≤ b.1) →
        Set.Ico image.stext image.imageEnd ⊆ cover banks →
        Physmem.empty.reportAll (reportBanks banks) = some m →
        kvminit image ⟨memory, freemem, m⟩ = .ok ((), t) →
          ∀ p, image.TextPage p → Executable t.memory image p := by
  intro all
  have ok : ∀ bank ∈ [(0x40001000, 0x80000000)], BankOk bank := by
    simp
    exact ⟨by decide, by decide, by decide, by decide, by decide⟩
  have contains := @loaded_inside 0x40001000 0x80000000 (by decide) (by decide)
  have reported : Physmem.empty.reportAll (reportBanks [(0x40001000, 0x80000000)]) =
      some ⟨[⟨0x40001000, 0x3ffff000⟩], []⟩ := by
    decide
  obtain ⟨⟨⟩, t, runs, mapped⟩ :=
    @kvminit_maps loadedImage _ ⟨fun _ _ => 0, 0, _⟩ _ ok contains reported rfl
  have text : loadedImage.TextPage 0x40080 := ⟨0x40080000, by decide, by decide, by decide⟩
  have executable := all _ _ _ _ _ t ok (by simp) contains reported runs 0x40080 text
  have block := (executable_iff ok contains mapped text).mp executable
  obtain ⟨bank, there, low, -⟩ := block (show 0x40000000 ∈ Set.Ico _ _ from by decide)
  rw [List.mem_singleton] at there
  subst there
  exact absurd low (by decide)

end Dmap

end Av6
