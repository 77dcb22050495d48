import Av6.DmapStores
import Av6.PmapWords

/-!
# The tables of the direct map

What the tables hold is described by one cell for each entry of each level.  The entry `y` of
a level is about the addresses from `y * span level`, and it is in the table for `y / 512`.
Banks are mapped from low to high addresses: no leaf is at the position of the next page, and
no table is for addresses behind it.
-/

namespace Av6

namespace Dmap

open FallibleState Kmem Pmap

/-- How many bytes an entry is about. -/
def span (level : Nat) : Nat := 2 ^ ptShift level

theorem span_one : span 1 = 2 ^ 30 := rfl

theorem span_two : span 2 = 2 ^ 21 := rfl

theorem span_three : span 3 = PGSIZE := rfl

inductive Cell where
  | empty
  | table (page : Nat)
  | leaf

def leafAttributes (level : Nat) : Nat :=
  if level = 3 then PAGE_KERNEL else BLOCK_NORMAL

def Cell.word (level y : Nat) : Cell → Nat
  | .empty => 0
  | .table page => tableEntry page
  | .leaf => y * span level ||| leafAttributes level

/-- One cell changes. -/
def put (cells : Nat → Nat → Cell) (level y : Nat) (cell : Cell) : Nat → Nat → Cell :=
  fun l z => if l = level ∧ z = y then cell else cells l z

/-- The entries of the first level beside those for the devices and the kernel stacks. -/
def Open (level y : Nat) : Prop :=
  level = 1 → y ≠ 0 ∧ y ≠ KSTACK_WINDOW_L1

/-- Where the tables are. -/
inductive At (image : Image) (cells : Nat → Nat → Cell) : Nat → Nat → Nat → Prop
  | root : At image cells 1 0 image.l1Table
  | below {level y page : Nat} (entry : cells level y = .table page) :
      At image cells (level + 1) y page

/-- The static tables that no bank of RAM is mapped in. -/
def Image.statics (image : Image) : List Nat := [image.l0Table, image.l2Device, image.l2Kstack]

theorem Image.mem_tables (image : Image) {table : Nat} (member : table ∈ image.statics) :
    table ∈ [image.l0Table, image.l1Table, image.l2Device, image.l2Kstack] := by
  simp only [Image.statics, List.mem_cons, List.not_mem_nil, or_false] at member ⊢
  tauto

theorem Image.l1Table_static (image : Image) : image.l1Table ∉ image.statics := by
  have distinct := image.distinct
  simp only [List.nodup_cons, List.mem_cons, List.not_mem_nil, not_or, or_false] at distinct
  obtain ⟨⟨root, -⟩, ⟨device, stack⟩, -⟩ := distinct
  simp only [Image.statics, List.mem_cons, List.not_mem_nil, or_false, not_or]
  exact ⟨Ne.symm root, device, stack⟩

/-- The slots of the devices and of the kernel stacks, as they are built first. -/
structure Reserved (image : Image) (memory : Memory) : Prop where
  root : wordAt memory image.l0Table 0 = tableEntry image.l1Table
  devices : wordAt memory image.l1Table 0 = tableEntry image.l2Device
  device : ∀ i < TABLE_ENTRIES, wordAt memory image.l2Device i = (i <<< 21 ||| BLOCK_DEVICE)
  kstacks : wordAt memory image.l1Table KSTACK_WINDOW_L1 = tableEntry image.l2Kstack
  kstack : ∀ i < TABLE_ENTRIES, wordAt memory image.l2Kstack i = 0

/-- The tables say what the cells do; everything below `pa` has been mapped. -/
structure Built (image : Image) (m : Physmem.MemoryMap) (cells : Nat → Nat → Cell)
    (pa bound : Nat) (s : BootState) : Prop where
  reserved : Reserved image s.memory
  words : ∀ level y table, At image cells level (y / TABLE_ENTRIES) table → Open level y →
    wordAt s.memory table (y % TABLE_ENTRIES) = (cells level y).word level y
  unique : ∀ level level' x x' table, At image cells level x table →
    At image cells level' x' table → level = level' ∧ x = x'
  taken : ∀ level x table, At image cells level x table →
    table ∉ image.statics ∧ (table + 1) * PGSIZE ≤ s.bootFreemem
  rooted : ∀ level y, cells level y ≠ .empty →
    Open level y ∧ ∃ table, At image cells level (y / TABLE_ENTRIES) table
  begun : ∀ level y page, cells level y = .table page →
    1 ≤ level ∧ level ≤ 2 ∧ y * span level < pa
  past : ∀ level y, cells level y = .leaf →
    1 ≤ level ∧ level ≤ 3 ∧ (y + 1) * span level ≤ pa
  behind : ∀ table ∈ image.statics, (table + 1) * PGSIZE ≤ s.bootFreemem
  aligned : PGSIZE ∣ s.bootFreemem
  room : s.bootFreemem ≤ bound
  physmem : s.physmem = m

variable {image : Image} {m : Physmem.MemoryMap} {cells cells' cells'' : Nat → Nat → Cell}
  {s t : BootState} {pa pa' bound bound' level level' l x y z table page : Nat} {cell : Cell}

theorem put_self : put cells level y cell level y = cell :=
  if_pos ⟨rfl, rfl⟩

theorem put_of_ne (other : ¬(level' = level ∧ z = y)) :
    put cells level y cell level' z = cells level' z :=
  if_neg other

theorem wordAt_zeroPage_of_ne {memory : Memory} {q page i : Nat} (other : q ≠ page) :
    wordAt (zeroPage memory page) q i = wordAt memory q i :=
  wordAt_congr fun _ _ => zeroPage_apply_of_ne other

/-- Stores to other tables leave the reserved slots alone. -/
theorem Reserved.congr {memory memory' : Memory} (reserved : Reserved image memory)
    (statics : ∀ table ∈ image.statics, ∀ i < TABLE_ENTRIES,
      wordAt memory' table i = wordAt memory table i)
    (slots : ∀ i, i = 0 ∨ i = KSTACK_WINDOW_L1 →
      wordAt memory' image.l1Table i = wordAt memory image.l1Table i) :
    Reserved image memory' := by
  constructor
  · rw [statics _ (by simp [Image.statics]) 0 (by decide), reserved.root]
  · rw [slots 0 (.inl rfl), reserved.devices]
  · intro i small
    rw [statics _ (by simp [Image.statics]) i small, reserved.device i small]
  · rw [slots _ (.inr rfl), reserved.kstacks]
  · intro i small
    rw [statics _ (by simp [Image.statics]) i small, reserved.kstack i small]

/-- The position moves on, and more room is allowed. -/
theorem Built.mono (built : Built image m cells pa bound s) (later : pa ≤ pa')
    (more : bound ≤ bound') : Built image m cells pa' bound' s :=
  { built with
    begun := fun level y page entry =>
      have ⟨low, high, start⟩ := built.begun level y page entry
      ⟨low, high, start.trans_le later⟩
    past := fun level y entry =>
      have ⟨low, high, done⟩ := built.past level y entry
      ⟨low, high, done.trans later⟩
    room := built.room.trans more }

theorem Built.at_functional (built : Built image m cells pa bound s)
    (here : At image cells level x table) (here' : At image cells level x page) :
    table = page := by
  cases here with
  | root =>
      cases here' with
      | root => rfl
      | below entry => exact absurd (built.begun 0 0 page entry).1 (by omega)
  | below entry =>
      cases here' with
      | root => exact absurd (built.begun 0 0 table entry).1 (by omega)
      | below entry' =>
          rw [entry] at entry'
          cases entry'
          rfl

/-- Tables have addresses of 48 bits. -/
theorem Built.table_lt (built : Built image m cells pa bound s) (small : bound ≤ 2 ^ 48)
    (here : At image cells level x table) : table < 2 ^ 36 := by
  have taken := (built.taken level x table here).2
  have room := built.room
  unfold PGSIZE at taken
  omega

theorem pteAddr_tableEntry (small : table < 2 ^ 36) :
    pteAddr (tableEntry table) = table * PGSIZE := by
  have shift := pteAddr_shift small
  have attributes := attributes_table.noAddress
  unfold tableEntry
  unfold pteAddr at *
  rw [Nat.or_assoc, Nat.and_or_distrib_right, attributes, Nat.or_zero]
  exact shift

theorem tableEntry_lt (small : table < 2 ^ 36) : tableEntry table < 2 ^ 64 := by
  unfold tableEntry
  rw [Nat.or_assoc]
  apply Nat.or_lt_two_pow
  · unfold PGSIZE
    omega
  · exact attributes_table.lt

theorem isValid_tableEntry : isValid (tableEntry table) := by
  unfold tableEntry
  rw [Nat.or_assoc]
  exact isValid_entry attributes_table

/-- Nothing is below an empty cell. -/
theorem Built.empty_below (built : Built image m cells pa bound s) (low : 1 ≤ level)
    (bare : cells level y = .empty) (inside : z / TABLE_ENTRIES = y) :
    cells (level + 1) z = .empty := by
  by_contra filled
  obtain ⟨-, table, here⟩ := built.rooted (level + 1) z filled
  rw [inside] at here
  cases here with
  | root => omega
  | below entry =>
      rw [bare] at entry
      cases entry

theorem at_put (other : ∀ page, cell ≠ .table page) (bare : cells level y = .empty) :
    At image (put cells level y cell) level' x table ↔ At image cells level' x table := by
  constructor
  · intro here
    cases here with
    | root => exact .root
    | below entry =>
        unfold put at entry
        split at entry
        · exact absurd entry (other table)
        · exact .below entry
  · intro here
    cases here with
    | root => exact .root
    | below entry =>
        apply At.below
        rw [put_of_ne, entry]
        rintro ⟨rfl, rfl⟩
        rw [bare] at entry
        cases entry

theorem at_put_table (bare : cells level y = .empty) :
    At image (put cells level y (.table page)) level' x table ↔
      At image cells level' x table ∨ (level' = level + 1 ∧ x = y ∧ table = page) := by
  constructor
  · intro here
    cases here with
    | root => exact .inl .root
    | below entry =>
        unfold put at entry
        split at entry
        · rename_i same
          obtain ⟨rfl, rfl⟩ := same
          cases entry
          exact .inr ⟨rfl, rfl, rfl⟩
        · exact .inl (.below entry)
  · rintro (here | ⟨rfl, rfl, rfl⟩)
    · cases here with
      | root => exact .root
      | below entry =>
          apply At.below
          rw [put_of_ne, entry]
          rintro ⟨rfl, rfl⟩
          rw [bare] at entry
          cases entry
    · exact .below put_self

/-- A store to an entry of RAM leaves the reserved slots alone. -/
theorem Built.reserved_setWord (built : Built image m cells pa bound s)
    (here : At image cells level (y / TABLE_ENTRIES) table) (unused : Open level y)
    {memory : Memory} (reserved : Reserved image memory) (word : Nat) :
    Reserved image (setWord memory table (y % TABLE_ENTRIES) word) := by
  apply reserved.congr
  · intro static member i _
    apply wordAt_setWord_of_ne
    left
    rintro rfl
    exact (built.taken _ _ _ here).1 member
  · intro i slot
    apply wordAt_setWord_of_ne
    by_cases same : image.l1Table = table
    · right
      obtain ⟨rfl, first⟩ := built.unique _ _ _ _ _ (same ▸ At.root) here
      obtain ⟨notDevice, notStack⟩ := unused rfl
      have index : y % TABLE_ENTRIES = y := by
        have whole := Nat.div_add_mod y TABLE_ENTRIES
        rw [← first] at whole
        omega
      rw [index]
      rintro rfl
      rcases slot with zero | last
      · exact notDevice zero
      · exact notStack last
    · exact .inl same

/-- The entry of an empty cell is not valid. -/
theorem Built.unused (built : Built image m cells pa bound s)
    (here : At image cells level (y / TABLE_ENTRIES) table) (visible : Open level y)
    (bare : cells level y = .empty) :
    ¬isValid (wordAt s.memory table (y % TABLE_ENTRIES)) := by
  rw [built.words level y table here visible, bare]
  exact not_isValid_zero

/-- One entry of a table is rewritten, and its cell with it. -/
theorem Built.word_setWord (built : Built image m cells pa bound s)
    (here : At image cells level (y / TABLE_ENTRIES) table) (small : cell.word level y < 2 ^ 64)
    (there : At image cells level' (z / TABLE_ENTRIES) page) {memory : Memory}
    (same : wordAt memory page (z % TABLE_ENTRIES) = (cells level' z).word level' z) :
    wordAt (setWord memory table (y % TABLE_ENTRIES) (cell.word level y)) page
        (z % TABLE_ENTRIES) =
      (put cells level y cell level' z).word level' z := by
  by_cases target : level' = level ∧ z = y
  · obtain ⟨rfl, rfl⟩ := target
    obtain rfl := built.at_functional here there
    rw [wordAt_setWord small, put_self]
  · rw [put_of_ne target, wordAt_setWord_of_ne, same]
    by_contra both
    obtain ⟨rfl, index⟩ : page = table ∧ z % TABLE_ENTRIES = y % TABLE_ENTRIES := by tauto
    obtain ⟨rfl, keys⟩ := built.unique _ _ _ _ _ there here
    apply target
    refine ⟨rfl, ?_⟩
    rw [← Nat.div_add_mod z TABLE_ENTRIES, ← Nat.div_add_mod y TABLE_ENTRIES, keys, index]

/-- An empty entry gets a leaf. -/
theorem Built.putLeaf (built : Built image m cells pa bound s)
    (here : At image cells level (y / TABLE_ENTRIES) table) (unused : Open level y)
    (bare : cells level y = .empty) (low : 1 ≤ level) (high : level ≤ 3)
    (done : (y + 1) * span level ≤ pa) (small : Cell.leaf.word level y < 2 ^ 64) :
    Built image m (put cells level y .leaf) pa bound
      { s with memory := setWord s.memory table (y % TABLE_ENTRIES) (Cell.leaf.word level y) } := by
  have tables : ∀ {l x page}, At image (put cells level y .leaf) l x page ↔
      At image cells l x page := at_put (by simp) bare
  constructor
  · exact built.reserved_setWord here unused built.reserved _
  · intro l z page there visible
    rw [tables] at there
    exact built.word_setWord here small there (built.words l z page there visible)
  · intro l l' x x' page there there'
    exact built.unique l l' x x' page (tables.mp there) (tables.mp there')
  · intro l x page there
    exact built.taken l x page (tables.mp there)
  · intro l z filled
    by_cases target : l = level ∧ z = y
    · obtain ⟨rfl, rfl⟩ := target
      exact ⟨unused, table, tables.mpr here⟩
    · rw [put_of_ne target] at filled
      obtain ⟨visible, page, there⟩ := built.rooted l z filled
      exact ⟨visible, page, tables.mpr there⟩
  · intro l z page entry
    by_cases target : l = level ∧ z = y
    · obtain ⟨rfl, rfl⟩ := target
      rw [put_self] at entry
      cases entry
    · rw [put_of_ne target] at entry
      exact built.begun l z page entry
  · intro l z entry
    by_cases target : l = level ∧ z = y
    · obtain ⟨rfl, rfl⟩ := target
      exact ⟨low, high, done⟩
    · rw [put_of_ne target] at entry
      exact built.past l z entry
  · exact built.behind
  · exact built.aligned
  · exact built.room
  · exact built.physmem

/-- An empty entry gets a table of the page behind all others. -/
theorem Built.putTable (built : Built image m cells pa bound s)
    (here : At image cells level (y / TABLE_ENTRIES) table) (unused : Open level y)
    (bare : cells level y = .empty) (low : 1 ≤ level) (high : level ≤ 2)
    (started : y * span level < pa) (small : bound + PGSIZE ≤ 2 ^ 48) {next : Nat}
    (page : next * PGSIZE = s.bootFreemem) :
    Built image m (put cells level y (.table next)) pa (bound + PGSIZE)
      { s with
        memory := setWord (zeroPage s.memory next) table (y % TABLE_ENTRIES) (tableEntry next)
        bootFreemem := s.bootFreemem + PGSIZE } := by
  have room := built.room
  have tables : ∀ {l x p}, At image (put cells level y (.table next)) l x p ↔
      At image cells l x p ∨ (l = level + 1 ∧ x = y ∧ p = next) := at_put_table bare
  have fresh : ∀ {l x p}, At image cells l x p → p ≠ next := by
    rintro l x p there rfl
    have taken := (built.taken l x p there).2
    unfold PGSIZE at *
    omega
  have notStatic : next ∉ image.statics := by
    intro member
    have behind := built.behind next member
    unfold PGSIZE at *
    omega
  have width : (Cell.table next).word level y < 2 ^ 64 := by
    apply tableEntry_lt
    unfold PGSIZE at *
    omega
  constructor
  · apply built.reserved_setWord here unused
    apply built.reserved.congr
    · intro static member i _
      have other : static ≠ next := fun same => notStatic (same ▸ member)
      exact wordAt_zeroPage_of_ne other
    · intro i _
      exact wordAt_zeroPage_of_ne (fresh At.root)
  · intro l z p there visible
    rcases tables.mp there with old | ⟨rfl, inside, rfl⟩
    · apply built.word_setWord here width old
      rw [← built.words l z p old visible]
      exact wordAt_congr fun k _ => zeroPage_apply_of_ne (fresh old)
    · -- the new table is empty, and nothing has been below the empty entry
      dsimp only
      have blank := built.empty_below low bare inside
      rw [wordAt_setWord_of_ne (.inl (fresh here).symm), put_of_ne (by omega), blank]
      exact wordAt_zeroPage (Nat.mod_lt z (by decide))
  · intro l l' x x' p there there'
    rcases tables.mp there with old | ⟨rfl, rfl, rfl⟩
    · rcases tables.mp there' with old' | ⟨rfl, rfl, rfl⟩
      · exact built.unique l l' x x' p old old'
      · exact absurd rfl (fresh old)
    · rcases tables.mp there' with old' | ⟨rfl, rfl, -⟩
      · exact absurd rfl (fresh old')
      · exact ⟨rfl, rfl⟩
  · intro l x p there
    dsimp only
    rcases tables.mp there with old | ⟨-, -, rfl⟩
    · obtain ⟨other, taken⟩ := built.taken l x p old
      exact ⟨other, by omega⟩
    · refine ⟨notStatic, ?_⟩
      rw [Nat.add_mul, page, Nat.one_mul]
  · intro l z filled
    by_cases target : l = level ∧ z = y
    · obtain ⟨rfl, rfl⟩ := target
      exact ⟨unused, table, tables.mpr (.inl here)⟩
    · rw [put_of_ne target] at filled
      obtain ⟨visible, p, there⟩ := built.rooted l z filled
      exact ⟨visible, p, tables.mpr (.inl there)⟩
  · intro l z p entry
    by_cases target : l = level ∧ z = y
    · obtain ⟨rfl, rfl⟩ := target
      exact ⟨low, high, started⟩
    · rw [put_of_ne target] at entry
      exact built.begun l z p entry
  · intro l z entry
    by_cases target : l = level ∧ z = y
    · obtain ⟨rfl, rfl⟩ := target
      rw [put_self] at entry
      cases entry
    · rw [put_of_ne target] at entry
      exact built.past l z entry
  · intro static member
    exact (built.behind static member).trans (Nat.le_add_right ..)
  · exact Nat.dvd_add built.aligned (dvd_refl _)
  · exact Nat.add_le_add_right room PGSIZE
  · exact built.physmem

/-- `boot_pgtable`: the page behind all others, cleared. -/
theorem bootPgtable_yields (aligned : PGSIZE ∣ s.bootFreemem)
    (small : s.bootFreemem + PGSIZE < 2 ^ 64) :
    Yields bootPgtable s fun next t => next * PGSIZE = s.bootFreemem ∧
      t = { s with
        memory := zeroPage s.memory next
        bootFreemem := s.bootFreemem + PGSIZE } := by
  refine ⟨s.bootFreemem / PGSIZE, _, rfl, Nat.div_mul_cancel aligned, ?_⟩
  dsimp only
  rw [Nat.one_mul, Nat.mod_eq_of_lt small]

/-- The table below an entry that is no leaf, created on first use. -/
theorem Built.childTable (built : Built image m cells pa bound s)
    (here : At image cells level (y / TABLE_ENTRIES) table) (unused : Open level y)
    (noLeaf : cells level y ≠ .leaf) (low : 1 ≤ level) (high : level ≤ 2)
    (started : y * span level < pa) (small : bound + PGSIZE ≤ 2 ^ 48) :
    Yields (childTableWith storeUnused table (y % TABLE_ENTRIES)) s fun next t => ∃ cells',
      Built image m cells' pa (bound + PGSIZE) t ∧ cells' level y = .table next ∧
        ∀ l z, ¬(l = level ∧ z = y) → cells' l z = cells l z := by
  have word := built.words level y table here unused
  have finish : ∀ {cells' : Nat → Nat → Cell} {t : BootState} {next : Nat},
      Built image m cells' pa (bound + PGSIZE) t → cells' level y = .table next →
      At image cells' level (y / TABLE_ENTRIES) table →
      pteAddr (wordAt t.memory table (y % TABLE_ENTRIES)) / PGSIZE = next := by
    intro cells' t next built' entry there
    have below : next < 2 ^ 36 := built'.table_lt small (.below entry)
    rw [built'.words level y table there unused, entry]
    show pteAddr (tableEntry next) / PGSIZE = next
    rw [pteAddr_tableEntry below]
    exact Nat.mul_div_cancel next (by decide)
  unfold childTableWith fillEntryWith
  cases entry : cells level y with
  | leaf => exact absurd entry noLeaf
  | table next =>
      rw [entry] at word
      have built' := built.mono (le_refl pa) (Nat.le_add_right bound PGSIZE)
      have valid : isValid (wordAt s.memory table (y % TABLE_ENTRIES)) := by
        rw [word]
        exact isValid_tableEntry
      apply Yields.bind (P := fun _ t => t = s)
      · apply Yields.read_bind
        show Yields (if _ then _ else _) _ _
        rw [if_pos valid]
        exact .ret rfl
      · rintro ⟨⟩ t rfl
        refine ⟨_, t, rfl, cells, built', ?_, fun l z _ => rfl⟩
        rw [finish built' entry here, entry]
  | empty =>
      rw [entry] at word
      have room := built.room
      have invalid : ¬isValid (wordAt s.memory table (y % TABLE_ENTRIES)) := by
        rw [word]
        exact not_isValid_zero
      apply Yields.bind (P := fun _ t => ∃ next, next * PGSIZE = s.bootFreemem ∧ t =
        { s with
          memory := setWord (zeroPage s.memory next) table (y % TABLE_ENTRIES) (tableEntry next)
          bootFreemem := s.bootFreemem + PGSIZE })
      · apply Yields.read_bind
        show Yields (if _ then _ else _) _ _
        rw [if_neg invalid]
        apply (bootPgtable_yields built.aligned (by omega)).bind
        rintro next t ⟨page, rfl⟩
        apply storeUnused_yields _ ⟨next, page, rfl⟩
        have other : table ≠ next := by
          rintro rfl
          have taken := (built.taken _ _ _ here).2
          unfold PGSIZE at *
          omega
        dsimp only
        rw [wordAt_zeroPage_of_ne other]
        exact invalid
      · rintro ⟨⟩ t ⟨next, page, rfl⟩
        have built' := built.putTable here unused entry low high started small page
        have there : At image (put cells level y (.table next)) level (y / TABLE_ENTRIES) table :=
          (at_put_table entry).mpr (.inl here)
        refine ⟨_, _, rfl, _, built', ?_, fun l z other => put_of_ne other⟩
        rw [finish built' put_self there, put_self]

/-- An entry of the first level for an address of RAM. -/
theorem first_level {a : Nat} (low : span 1 ≤ a) (high : a < KSTACK_WINDOW_L1 * span 1) :
    a / span 1 % TABLE_ENTRIES = a / span 1 ∧ a / span 1 / TABLE_ENTRIES = 0 ∧
      a / span 1 ≠ 0 ∧ a / span 1 ≠ KSTACK_WINDOW_L1 := by
  unfold KSTACK_WINDOW_L1 TABLE_ENTRIES at *
  rw [span_one] at *
  omega

theorem lt_of_window {a : Nat} (high : a < KSTACK_WINDOW_L1 * span 1) : a < 2 ^ 48 := by
  unfold KSTACK_WINDOW_L1 at high
  rw [span_one] at high
  omega

/-- `dmap_l2`: the table of the second level for an address of RAM. -/
theorem Built.dmapL2 (built : Built image m cells pa bound s) {a : Nat} (low : span 1 ≤ a)
    (high : a < KSTACK_WINDOW_L1 * span 1) (noLeaf : cells 1 (a / span 1) ≠ .leaf)
    (started : a < pa) (small : bound + PGSIZE ≤ 2 ^ 48) :
    Yields (dmapL2With storeUnused image a) s fun next t => ∃ cells',
      Built image m cells' pa (bound + PGSIZE) t ∧ At image cells' 2 (a / span 1) next ∧
        ∀ l z, ¬(l = 1 ∧ z = a / span 1) → cells' l z = cells l z := by
  obtain ⟨same, inRoot, unused⟩ := first_level low high
  have index : tableIndex a 1 = a / span 1 % TABLE_ENTRIES := rfl
  have here : At image cells 1 (a / span 1 / TABLE_ENTRIES) image.l1Table := by
    rw [inRoot]
    exact .root
  unfold dmapL2With
  dsimp only
  rw [index]
  apply Yields.check_bind
  · rw [same]
    exact unused
  · have started' : a / span 1 * span 1 < pa := (Nat.div_mul_le_self ..).trans_lt started
    apply (built.childTable here (fun _ => unused) noLeaf (by omega) (by omega) started' small).mono
    rintro next t ⟨cells', built', entry, others⟩
    exact ⟨cells', built', .below entry, others⟩

/-- The leaves are those there were, and one more. -/
def Leafed (cells cells' : Nat → Nat → Cell) (level y : Nat) : Prop :=
  ∀ l z, cells' l z = .leaf ↔ cells l z = .leaf ∨ (l = level ∧ z = y)

theorem leafed_put : Leafed cells (put cells level y .leaf) level y := by
  intro l z
  by_cases target : l = level ∧ z = y
  · simp [target, put_self]
  · simp [target, put_of_ne target]

/-- A table in place of an entry that is no leaf adds no leaf. -/
theorem Leafed.of_table (leafed : Leafed cells' cells'' level y)
    (noLeaf : cells l z ≠ .leaf) (entry : cells' l z = .table page)
    (others : ∀ l' z', ¬(l' = l ∧ z' = z) → cells' l' z' = cells l' z') :
    Leafed cells cells'' level y := by
  intro l' z'
  rw [leafed l' z']
  by_cases target : l' = l ∧ z' = z
  · obtain ⟨rfl, rfl⟩ := target
    simp [noLeaf, entry]
  · rw [others l' z' target]

/-- What is at the position lies in no leaf. -/
theorem Built.noLeaf (built : Built image m cells pa bound s) :
    cells level (pa / span level) ≠ .leaf := by
  intro entry
  have done := (built.past level _ entry).2.2
  have size : 0 < span level := Nat.two_pow_pos _
  have past := Nat.lt_mul_of_div_lt (Nat.lt_succ_self (pa / span level)) size
  exact absurd done (Nat.not_le.mpr past)

/-- The entry that begins at the position is empty. -/
theorem Built.bare (built : Built image m cells pa bound s) (aligned : span level ∣ pa) :
    cells level (pa / span level) = .empty := by
  cases entry : cells level (pa / span level) with
  | empty => rfl
  | leaf => exact absurd entry built.noLeaf
  | table page =>
      have started := (built.begun level _ page entry).2.2
      rw [Nat.div_mul_cancel aligned] at started
      exact absurd started (Nat.lt_irrefl pa)

theorem div_span_two (a : Nat) : a / span 2 / TABLE_ENTRIES = a / span 1 :=
  Nat.div_div_eq_div_mul ..

theorem div_span_three (a : Nat) : a / span 3 / TABLE_ENTRIES = a / span 2 :=
  Nat.div_div_eq_div_mul ..

theorem leaf_word_lt (small : pa < 2 ^ 48) : pa ||| leafAttributes level < 2 ^ 64 := by
  apply Nat.or_lt_two_pow
  · omega
  · unfold leafAttributes
    split
    · decide
    · decide

/-- The leaf at the position is written, and the position moves behind it. -/
theorem Built.putNext (built : Built image m cells (pa + span level) bound s)
    (aligned : span level ∣ pa)
    (here : At image cells level (pa / span level / TABLE_ENTRIES) table)
    (bare : cells level (pa / span level) = .empty) (unused : Open level (pa / span level))
    (low : 1 ≤ level) (high : level ≤ 3) (small : pa < 2 ^ 48) :
    Built image m (put cells level (pa / span level) .leaf) (pa + span level) bound
      { s with
        memory := setWord s.memory table (pa / span level % TABLE_ENTRIES)
          (pa ||| leafAttributes level) } := by
  have start : pa / span level * span level = pa := Nat.div_mul_cancel aligned
  have word : Cell.leaf.word level (pa / span level) = pa ||| leafAttributes level := by
    unfold Cell.word
    rw [start]
  rw [← word]
  apply built.putLeaf here unused bare low high
  · rw [Nat.add_mul, start, Nat.one_mul]
  · rw [word]
    exact leaf_word_lt small

/-- What mapping at the position does: one more leaf, and at most two more tables. -/
def Advances (image : Image) (m : Physmem.MemoryMap) (cells : Nat → Nat → Cell)
    (level pa bound : Nat) (t : BootState) : Prop :=
  ∃ cells', Built image m cells' (pa + span level) (bound + 2 * PGSIZE) t ∧
    Leafed cells cells' level (pa / span level)

/-- `dmap_page` -/
theorem Built.dmapPage (built : Built image m cells pa bound s) (aligned : PGSIZE ∣ pa)
    (low : span 1 ≤ pa) (high : pa < KSTACK_WINDOW_L1 * span 1)
    (small : bound + 2 * PGSIZE ≤ 2 ^ 48) :
    Yields (dmapPageWith storeUnused image pa) s fun _ t => Advances image m cells 3 pa bound t := by
  have past : pa < pa + span 3 := Nat.lt_add_of_pos_right (by decide)
  have raised := built.mono past.le (le_refl bound)
  unfold dmapPageWith
  apply (raised.dmapL2 low high built.noLeaf past (by omega)).bind
  rintro l2 t ⟨cells₁, built₁, there₁, others₁⟩
  have second : cells₁ 2 (pa / span 2) ≠ .leaf := by
    rw [others₁ _ _ (by omega)]
    exact built.noLeaf
  have inL2 : At image cells₁ 2 (pa / span 2 / TABLE_ENTRIES) l2 := by
    rw [div_span_two]
    exact there₁
  have started : pa / span 2 * span 2 < pa + span 3 := (Nat.div_mul_le_self ..).trans_lt past
  apply (built₁.childTable inL2 (by simp [Open]) second (by omega) (by omega) started
    (by omega)).bind
  rintro l3 u ⟨cells₂, built₂, entry₂, others₂⟩
  have inL3 : At image cells₂ 3 (pa / span 3 / TABLE_ENTRIES) l3 := by
    rw [div_span_three]
    exact .below entry₂
  have third : cells₂ 3 (pa / span 3) = .empty := by
    rw [others₂ _ _ (by omega), others₁ _ _ (by omega)]
    exact built.bare aligned
  have built₃ := built₂.putNext aligned inL3 third (by simp [Open]) (by omega) (by omega)
    (lt_of_window high)
  apply storeUnused_yields (built₂.unused inL3 (by simp [Open]) third)
  obtain ⟨page, entry₁⟩ : ∃ page, cells₁ 1 (pa / span 1) = .table page := by
    cases there₁ with
    | below entry => exact ⟨_, entry⟩
  refine ⟨_, built₃.mono le_rfl (by omega), ?_⟩
  apply Leafed.of_table _ built.noLeaf entry₁ others₁
  exact Leafed.of_table leafed_put second entry₂ others₂

/-- `dmap_block_2m` -/
theorem Built.dmapBlock2m (built : Built image m cells pa bound s) (aligned : span 2 ∣ pa)
    (low : span 1 ≤ pa) (high : pa < KSTACK_WINDOW_L1 * span 1)
    (small : bound + 2 * PGSIZE ≤ 2 ^ 48) :
    Yields (dmapBlock2mWith storeUnused image pa) s fun _ t => Advances image m cells 2 pa bound t := by
  have past : pa < pa + span 2 := Nat.lt_add_of_pos_right (by decide)
  have raised := built.mono past.le (le_refl bound)
  unfold dmapBlock2mWith
  apply (raised.dmapL2 low high built.noLeaf past (by omega)).bind
  rintro l2 t ⟨cells₁, built₁, there₁, others₁⟩
  have second : cells₁ 2 (pa / span 2) = .empty := by
    rw [others₁ _ _ (by omega)]
    exact built.bare aligned
  have inL2 : At image cells₁ 2 (pa / span 2 / TABLE_ENTRIES) l2 := by
    rw [div_span_two]
    exact there₁
  have built₂ := built₁.putNext aligned inL2 second (by simp [Open]) (by omega) (by omega)
    (lt_of_window high)
  apply storeUnused_yields (built₁.unused inL2 (by simp [Open]) second)
  obtain ⟨page, entry₁⟩ : ∃ page, cells₁ 1 (pa / span 1) = .table page := by
    cases there₁ with
    | below entry => exact ⟨_, entry⟩
  refine ⟨_, built₂.mono le_rfl (by omega), ?_⟩
  exact Leafed.of_table leafed_put built.noLeaf entry₁ others₁

/-- `dmap_block_1g` -/
theorem Built.dmapBlock1g (built : Built image m cells pa bound s) (aligned : span 1 ∣ pa)
    (low : span 1 ≤ pa) (high : pa < KSTACK_WINDOW_L1 * span 1) :
    Yields (dmapBlock1gWith storeUnused image pa) s fun _ t => Advances image m cells 1 pa bound t := by
  obtain ⟨same, inRoot, unused⟩ := first_level low high
  have raised := built.mono (Nat.le_add_right pa (span 1)) (le_refl bound)
  have here : At image cells 1 (pa / span 1 / TABLE_ENTRIES) image.l1Table := by
    rw [inRoot]
    exact .root
  have built' := raised.putNext aligned here (built.bare aligned) (fun _ => unused)
    (by omega) (by omega) (lt_of_window high)
  unfold dmapBlock1gWith
  dsimp only
  apply Yields.check_bind
  · show pa / span 1 % TABLE_ENTRIES ≠ 0 ∧ pa / span 1 % TABLE_ENTRIES ≠ KSTACK_WINDOW_L1
    rw [same]
    exact unused
  · apply storeUnused_yields (raised.unused here (fun _ => unused) (built.bare aligned))
    exact ⟨_, built'.mono le_rfl (by omega), leafed_put⟩

end Dmap

end Av6
