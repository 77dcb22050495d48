import Av6.Bitstring
import Av6.ElfBounds
import Av6.KstackPages
import Av6.TransitionSystem

/-!
# The kernel-stack window

Slots of the window are reserved in a bitmap, given a stack, and released, the way `allocproc` and
`freeproc` do it, while others take pages from the allocator, write to them and give them back.
The guard pages are never mapped, a stack is mapped as a whole or not at all, and what is done to
one slot does not touch another.
-/

namespace Av6

namespace Pmap

open FallibleState Kmem Bitstring TransitionSystem

/-- `kstack_slot_alloc`: the slot, or -1, and the bitmap. -/
def kstackSlotAlloc (slotmap : Bitstr) : Int × Bitstr :=
  let slot := bitFfc slotmap KSTACK_NSLOTS
  if 0 ≤ slot then (slot, bitSet slotmap slot.toNat) else (slot, slotmap)

/-- `kstack_slot_free` -/
def kstackSlotFree (slotmap : Bitstr) (slot : Nat) : Bitstr := bitClear slotmap slot

/-- How far `allocproc` or `freeproc` is with a slot: it is free, it has been reserved, it has a
stack, or it has none and is about to be released. -/
inductive StackPhase where
  | free
  | reserved
  | given
  | empty
  deriving DecidableEq

/-- The memory, the bitmap of the slots, and the pages that others hold. -/
structure WindowState where
  vm : VmState
  slotmap : Bitstr
  phase : Nat → StackPhase
  client : Nat → Option Nat

/-- A step, and the slot that it is about. -/
inductive WindowStep : WindowState → Option Nat → WindowState → Prop
  | full {s} (none_ : (kstackSlotAlloc s.slotmap).1 < 0) : WindowStep s none s
  | slotAlloc {s} {idx : Nat} (found : (kstackSlotAlloc s.slotmap).1 = idx) :
      WindowStep s (some idx) { s with
        slotmap := (kstackSlotAlloc s.slotmap).2
        phase := Function.update s.phase idx .reserved }
  | alloc {s idx top vm} (reserved : s.phase idx = .reserved)
      (runs : kstackAlloc idx s.vm = .ok (top, vm)) :
      WindowStep s (some idx) { s with
        vm
        phase := Function.update s.phase idx (if top = 0 then .empty else .given) }
  | release {s idx vm} (given : s.phase idx = .given) (runs : kstackFree idx s.vm = .ok ((), vm)) :
      WindowStep s (some idx) { s with vm, phase := Function.update s.phase idx .empty }
  | slotFree {s idx} (empty : s.phase idx = .empty) :
      WindowStep s (some idx) { s with
        slotmap := kstackSlotFree s.slotmap idx
        phase := Function.update s.phase idx .free }
  | take {s k page vm} (bare : s.client k = none) (runs : allocPage s.vm = .ok (page, vm)) :
      WindowStep s none { s with vm, client := Function.update s.client k page }
  | give {s k page vm} (held : s.client k = some page) (runs : freePage page s.vm = .ok ((), vm)) :
      WindowStep s none { s with vm, client := Function.update s.client k none }
  | write {s k page memory} (held : s.client k = some page)
      (others : ∀ q off, q ≠ page → memory q off = s.vm.memory q off) :
      WindowStep s none { s with vm := { s.vm with memory } }

/-- The slots are free, and nothing is mapped in the window. -/
structure WindowStart (s : WindowState) : Prop where
  slotmap : s.slotmap = List.replicate (KSTACK_NSLOTS / 64) 0
  phase : ∀ idx, s.phase idx = .free
  placed : ∃ live place, Twins live place s.vm s.vm ∧ place (.hand 0) = none ∧
    (∀ i j, place (.stack i j) = none) ∧ ∀ k, place (.client k) = s.client k

/-- The address of a page of a slot, guard pages first. -/
def slotPageVa (idx j : Nat) : Nat := KSTACK_WINDOW + idx * KSTACK_SLOT_PAGES * PGSIZE + j * PGSIZE

/-- The descriptor for an address of the window, as `kstack_walk` finds it; 0 without a table. -/
def stackPte (memory : Memory) (va : Nat) : Nat :=
  let entry := wordAt memory L2_KSTACK (tableIndex va 2)
  if isValid entry then wordAt memory (ptePage entry) (tableIndex va 3) else 0

variable {s t : WindowState} {vm vm' : VmState} {live : CacheRef → Multiset Nat} {place place' : Place}
  {idx idx' i j p : Nat} {label : Option Nat} {held : Nat → Prop}

/-- The place of a page of a slot. -/
def slotPage (idx j : Nat) : Slot := .stack (idx / 64) (idx % 64 * 8 + j)

theorem slotPage_stack (idx i : Nat) : slotPage idx (KSTACK_GUARD_PAGES + i) = stackSlot idx i := by
  unfold slotPage stackSlot KSTACK_GUARD_PAGES
  rw [Nat.add_assoc]

theorem slotPage_va (idx i : Nat) :
    slotPageVa idx (KSTACK_GUARD_PAGES + i) = kstackBaseVa idx + i * PGSIZE := by
  unfold slotPageVa kstackBaseVa
  rw [Nat.add_mul, Nat.add_assoc, Nat.add_assoc, Nat.add_assoc]

theorem slotPage_inj (low : j < KSTACK_SLOT_PAGES) (low' : i < KSTACK_SLOT_PAGES)
    (same : slotPage idx j = slotPage idx' i) : idx = idx' ∧ j = i := by
  unfold slotPage at same
  unfold KSTACK_SLOT_PAGES KSTACK_GUARD_PAGES KSTACK_PAGES at *
  simp only [Slot.stack.injEq] at same
  omega

theorem slotPageVa_eq (idx j : Nat) :
    slotPageVa idx j = (2 ^ 52 - 2 ^ 36 + 511 * 2 ^ 18 + idx * 8 + j) * 2 ^ 12 := by
  unfold slotPageVa KSTACK_WINDOW KSTACK_SLOT_PAGES KSTACK_GUARD_PAGES KSTACK_PAGES KERN_BASE PGSIZE
  omega

theorem hangs_slotPage (low : j < KSTACK_SLOT_PAGES) :
    Hangs (slotPage idx j) (.stackTable (idx / 64)) (idx % 64 * 8 + j) := by
  refine ⟨?_, 0, idx / 64, .inr (.inr ⟨rfl, rfl⟩)⟩
  unfold KSTACK_SLOT_PAGES KSTACK_GUARD_PAGES KSTACK_PAGES at low
  unfold TABLE_ENTRIES
  omega

theorem slotPage_table (small : idx < KSTACK_NSLOTS) (low : j < KSTACK_SLOT_PAGES) :
    tableIndex (slotPageVa idx j) 2 = idx / 64 := by
  rw [slotPageVa_eq]
  have slots : KSTACK_NSLOTS = 32768 := by decide
  unfold KSTACK_SLOT_PAGES KSTACK_GUARD_PAGES KSTACK_PAGES at low
  unfold tableIndex ptShift TABLE_ENTRIES
  omega

theorem slotPage_index (low : j < KSTACK_SLOT_PAGES) :
    tableIndex (slotPageVa idx j) 3 = idx % 64 * 8 + j := by
  rw [slotPageVa_eq]
  unfold KSTACK_SLOT_PAGES KSTACK_GUARD_PAGES KSTACK_PAGES at low
  unfold tableIndex ptShift TABLE_ENTRIES
  omega

/-- The descriptor for a page of a slot, by the table that is placed above it. -/
theorem stackPte_eq (twins : Twins live place vm vm) (small : idx < KSTACK_NSLOTS)
    (low : j < KSTACK_SLOT_PAGES) : stackPte vm.memory (slotPageVa idx j) =
      match place (.stackTable (idx / 64)) with
      | none => 0
      | some l3 => wordAt vm.memory l3 (idx % 64 * 8 + j) := by
  have entry := twins.forest.window _ (table_lt small)
  unfold stackPte
  rw [slotPage_table small low, slotPage_index low]
  cases table : place (.stackTable (idx / 64)) with
  | none =>
      rw [table] at entry
      exact if_neg fun valid => entry.isValid_iff.mp valid rfl
  | some l3 =>
      rw [table] at entry
      dsimp only
      rw [if_pos (entry.isValid_iff.mpr (by simp)), entry.ptePage_eq (twins.ok.direct_of_place table)]

/-- The descriptor is that of the page in its place. -/
theorem stackPte_entry (twins : Twins live place vm vm) (small : idx < KSTACK_NSLOTS)
    (low : j < KSTACK_SLOT_PAGES) :
    Entry (place (slotPage idx j)) (stackPte vm.memory (slotPageVa idx j)) := by
  have hangs := @hangs_slotPage idx j low
  rw [stackPte_eq twins small low]
  cases table : place (.stackTable (idx / 64)) with
  | none =>
      have bare : place (slotPage idx j) = none := by
        by_contra filled
        exact twins.forest.parent _ _ _ hangs filled table
      rw [bare]
      rfl
  | some l3 => exact twins.forest.entry _ _ _ _ hangs table

/-- The descriptor of a page stays when its place does, and its entry in the table. -/
theorem stackPte_kept (twins : Twins live place vm vm) (twins' : Twins live place' vm' vm')
    (small : idx < KSTACK_NSLOTS) (low : j < KSTACK_SLOT_PAGES)
    (same : place' (slotPage idx j) = place (slotPage idx j))
    (words : ∀ q, place (.stackTable (idx / 64)) = some q →
      place' (.stackTable (idx / 64)) = some q ∧
      wordAt vm'.memory q (idx % 64 * 8 + j) = wordAt vm.memory q (idx % 64 * 8 + j)) :
    stackPte vm'.memory (slotPageVa idx j) = stackPte vm.memory (slotPageVa idx j) := by
  cases table : place (.stackTable (idx / 64)) with
  | none =>
      have bare : place (slotPage idx j) = none := by
        by_contra filled
        exact twins.forest.parent _ _ _ (hangs_slotPage low) filled table
      have entry := stackPte_entry twins small low
      have entry' := stackPte_entry twins' small low
      rw [same, bare] at entry'
      rw [bare] at entry
      exact entry'.trans entry.symm
  | some l3 =>
      obtain ⟨table', word⟩ := words l3 table
      rw [stackPte_eq twins small low, stackPte_eq twins' small low, table, table']
      exact word

/-- What is done to one slot leaves the descriptors of the others. -/
theorem AroundStack.stackPte_eq (around : AroundStack idx place place' vm vm vm' vm')
    (twins : Twins live place vm vm) (twins' : Twins live place' vm' vm') (other : idx' ≠ idx)
    (small : idx' < KSTACK_NSLOTS) (low : j < KSTACK_SLOT_PAGES) :
    stackPte vm'.memory (slotPageVa idx' j) = stackPte vm.memory (slotPageVa idx' j) := by
  have apart : ∀ k < KSTACK_PAGES, slotPage idx' j ≠ stackSlot idx k := by
    intro k less same
    rw [← slotPage_stack] at same
    refine other (slotPage_inj low ?_ same).1
    unfold KSTACK_SLOT_PAGES
    omega
  have outside : ∀ a b, (Slot.stack a b) = slotPage idx' j → ¬ (slotPage idx' j).OfStack idx := by
    rintro a b - (same | ⟨k, less, same⟩)
    · cases same
    · exact apart k less same
  apply stackPte_kept twins twins' small low (around.within.only _ (outside _ _ rfl))
  intro q there
  refine ⟨?_, around.words _ _ _ q (hangs_slotPage low) apart there⟩
  by_cases table : idx' / 64 = idx / 64
  · rw [table] at there ⊢
    exact around.keeps q there
  · rw [around.within.only]
    · exact there
    · rintro (same | ⟨k, -, same⟩)
      · exact table (Slot.stackTable.inj same)
      · cases same

theorem phase_update {phase : Nat → StackPhase} {q : StackPhase} (a b : Nat) :
    Function.update phase a q b = if b = a then q else phase b := by
  by_cases same : b = a
  · rw [same, Function.update_self, if_pos rfl]
  · rw [Function.update_of_ne same, if_neg same]

/-- What holds between the steps: the stacks that are placed are those of the slots that were
given one, the guard pages are bare, and the bitmap knows the slots in use. -/
structure WindowOk (live : CacheRef → Multiset Nat) (place : Place) (s : WindowState) : Prop where
  twins : Twins live place s.vm s.vm
  bare : place (.hand 0) = none
  clients : ∀ k, place (.client k) = s.client k
  mapped : ∀ idx < KSTACK_NSLOTS, ∀ i < KSTACK_PAGES,
    place (stackSlot idx i) ≠ none ↔ s.phase idx = .given
  guards : ∀ idx < KSTACK_NSLOTS, ∀ j < KSTACK_GUARD_PAGES, place (slotPage idx j) = none
  length : s.slotmap.length = KSTACK_NSLOTS / 64
  used : ∀ idx < KSTACK_NSLOTS, bitTest s.slotmap idx = true ↔ s.phase idx ≠ .free
  inside : ∀ idx, s.phase idx ≠ .free → idx < KSTACK_NSLOTS

theorem slots_eq : KSTACK_NSLOTS = 32768 := by decide

/-- There is a free slot, which is marked, or there is none. -/
theorem kstackSlotAlloc_cases (slotmap : Bitstr) (length : slotmap.length = KSTACK_NSLOTS / 64) :
    kstackSlotAlloc slotmap = (-1, slotmap) ∨ ∃ idx < KSTACK_NSLOTS, bitTest slotmap idx = false ∧
      kstackSlotAlloc slotmap = (Int.ofNat idx, bitSet slotmap idx) := by
  have slots := slots_eq
  unfold kstackSlotAlloc
  rcases bitFfc_spec slotmap KSTACK_NSLOTS (by omega) with ⟨b, value, less, clear, -⟩ | ⟨value, -⟩
  · rw [value]
    exact .inr ⟨b, less, clear, if_pos (by omega)⟩
  · rw [value]
    exact .inl (if_neg (by omega))

theorem kstackSlotAlloc_spec (length : s.slotmap.length = KSTACK_NSLOTS / 64)
    (found : (kstackSlotAlloc s.slotmap).1 = (idx : Nat)) :
    idx < KSTACK_NSLOTS ∧ bitTest s.slotmap idx = false ∧
      (kstackSlotAlloc s.slotmap).2 = bitSet s.slotmap idx := by
  rcases kstackSlotAlloc_cases s.slotmap length with none_ | ⟨b, less, clear, some_⟩
  · rw [none_] at found
    cases found
  · rw [some_] at found ⊢
    obtain rfl : b = idx := Int.ofNat_inj.mp found
    exact ⟨less, clear, rfl⟩

/-- What is done to one slot keeps the guards, the other stacks and the clients. -/
theorem WindowOk.stacked {top : StackPhase} (ok : WindowOk live place s)
    (small : idx < KSTACK_NSLOTS) (busy : s.phase idx ≠ .free) (nonfree : top ≠ .free)
    (stacked : Stacked idx held live place place' s.vm s.vm vm vm)
    (holds : ∀ i < KSTACK_PAGES, held i ↔ top = .given) :
    WindowOk live place' { s with vm, phase := Function.update s.phase idx top } := by
  have outside : ∀ {slot : Slot}, slot ≠ .stackTable (idx / 64) →
      (∀ i < KSTACK_PAGES, slot ≠ stackSlot idx i) → place' slot = place slot := by
    intro slot notTable notPage
    apply stacked.within.only
    rintro (same | ⟨i, less, same⟩)
    · exact notTable same
    · exact notPage i less same
  refine ⟨stacked.twins, ?_, ?_, ?_, ?_, ok.length, ?_, ?_⟩
  · exact (outside (by rintro ⟨⟩) (by rintro _ _ ⟨⟩)).trans ok.bare
  · intro k
    exact (outside (by rintro ⟨⟩) (by rintro _ _ ⟨⟩)).trans (ok.clients k)
  · intro other small' i low
    dsimp only
    rw [phase_update]
    by_cases same : other = idx
    · rw [if_pos same, same, stacked.filled i low]
      exact holds i low
    · rw [if_neg same, outside, ok.mapped other small' i low]
      · rintro ⟨⟩
      · intro k less eq
        rw [← slotPage_stack, ← slotPage_stack] at eq
        unfold KSTACK_PAGES at low less
        exact same (slotPage_inj (by unfold KSTACK_SLOT_PAGES KSTACK_GUARD_PAGES KSTACK_PAGES; omega)
          (by unfold KSTACK_SLOT_PAGES KSTACK_GUARD_PAGES KSTACK_PAGES; omega) eq).1
  · intro other small' j low
    rw [outside, ok.guards other small' j low]
    · rintro ⟨⟩
    · intro k less eq
      rw [← slotPage_stack] at eq
      unfold KSTACK_PAGES at less
      unfold KSTACK_GUARD_PAGES at low
      have same := (slotPage_inj (by unfold KSTACK_SLOT_PAGES KSTACK_GUARD_PAGES KSTACK_PAGES; omega)
        (by unfold KSTACK_SLOT_PAGES KSTACK_GUARD_PAGES KSTACK_PAGES; omega) eq).2
      unfold KSTACK_GUARD_PAGES at same
      omega
  · intro other small'
    dsimp only
    rw [phase_update, ok.used other small']
    split
    · rename_i same
      rw [same]
      exact iff_of_true busy nonfree
    · rfl
  · intro other
    dsimp only
    rw [phase_update]
    split
    · rename_i same
      rw [same]
      exact fun _ => small
    · exact ok.inside other

/-- Pages of clients come and go. -/
theorem WindowOk.elsewhere {k : Nat} {page : Option Nat} (ok : WindowOk live place s)
    (twins : Twins live (Function.update place (.client k) page) vm vm) :
    WindowOk live (Function.update place (.client k) page)
      { s with vm, client := Function.update s.client k page } := by
  have same : ∀ {slot : Slot}, slot ≠ .client k →
      Function.update place (.client k) page slot = place slot :=
    fun other => Function.update_of_ne other _ _
  refine ⟨twins, ?_, ?_, ?_, ?_, ok.length, ok.used, ok.inside⟩
  · rw [same (by rintro ⟨⟩), ok.bare]
  · intro k'
    by_cases here : k' = k
    · rw [here, Function.update_self]
      exact (Function.update_self k page s.client).symm
    · rw [same fun eq => here (Slot.client.inj eq)]
      exact (ok.clients k').trans (Function.update_of_ne here _ _).symm
  · intro idx small i low
    rw [same (by rintro ⟨⟩)]
    exact ok.mapped idx small i low
  · intro idx small j low
    rw [same (by rintro ⟨⟩)]
    exact ok.guards idx small j low

/-- The pages of a client are not known to the page tables. -/
theorem Twins.client {k : Nat} {page : Option Nat} (twins : Twins live place vm vm)
    (ok : VmOk vm' live (Function.update place (.client k) page))
    (same : ∀ slot q off, slot ≠ .client k → place slot = some q → vm'.memory q off = vm.memory q off)
    (window : ∀ off, vm'.memory L2_KSTACK off = vm.memory L2_KSTACK off) :
    Twins live (Function.update place (.client k) page) vm' vm' := by
  refine ⟨ok, ?_, .refl _ _⟩
  refine twins.forest.frame ?_ (fun i _ => wordAt_congr fun j _ => window _) ?_
  · intro slot up i q hangs there
    refine wordAt_congr fun j _ => same up q _ ?_ there
    rintro rfl
    exact hangs.mapped_up
  · intro slot mapped
    rw [Function.update_of_ne]
    rintro rfl
    exact mapped

theorem WindowOk.take {k : Nat} {page : Option Nat} (ok : WindowOk live place s)
    (bare : s.client k = none) (runs : allocPage s.vm = .ok (page, vm)) :
    vm.memory = s.vm.memory ∧
      ∃ place', WindowOk live place' { s with vm, client := Function.update s.client k page } := by
  have bare' : place (.client k) = none := (ok.clients k).trans bare
  obtain ⟨memory, -, -, ⟨rfl, dry⟩ | ⟨p, rfl, taken⟩⟩ :=
    (allocPage_twin ok.twins.ok rfl).self.post_of_eq runs
  · refine ⟨memory, _, ok.elsewhere (ok.twins.client ?_ ?_ ?_)⟩
    · rw [← bare', Function.update_eq_self]
      exact dry.ok
    · exact fun _ q off _ _ => by rw [memory]
    · exact fun off => by rw [memory]
  · refine ⟨memory, _, ok.elsewhere (ok.twins.client (taken.ok _ bare') ?_ ?_)⟩
    · exact fun _ q off _ _ => by rw [memory]
    · exact fun off => by rw [memory]

theorem WindowOk.give {k page : Nat} (ok : WindowOk live place s) (held : s.client k = some page)
    (runs : freePage page s.vm = .ok ((), vm)) :
    vm.memory = s.vm.memory ∧
      ∃ place', WindowOk live place' { s with vm, client := Function.update s.client k none } := by
  obtain ⟨memory, -, -, after⟩ := (freePage_twin ok.twins.ok rfl
    ((ok.clients k).trans held)).self.post_of_eq runs
  refine ⟨memory, _, ok.elsewhere (ok.twins.client after ?_ ?_)⟩
  · exact fun _ q off _ _ => by rw [memory]
  · exact fun off => by rw [memory]

theorem WindowOk.write {k page : Nat} {memory : Memory} (ok : WindowOk live place s)
    (held : s.client k = some page)
    (others : ∀ q off, q ≠ page → memory q off = s.vm.memory q off) :
    WindowOk live place { s with vm := { s.vm with memory } } := by
  have there := (ok.clients k).trans held
  have same : Function.update place (.client k) (some page) = place := by
    rw [← there, Function.update_eq_self]
  have same' : Function.update s.client k (some page) = s.client := by
    rw [← held, Function.update_eq_self]
  have written : VmOk { s.vm with memory } live (Function.update place (.client k) (some page)) := by
    rw [same]
    exact ok.twins.ok.setMemory memory
  have after := ok.elsewhere (ok.twins.client written ?_ ?_)
  · rwa [same, same'] at after
  · intro slot q off other atSlot
    apply others q off
    rintro rfl
    exact other (ok.twins.ok.unique atSlot there)
  · intro off
    exact others _ off (ok.twins.ok.direct_of_place there).ne_window.symm

theorem bitTest_zeros (n i : Nat) : bitTest (List.replicate n 0) i = false := by
  rw [bitTest_eq]
  simp

theorem WindowOk.start (start : WindowStart s) : ∃ live place, WindowOk live place s := by
  obtain ⟨live, place, twins, bare, empty, clients⟩ := start.placed
  have length : s.slotmap.length = KSTACK_NSLOTS / 64 := by rw [start.slotmap, List.length_replicate]
  refine ⟨live, place, twins, bare, clients, ?_, fun _ _ _ _ => empty _ _, length, ?_, ?_⟩
  · intro idx _ i _
    rw [start.phase]
    exact iff_of_false (not_not_intro (empty _ _)) (by decide)
  · intro idx small
    rw [start.phase, start.slotmap, bitTest_zeros]
    exact iff_of_false (by decide) (fun busy => busy rfl)
  · intro idx busy
    exact absurd (start.phase idx) busy

theorem WindowOk.slotAlloc (ok : WindowOk live place s)
    (found : (kstackSlotAlloc s.slotmap).1 = (idx : Nat)) :
    WindowOk live place { s with
      slotmap := (kstackSlotAlloc s.slotmap).2
      phase := Function.update s.phase idx .reserved } := by
  obtain ⟨small, clear, after⟩ := kstackSlotAlloc_spec ok.length found
  have slots := slots_eq
  have inside : idx / 64 < s.slotmap.length := by
    rw [ok.length]
    omega
  have free : s.phase idx = .free := by
    by_contra busy
    rw [(ok.used idx small).mpr busy] at clear
    cases clear
  refine ⟨ok.twins, ok.bare, ok.clients, ?_, ok.guards, ?_, ?_, ?_⟩
  · intro other small' i low
    dsimp only
    rw [phase_update, ok.mapped other small' i low]
    split
    · rename_i same
      rw [same, free]
      exact iff_of_false (by decide) (by decide)
    · rfl
  · dsimp only
    rw [after, length_bitSet, ok.length]
  · intro other small'
    dsimp only
    rw [after, bitTest_bitSet inside, phase_update]
    by_cases same : other = idx
    · simp [same]
    · simp [same, ok.used other small']
  · intro other
    dsimp only
    rw [phase_update]
    split
    · rename_i same
      rw [same]
      exact fun _ => small
    · exact ok.inside other

theorem WindowOk.slotFree (ok : WindowOk live place s) (empty : s.phase idx = .empty) :
    WindowOk live place { s with
      slotmap := kstackSlotFree s.slotmap idx
      phase := Function.update s.phase idx .free } := by
  have small := ok.inside idx (by simp [empty])
  have slots := slots_eq
  have inside : idx / 64 < s.slotmap.length := by
    rw [ok.length]
    omega
  refine ⟨ok.twins, ok.bare, ok.clients, ?_, ok.guards, ?_, ?_, ?_⟩
  · intro other small' i low
    dsimp only
    rw [phase_update, ok.mapped other small' i low]
    split
    · rename_i same
      rw [same, empty]
      exact iff_of_false (by decide) (by decide)
    · rfl
  · unfold kstackSlotFree
    exact (length_bitClear _ _).trans ok.length
  · intro other small'
    dsimp only
    unfold kstackSlotFree
    rw [bitTest_bitClear inside, phase_update]
    by_cases same : other = idx
    · simp [same]
    · simp [same, ok.used other small']
  · intro other
    dsimp only
    rw [phase_update]
    split
    · exact fun busy => absurd rfl busy
    · exact ok.inside other

/-- The descriptors of a slot are the same in two states. -/
def SlotSame (idx : Nat) (memory memory' : Memory) : Prop :=
  ∀ j < KSTACK_SLOT_PAGES, stackPte memory' (slotPageVa idx j) = stackPte memory (slotPageVa idx j)

/-- A step keeps the window in order, and the descriptors of the slots that it is not about. -/
theorem WindowOk.next (ok : WindowOk live place s) (step : WindowStep s label t) :
    ∃ place', WindowOk live place' t ∧
      ∀ idx < KSTACK_NSLOTS, label ≠ some idx → SlotSame idx s.vm.memory t.vm.memory := by
  cases step with
  | full => exact ⟨place, ok, fun _ _ _ _ _ => rfl⟩
  | slotAlloc found => exact ⟨place, ok.slotAlloc found, fun _ _ _ _ _ => rfl⟩
  | slotFree empty => exact ⟨place, ok.slotFree empty, fun _ _ _ _ _ => rfl⟩
  | @alloc idx top vm reserved runs =>
      have small := ok.inside idx (by simp [reserved])
      have free : ∀ i < KSTACK_PAGES, place (stackSlot idx i) = none := by
        intro i low
        by_contra filled
        rw [(ok.mapped idx small i low).mp filled] at reserved
        cases reserved
      obtain ⟨-, place', stacked⟩ :=
        (kstackAlloc_twin ok.twins small ok.bare free).self.post_of_eq runs
      refine ⟨place', ok.stacked small (by simp [reserved]) (by split <;> decide) stacked ?_, ?_⟩
      · intro i _
        split
        · rename_i zero
          exact iff_of_false (not_not_intro zero) (by decide)
        · rename_i nonzero
          exact iff_of_true nonzero rfl
      · intro other small' notThis j low
        apply stacked.around.stackPte_eq ok.twins stacked.twins ?_ small' low
        rintro rfl
        exact notThis rfl
  | @release idx vm given runs =>
      have small := ok.inside idx (by simp [given])
      obtain ⟨place', stacked, -⟩ := (kstackFree_twin ok.twins small).self.post_of_eq runs
      refine ⟨place', ok.stacked small (by simp [given]) (by decide) stacked ?_, ?_⟩
      · exact fun i _ => iff_of_false id (by decide)
      · intro other small' notThis j low
        apply stacked.around.stackPte_eq ok.twins stacked.twins ?_ small' low
        rintro rfl
        exact notThis rfl
  | take bare runs =>
      obtain ⟨memory, place', ok'⟩ := ok.take bare runs
      refine ⟨place', ok', fun _ _ _ _ _ => ?_⟩
      dsimp only
      rw [memory]
  | give held runs =>
      obtain ⟨memory, place', ok'⟩ := ok.give held runs
      refine ⟨place', ok', fun _ _ _ _ _ => ?_⟩
      dsimp only
      rw [memory]
  | @write k page memory held others =>
      have ok' := ok.write held others
      refine ⟨place, ok', fun idx small _ j low => ?_⟩
      apply stackPte_kept ok.twins ok'.twins small low rfl
      intro q there
      refine ⟨there, wordAt_congr fun _ _ => others q _ ?_⟩
      rintro rfl
      cases ok.twins.ok.unique there ((ok.clients k).trans held)

theorem WindowOk.reachable (reached : Reachable WindowStart (fun s t => ∃ label, WindowStep s label t) s) :
    ∃ live place, WindowOk live place s := by
  refine reached.invariant (I := fun s => ∃ live place, WindowOk live place s) ?_ ?_
  · intro s start
    exact WindowOk.start start
  · rintro s t - ⟨live, place, ok⟩ ⟨label, step⟩
    obtain ⟨place', ok', -⟩ := ok.next step
    exact ⟨live, place', ok'⟩

/-- The guards are unmapped, a slot has all pages of its stack or none, and no two pages share a
frame. -/
structure WindowSound (s : WindowState) : Prop where
  guards : ∀ idx < KSTACK_NSLOTS, ∀ j < KSTACK_GUARD_PAGES,
    ¬ isValid (stackPte s.vm.memory (slotPageVa idx j))
  mapped : ∀ idx < KSTACK_NSLOTS, ∀ i < KSTACK_PAGES,
    isValid (stackPte s.vm.memory (kstackBaseVa idx + i * PGSIZE)) ↔ s.phase idx = .given
  distinct : ∀ idx < KSTACK_NSLOTS, ∀ i < KSTACK_PAGES, ∀ idx' < KSTACK_NSLOTS, ∀ i' < KSTACK_PAGES,
    s.phase idx = .given → s.phase idx' = .given →
    ptePage (stackPte s.vm.memory (kstackBaseVa idx + i * PGSIZE)) =
      ptePage (stackPte s.vm.memory (kstackBaseVa idx' + i' * PGSIZE)) → idx = idx' ∧ i = i'

/-- `kstack_alloc` and `kstack_free` come back. -/
structure WindowReturns (s : WindowState) : Prop where
  alloc : ∀ idx, s.phase idx = .reserved → ∃ top vm, kstackAlloc idx s.vm = .ok (top, vm)
  release : ∀ idx, s.phase idx = .given → ∃ vm, kstackFree idx s.vm = .ok ((), vm)

theorem WindowOk.entry (ok : WindowOk live place s) (small : idx < KSTACK_NSLOTS)
    (low : i < KSTACK_PAGES) : Entry (place (stackSlot idx i))
      (stackPte s.vm.memory (kstackBaseVa idx + i * PGSIZE)) := by
  rw [← slotPage_stack, ← slotPage_va]
  apply stackPte_entry ok.twins small
  unfold KSTACK_SLOT_PAGES
  omega

theorem WindowOk.sound (ok : WindowOk live place s) : WindowSound s := by
  refine ⟨?_, ?_, ?_⟩
  · intro idx small j low
    have entry := stackPte_entry (j := j) ok.twins small (by unfold KSTACK_SLOT_PAGES; omega)
    rw [ok.guards idx small j low] at entry
    exact fun valid => entry.isValid_iff.mp valid rfl
  · intro idx small i low
    rw [(ok.entry small low).isValid_iff, ok.mapped idx small i low]
  · intro idx small i low idx' small' i' low' given given' same
    obtain ⟨p, there⟩ := Option.ne_none_iff_exists'.mp ((ok.mapped idx small i low).mpr given)
    obtain ⟨p', there'⟩ := Option.ne_none_iff_exists'.mp ((ok.mapped idx' small' i' low').mpr given')
    have entry := ok.entry small low
    have entry' := ok.entry small' low'
    rw [there] at entry
    rw [there'] at entry'
    rw [entry.ptePage_eq (ok.twins.ok.direct_of_place there),
      entry'.ptePage_eq (ok.twins.ok.direct_of_place there')] at same
    subst same
    have unique := ok.twins.ok.unique there there'
    rw [← slotPage_stack, ← slotPage_stack] at unique
    obtain ⟨rfl, pages⟩ := slotPage_inj (by unfold KSTACK_SLOT_PAGES; omega)
      (by unfold KSTACK_SLOT_PAGES; omega) unique
    exact ⟨rfl, by omega⟩

theorem WindowOk.returns (ok : WindowOk live place s) : WindowReturns s := by
  constructor
  · intro idx reserved
    have small := ok.inside idx (by simp [reserved])
    have free : ∀ i < KSTACK_PAGES, place (stackSlot idx i) = none := by
      intro i low
      by_contra filled
      rw [(ok.mapped idx small i low).mp filled] at reserved
      cases reserved
    obtain ⟨top, vm, runs, -⟩ := (kstackAlloc_twin ok.twins small ok.bare free).self
    exact ⟨top, vm, runs⟩
  · intro idx given
    obtain ⟨_, vm, runs, -⟩ := (kstackFree_twin ok.twins (ok.inside idx (by simp [given]))).self
    exact ⟨vm, runs⟩

/-- In every reachable state the window is in order, and a step does not touch the slots that it
is not about. -/
theorem kstack_window_invariant
    (reached : Reachable WindowStart (fun s t => ∃ label, WindowStep s label t) s) :
    WindowSound s ∧ WindowReturns s ∧ ∀ label t, WindowStep s label t →
      ∀ idx < KSTACK_NSLOTS, label ≠ some idx → SlotSame idx s.vm.memory t.vm.memory := by
  obtain ⟨live, place, ok⟩ := WindowOk.reachable reached
  refine ⟨ok.sound, ok.returns, ?_⟩
  intro label t step
  obtain ⟨-, -, same⟩ := ok.next step
  exact same

theorem kstackSlotAlloc_zeros :
    (kstackSlotAlloc (List.replicate (KSTACK_NSLOTS / 64) 0)).1 = (0 : Nat) := by
  have covered : KSTACK_NSLOTS ≤ (List.replicate (KSTACK_NSLOTS / 64) (0 : BitVec 64)).length * 64 := by
    rw [List.length_replicate, slots_eq]
  unfold kstackSlotAlloc
  rcases bitFfc_spec _ KSTACK_NSLOTS covered with ⟨b, value, -, -, set⟩ | ⟨-, set⟩
  · obtain rfl : b = 0 := by
      by_contra positive
      have bit := set 0 (by omega)
      rw [bitTest_zeros] at bit
      cases bit
    rw [value]
    rfl
  · have bit := set 0 (by decide)
    rw [bitTest_zeros] at bit
    cases bit

/-- The window after boot. -/
def bootWindow (vm : VmState) : WindowState where
  vm := vm
  slotmap := List.replicate (KSTACK_NSLOTS / 64) 0
  phase _ := .free
  client _ := none

theorem bootWindow_start (twins : Twins live (fun _ => none) vm vm) : WindowStart (bootWindow vm) :=
  ⟨rfl, fun _ => rfl, live, fun _ => none, twins, rfl, fun _ _ => rfl, fun _ => rfl⟩

/-- The first slot is given a stack. -/
theorem kstack_window_given : ∃ s, s.phase 0 = .given ∧ WindowSound s ∧ WindowReturns s ∧
    ∀ label t, WindowStep s label t →
      ∀ idx < KSTACK_NSLOTS, label ≠ some idx → SlotSame idx s.vm.memory t.vm.memory := by
  have twins := Elf.bootState_twins (n := 8) (by decide)
  have enough : takePages (KSTACK_PAGES * 2) (Elf.bootState 8).kmem ≠ none :=
    takePages_ne_none twins.ok.pageLocks.kmem (by simp [Elf.bootState, kmemInit, KSTACK_PAGES])
  obtain ⟨top, vm, runs, nonzero, -⟩ :=
    (kstackAlloc_twin twins (by decide : 0 < KSTACK_NSLOTS) rfl fun _ _ => rfl).self
  generalize Elf.bootState 8 = boot at *
  obtain ⟨s, first, rfl, reserved⟩ : ∃ s, WindowStep (bootWindow boot) (some 0) s ∧ s.vm = boot ∧
      s.phase 0 = .reserved := by
    refine ⟨_, .slotAlloc kstackSlotAlloc_zeros, rfl, ?_⟩
    dsimp only
    rw [phase_update, if_pos rfl]
  have second := WindowStep.alloc reserved runs
  have reached : Reachable WindowStart (fun s t => ∃ label, WindowStep s label t) _ :=
    ((Reachable.start (bootWindow_start twins)).next ⟨_, first⟩).next ⟨_, second⟩
  refine ⟨_, ?_, kstack_window_invariant reached⟩
  dsimp only
  rw [if_neg (nonzero enough), phase_update, if_pos rfl]

end Pmap

end Av6
