import Av6.UserMemory

/-!
# The tables of one page table

A page table as a tree of tables alone.  What the descriptors of its last tables say is left
open, so that they may hold any address.  A walk that makes tables adds to the tree, and no
lookup sees it.
-/

namespace Av6

namespace Pmap

open FallibleState Kmem Exec

/-- The descriptor that is found for an address: 0 if a table is missing on the way. -/
def descriptor (memory : Memory) (root va : Nat) : Nat :=
  (lastTable memory va 3 0 root).elim 0 fun table => wordAt memory table (tableIndex va 3)

/-- The place of the table below an entry. -/
def below (root level above i : Nat) : Slot := .table root (level + 1) (above * TABLE_ENTRIES + i)

/-- The tables of a page table, as they are in memory. -/
structure TableTree (root : Nat) (memory : Memory) (place : Place) : Prop where
  rooted : place (.table root 0 0) = some root
  parent : ∀ level above i, level < 3 → i < TABLE_ENTRIES →
    place (below root level above i) ≠ none → place (.table root level above) ≠ none
  entry : ∀ level above i page, level < 3 → i < TABLE_ENTRIES →
    place (.table root level above) = some page →
      Entry (place (below root level above i)) (wordAt memory page i)

/-- Tables may have been added. -/
structure MoreTables (root : Nat) (place place' : Place) : Prop where
  keeps : ∀ slot p, place slot = some p → place' slot = some p
  only : ∀ slot, place' slot ≠ place slot → ∃ va < MAXUVA, OnPath root va slot

variable {s t : VmState} {live : CacheRef → Multiset Nat} {place place' place'' : Place}
  {memory : Memory} {root level left above i j page next last va a word : Nat}

theorem below_inj {level' above' : Nat} (small : i < TABLE_ENTRIES) (small' : j < TABLE_ENTRIES)
    (same : below root level' above' j = below root level above i) :
    level' = level ∧ above' = above ∧ j = i := by
  unfold below TABLE_ENTRIES at *
  simp only [Slot.table.injEq, true_and] at same
  omega

theorem below_path (low : level < 3) : pathSlot root va (level + 1) =
    below root level (va / 2 ^ (48 - 9 * level)) (tableIndex va level) := by
  unfold below pathSlot tableIndex ptShift TABLE_ENTRIES
  simp only [Slot.table.injEq, true_and]
  obtain rfl | rfl | rfl : level = 0 ∨ level = 1 ∨ level = 2 := by omega
  all_goals omega

theorem tableIndex_lt (va level : Nat) : tableIndex va level < TABLE_ENTRIES :=
  Nat.mod_lt _ (by decide)

/-- A page has one number: its last table, and the entry there. -/
theorem same_page_iff : pathSlot root a 3 = pathSlot root va 3 ∧ tableIndex a 3 = tableIndex va 3 ↔
    a / PGSIZE = va / PGSIZE := by
  unfold pathSlot tableIndex ptShift TABLE_ENTRIES PGSIZE
  simp only [Slot.table.injEq, true_and]
  omega

theorem Forest.tableTree (forest : Forest memory place)
    (rooted : place (.table root 0 0) = some root) : TableTree root memory place := by
  have hangs : ∀ {level above i}, level < 3 → i < TABLE_ENTRIES →
      Hangs (below root level above i) (.table root level above) i :=
    fun low small => ⟨small, root, _, .inl ⟨_, low, rfl, rfl⟩⟩
  constructor
  · exact rooted
  · intro level above i low small filled
    exact forest.parent _ _ _ (hangs low small) filled
  · intro level above i page low small there
    exact forest.entry _ _ _ _ (hangs low small) there

theorem MoreTables.refl (root : Nat) (place : Place) : MoreTables root place place :=
  ⟨fun _ _ => id, fun _ other => absurd rfl other⟩

theorem MoreTables.trans (first : MoreTables root place place')
    (second : MoreTables root place' place'') : MoreTables root place place'' := by
  constructor
  · intro slot p there
    exact second.keeps slot p (first.keeps slot p there)
  · intro slot other
    by_cases same : place' slot = place slot
    · rw [← same] at other
      exact second.only slot other
    · exact first.only slot same

namespace TableTree

theorem path_entry (tree : TableTree root memory place) (low : level < 3)
    (there : place (pathSlot root va level) = some page) :
    Entry (place (pathSlot root va (level + 1))) (wordAt memory page (tableIndex va level)) := by
  rw [below_path low]
  exact tree.entry _ _ _ _ low (tableIndex_lt va level) there

theorem path_none (tree : TableTree root memory place) (low : level < 3)
    (bare : place (pathSlot root va level) = none) :
    place (pathSlot root va (level + 1)) = none := by
  by_contra filled
  rw [below_path low] at filled
  exact tree.parent _ _ _ low (tableIndex_lt va level) filled bare

theorem last_none (tree : TableTree root memory place) (depth : level + left = 3)
    (bare : place (pathSlot root va level) = none) : place (pathSlot root va 3) = none := by
  induction left generalizing level with
  | zero =>
      obtain rfl : level = 3 := by omega
      exact bare
  | succ left ih =>
      have low : level < 3 := by omega
      exact ih (by omega) (tree.path_none low bare)

/-- The walk follows the places. -/
theorem lastTable_eq (tree : TableTree root memory place) (ok : VmOk s live place)
    (depth : level + left = 3) (there : place (pathSlot root va level) = some page) :
    lastTable memory va left level page = place (pathSlot root va 3) := by
  induction left generalizing level page with
  | zero =>
      obtain rfl : level = 3 := by omega
      exact there.symm
  | succ left ih =>
      have low : level < 3 := by omega
      have entry := tree.path_entry low there
      show (if isValid (wordAt memory page (tableIndex va level)) then lastTable memory va left
        (level + 1) (ptePage (wordAt memory page (tableIndex va level))) else none) = _
      cases filled : place (pathSlot root va (level + 1)) with
      | none =>
          rw [filled] at entry
          rw [if_neg fun valid => entry.isValid_iff.mp valid rfl]
          exact (tree.last_none (show level + 1 + left = 3 by omega) filled).symm
      | some next =>
          rw [filled] at entry
          rw [if_pos (entry.isValid_iff.mpr (Option.some_ne_none _)),
            entry.ptePage_eq (ok.direct_of_place filled)]
          exact ih (by omega) filled

theorem descriptor_eq (tree : TableTree root memory place) (ok : VmOk s live place)
    (small : va < MAXUVA) :
    descriptor memory root va =
      (place (pathSlot root va 3)).elim 0 fun table => wordAt memory table (tableIndex va 3) := by
  have rooted := tree.rooted
  rw [← pathSlot_zero small] at rooted
  unfold descriptor
  rw [tree.lastTable_eq ok (show 0 + 3 = 3 from rfl) rooted]

/-- A cleared page is hung below an empty entry. -/
theorem link (tree : TableTree root s.memory place) (ok : VmOk s live place) (low : level < 3)
    (small : i < TABLE_ENTRIES) (there : place (.table root level above) = some page)
    (bare : place (below root level above i) = none) (taken : Taken live place next s t) :
    TableTree root
      (setWord (zeroPage s.memory next) page i (kvaToPa next ||| PTE_VALID ||| PTE_TABLE))
      (Function.update place (below root level above i) (some next)) := by
  have direct : Direct next :=
    (taken.ok _ bare).direct_of_place (Function.update_self (below root level above i) _ _)
  have apart : next ≠ page := by
    rintro rfl
    exact taken.fresh _ there
  have old : ∀ {slot q}, place slot = some q → q ≠ next := by
    rintro slot q atSlot rfl
    exact taken.fresh slot atSlot
  constructor
  · rw [Function.update_of_ne]
    · exact tree.rooted
    · unfold below
      simp
  · intro level' above' j low' small' filled
    by_cases child : below root level' above' j = below root level above i
    · obtain ⟨rfl, rfl, rfl⟩ := below_inj small small' child
      rw [Function.update_of_ne (by simp [below]), there]
      exact Option.some_ne_none page
    · rw [Function.update_of_ne child] at filled
      have parent := tree.parent level' above' j low' small' filled
      rw [Function.update_of_ne]
      · exact parent
      · intro same
        rw [same] at parent
        exact parent bare
  · intro level' above' j q low' small' atUp
    by_cases grown : Slot.table root level' above' = below root level above i
    · -- the new table is empty
      rw [grown, Function.update_self] at atUp
      cases atUp
      have childless : place (below root level' above' j) = none := by
        by_contra filled
        apply tree.parent level' above' j low' small' filled
        rw [grown, bare]
      have other : below root level' above' j ≠ below root level above i := by
        rw [← grown]
        simp [below]
      rw [Function.update_of_ne other, childless, wordAt_setWord_of_ne (.inl apart)]
      exact wordAt_zeroPage small'
    · rw [Function.update_of_ne grown] at atUp
      by_cases here : q = page ∧ j = i
      · obtain ⟨rfl, rfl⟩ := here
        have same := ok.unique atUp there
        simp only [Slot.table.injEq, true_and] at same
        obtain ⟨rfl, rfl⟩ := same
        rw [Function.update_self, Nat.or_assoc, wordAt_setWord (entry_lt direct attributes_table)]
        exact ⟨_, attributes_table, rfl⟩
      · have other : below root level' above' j ≠ below root level above i := by
          intro child
          obtain ⟨rfl, rfl, rfl⟩ := below_inj small small' child
          rw [there] at atUp
          cases atUp
          exact here ⟨rfl, rfl⟩
        rw [Function.update_of_ne other, wordAt_setWord_of_ne (by tauto),
          wordAt_congr fun k _ => zeroPage_apply_of_ne (old atUp)]
        exact tree.entry level' above' j q low' small' atUp

/-- No lookup sees a table that has been hung in. -/
theorem descriptor_link (tree : TableTree root s.memory place) (ok : VmOk s live place)
    (low : level < 3) (small : i < TABLE_ENTRIES)
    (there : place (.table root level above) = some page)
    (bare : place (below root level above i) = none) (taken : Taken live place next s t)
    (lookup : a < MAXUVA) :
    descriptor (setWord (zeroPage s.memory next) page i (kvaToPa next ||| PTE_VALID ||| PTE_TABLE))
      root a = descriptor s.memory root a := by
  have apart : next ≠ page := by
    rintro rfl
    exact taken.fresh _ there
  rw [(tree.link ok low small there bare taken).descriptor_eq (taken.ok _ bare) lookup,
    tree.descriptor_eq ok lookup]
  by_cases grown : pathSlot root a 3 = below root level above i
  · rw [grown, Function.update_self, bare, Option.elim_some, Option.elim_none,
      wordAt_setWord_of_ne (.inl apart)]
    exact wordAt_zeroPage (tableIndex_lt a 3)
  · rw [Function.update_of_ne grown]
    cases filled : place (pathSlot root a 3) with
    | none => rw [Option.elim_none, Option.elim_none]
    | some q =>
        have upper : q ≠ page := by
          rintro rfl
          have same := ok.unique filled there
          simp only [pathSlot, Slot.table.injEq, true_and] at same
          omega
        have old : q ≠ next := by
          rintro rfl
          exact taken.fresh _ filled
        rw [Option.elim_some, Option.elim_some, wordAt_setWord_of_ne (.inl upper)]
        exact wordAt_congr fun k _ => zeroPage_apply_of_ne old

/-- `walk` with `alloc`, from a table on the way to the last one. -/
theorem walkLoop_yields (tree : TableTree root s.memory place) (ok : VmOk s live place)
    (small : va < MAXUVA) (depth : level + left = 3)
    (there : place (pathSlot root va level) = some page) :
    Yields (walkLoop va true left level page) s fun r t => ∃ place', VmOk t live place' ∧
      TableTree root t.memory place' ∧ MoreTables root place place' ∧
      (∀ a < MAXUVA, descriptor t.memory root a = descriptor s.memory root a) ∧
      ∀ last, r = some last → place' (pathSlot root va 3) = some last := by
  induction left generalizing level page place s with
  | zero =>
      obtain rfl : level = 3 := by omega
      apply Yields.ret
      refine ⟨place, ok, tree, .refl root place, fun _ _ => rfl, ?_⟩
      rintro last ⟨⟩
      exact there
  | succ left ih =>
      have low : level < 3 := by omega
      have entry := tree.path_entry low there
      apply Yields.read_bind
      show Yields (if isValid (wordAt s.memory page (tableIndex va level)) then _ else _) s _
      cases filled : place (pathSlot root va (level + 1)) with
      | some next =>
          rw [filled] at entry
          rw [if_pos (entry.isValid_iff.mpr (Option.some_ne_none _)),
            entry.ptePage_eq (ok.direct_of_place filled)]
          exact ih tree ok (by omega) filled
      | none =>
          rw [filled] at entry
          rw [if_neg fun valid => entry.isValid_iff.mp valid rfl, if_pos rfl]
          apply Yields.bind (ptalloc_twin ok rfl).self
          rintro r t ⟨-, ⟨rfl, memory, -, dry⟩ | ⟨next, rfl, memory, -, taken⟩⟩
          · apply Yields.ret
            rw [memory]
            exact ⟨place, dry.ok, tree, .refl root place, fun _ _ => rfl, by rintro _ ⟨⟩⟩
          · have bare := filled
            rw [below_path low] at bare
            have index := tableIndex_lt va level
            have linked := tree.link ok low index there bare taken
            have unseen := fun a => tree.descriptor_link (a := a) ok low index there bare taken
            apply Yields.update_bind
            rw [← memory, ← below_path low] at linked
            rw [← memory] at unseen
            apply (ih linked ((taken.ok _ filled).setMemory _) (by omega)
              (Function.update_self ..)).mono
            rintro r u ⟨place', ok', tree', more, lookups, outcome⟩
            refine ⟨place', ok', tree', .trans ⟨?_, ?_⟩ more, ?_, outcome⟩
            · intro slot p atSlot
              rw [Function.update_of_ne]
              · exact atSlot
              · rintro rfl
                rw [filled] at atSlot
                cases atSlot
            · intro slot other
              by_cases same : slot = pathSlot root va (level + 1)
              · exact ⟨va, small, level + 1, by omega, same⟩
              · rw [Function.update_of_ne same] at other
                exact absurd rfl other
            · intro a lookup
              rw [lookups a lookup]
              exact unseen a lookup

/-- A descriptor of a last table is rewritten. -/
theorem setLast (tree : TableTree root memory place) (ok : VmOk s live place)
    (there : place (pathSlot root va 3) = some last) :
    TableTree root (setWord memory last i word) place := by
  constructor
  · exact tree.rooted
  · exact tree.parent
  · intro level above j q low small atUp
    have inner : q ≠ last := by
      rintro rfl
      have same := ok.unique atUp there
      simp only [pathSlot, Slot.table.injEq, true_and] at same
      omega
    rw [wordAt_setWord_of_ne (.inl inner)]
    exact tree.entry level above j q low small atUp

/-- Distinct pages have distinct descriptors. -/
theorem descriptor_setLast (tree : TableTree root memory place) (ok : VmOk s live place)
    (there : place (pathSlot root va 3) = some last) (lookup : a < MAXUVA) :
    descriptor (setWord memory last (tableIndex va 3) word) root a =
      if a / PGSIZE = va / PGSIZE then word % 2 ^ 64 else descriptor memory root a := by
  rw [(tree.setLast ok there).descriptor_eq ok lookup, tree.descriptor_eq ok lookup]
  by_cases same : a / PGSIZE = va / PGSIZE
  · obtain ⟨slot, index⟩ := (@same_page_iff root va a).mpr same
    rw [if_pos same, slot, index, there, Option.elim_some, wordAt_setWord_mod]
  · rw [if_neg same]
    cases filled : place (pathSlot root a 3) with
    | none => rw [Option.elim_none, Option.elim_none]
    | some q =>
        rw [Option.elim_some, Option.elim_some]
        apply wordAt_setWord_of_ne
        by_contra both
        obtain ⟨rfl, index⟩ : q = last ∧ tableIndex a 3 = tableIndex va 3 := by tauto
        exact same (same_page_iff.mp ⟨ok.unique filled there, index⟩)

end TableTree

end Pmap

end Av6
