import Av6.ExecLimits

/-!
# Unmapping is exact

`uvmunmap_range` of a page table takes just the pages of the range out of it, and just the
tables below the root that it passes and that have no entry left.
-/

namespace Av6

namespace Pmap

open FallibleState Kmem Exec

variable {s t : VmState} {live : CacheRef → Multiset Nat} {place place' : Place} {slot : Slot}
  {root vaStart vaEnd p v : Nat} {freed : List Nat}

/-- A table has no entry but 0. -/
def Clear (memory : Memory) (page : Nat) : Prop := ∀ i < TABLE_ENTRIES, wordAt memory page i = 0

/-- The page is one that unmapping a range gives back: a page of the range, or a table below the
root that the range meets and that has become empty. -/
def GivenBack (root vaStart vaEnd : Nat) (place : Place) (memory : Memory) (p : Nat) : Prop :=
  (∃ va, vaStart ≤ va ∧ va < vaEnd ∧ place (leafSlot root va) = some p) ∨
    ∃ level above, 0 < level ∧ place (.table root level above) = some p ∧
      Meets level above vaStart vaEnd ∧ Clear memory p

/-- The range has been taken out of the page table, and nothing else. -/
structure Unmapped (root vaStart vaEnd : Nat) (live : CacheRef → Multiset Nat)
    (place place' : Place) (s t : VmState) : Prop where
  tree : UserTree root live place' t
  inside : ∀ va, vaStart ≤ va → va < vaEnd → translate t.memory root va = none
  outside : ∀ va, ¬ (vaStart ≤ va ∧ va < vaEnd) →
    translate t.memory root va = translate s.memory root va
  tables : ∀ level above q, 0 < level → place (.table root level above) = some q →
    (place' (.table root level above) = none ↔ Meets level above vaStart vaEnd ∧ Clear t.memory q)
  entries : ∀ slot up i q, Hangs slot up i → place up = some q → place slot ≠ none →
    place' slot = none → wordAt t.memory q i = 0
  freed : ∃ freed, t.kmem.freelist = freed ++ s.kmem.freelist ∧ t.kmem.freelist.Nodup ∧
    root ∉ freed ∧ ∀ p, p ∈ freed ↔ GivenBack root vaStart vaEnd place t.memory p

theorem free_nodup (tree : UserTree root live place s) : s.kmem.freelist.Nodup := by
  obtain ⟨whole, kmem, -⟩ := tree.twins.ok.accounts
  exact kmem.slabs.pages.free_nodup

/-- The places in the way of a range. -/
theorem under_table {level above : Nat} (tree : UserTree root live place s) (low : 0 < level)
    (filled : place (.table root level above) ≠ none) :
    Under root 0 0 (.table root level above) := by
  refine ⟨tree.twins.forest.below_root rfl filled, ?_⟩
  intro same
  rw [node_table (by omega)] at same
  cases same
  omega

theorem under_leaf (tree : UserTree root live place s) (filled : place (.leaf root v) ≠ none) :
    Under root 0 0 (.leaf root v) :=
  ⟨tree.twins.forest.below_root rfl filled, by rintro ⟨⟩⟩

section

variable (tree : UserTree root live place s) (aligned : vaStart % PGSIZE = 0)
  (aligned' : vaEnd % PGSIZE = 0)
  (swept : Swept root (Under root 0 0) (TablesBelow place root 0 0) vaStart vaEnd live
    place place' s s t t)
include tree swept

theorem Swept.after : UserTree root live place' t := by
  refine ⟨swept.twins, ?_⟩
  have kept := swept.frame (.table root 0 0) fun under => under.2 (node_table (by omega)).symm
  exact kept.trans tree.rooted

include aligned aligned' in
/-- The leaf of an address stays, unless the address is in the range. -/
theorem Swept.leafSlot_eq (va : Nat) : place' (leafSlot root va) =
    if vaStart ≤ va ∧ va < vaEnd then none else place (leafSlot root va) := by
  have inRange : vaStart ≤ va / PGSIZE * PGSIZE ∧ va / PGSIZE * PGSIZE < vaEnd ↔
      vaStart ≤ va ∧ va < vaEnd := by
    unfold PGSIZE at *
    omega
  by_cases filled : place (leafSlot root va) = none
  · have bare : place' (leafSlot root va) = none := by
      by_contra filled'
      obtain ⟨p, there⟩ := Option.ne_none_iff_exists'.mp filled'
      rw [swept.fewer _ _ there] at filled
      cases filled
    rw [bare, filled, ite_self]
  · have leaf := swept.leaves (va / PGSIZE) (under_leaf tree filled)
    simp only [inRange] at leaf
    exact leaf

theorem Swept.tables_iff {level above q : Nat} (low : 0 < level)
    (there : place (.table root level above) = some q) :
    place' (.table root level above) = none ↔ Meets level above vaStart vaEnd ∧ Clear t.memory q :=
  swept.tables level above q (under_table tree low (by simp [there])) there

omit tree in
/-- A place that has been emptied is below the root. -/
theorem Swept.under (there : place slot = some p) (gone : place' slot = none) :
    Under root 0 0 slot := by
  by_contra outside
  rw [swept.frame _ outside, there] at gone
  cases gone

include aligned aligned' in
theorem Swept.givenBack_iff (p : Nat) : (∃ slot, place slot = some p ∧ place' slot = none) ↔
    GivenBack root vaStart vaEnd place t.memory p := by
  constructor
  · rintro ⟨slot, there, gone⟩
    have under := swept.under there gone
    cases slot with
    | table r level above =>
        obtain rfl : r = root := under.1.1
        have low : 0 < level := by
          by_contra zero
          obtain rfl : level = 0 := by omega
          obtain ⟨rfl, -⟩ := tree.twins.forest.root _ _ _ there
          exact under.2 (node_table (by omega)).symm
        exact .inr ⟨level, above, low, there, (swept.tables_iff tree low there).mp gone⟩
    | leaf r v =>
        obtain rfl : r = root := under.1.1
        have leaf := swept.leaves v under
        have number : v * PGSIZE / PGSIZE = v := Nat.mul_div_cancel v (by decide)
        by_cases inside : vaStart ≤ v * PGSIZE ∧ v * PGSIZE < vaEnd
        · refine .inl ⟨v * PGSIZE, inside.1, inside.2, ?_⟩
          unfold leafSlot
          rw [number, there]
        · rw [if_neg inside, there, gone] at leaf
          cases leaf
    | stackTable | stack | hand | client => exact under.1.elim
  · rintro (⟨va, above, below, there⟩ | ⟨level, above, low, there, empty⟩)
    · refine ⟨_, there, ?_⟩
      rw [swept.leafSlot_eq tree aligned aligned', if_pos ⟨above, below⟩]
    · exact ⟨_, there, (swept.tables_iff tree low there).mpr empty⟩

/-- The entry above a place that has been emptied is 0. -/
theorem Swept.entry_zero {up : Slot} {i q : Nat} (hangs : Hangs slot up i) (there : place up = some q)
    (filled : place slot ≠ none) (gone : place' slot = none) : wordAt t.memory q i = 0 := by
  cases kept : place' up with
  | some q' =>
      have same := swept.fewer _ _ kept
      rw [there] at same
      cases same
      have entry := swept.twins.forest.entry _ _ _ _ hangs kept
      rwa [gone] at entry
  | none =>
      obtain ⟨p, atSlot⟩ := Option.ne_none_iff_exists'.mp filled
      have under := swept.under there kept
      obtain ⟨small, r, above, ⟨level, -, rfl, -⟩ | ⟨rfl, -⟩ | ⟨rfl, -⟩⟩ := hangs
      · obtain rfl : r = root := under.1.1
        exact ((swept.tables _ _ _ under there).mp kept).2 i small
      · obtain rfl : r = root := under.1.1
        exact ((swept.tables _ _ _ under there).mp kept).2 i small
      · exact under.1.elim

include aligned aligned' in
theorem Swept.unmapped (small : vaEnd ≤ MAXUVA) :
    Unmapped root vaStart vaEnd live place place' s t := by
  have tree' := swept.after tree
  obtain ⟨freed, list, members⟩ := swept.released
  refine ⟨tree', ?_, ?_, ?_, ?_, freed, list, free_nodup tree', ?_, ?_⟩
  · intro va above below
    rw [translate_eq_none_iff tree'.twins tree'.rooted (by omega),
      swept.leafSlot_eq tree aligned aligned', if_pos ⟨above, below⟩]
  · intro va notInside
    apply translate_kept tree.twins tree'.twins tree.rooted tree'.rooted ?_ swept.words
    · rw [swept.leafSlot_eq tree aligned aligned', if_neg notInside]
    · intro slot _ filled
      obtain ⟨q, there⟩ := Option.ne_none_iff_exists'.mp filled
      rw [there, swept.fewer _ _ there]
  · intro level above q low there
    exact swept.tables_iff tree low there
  · intro slot up i q hangs there filled gone
    exact swept.entry_zero tree hangs there filled gone
  · intro member
    obtain ⟨slot, there, gone⟩ := (members root).mp member
    rw [tree.twins.ok.unique there tree.rooted, tree'.rooted] at gone
    cases gone
  · intro p
    rw [members, swept.givenBack_iff tree aligned aligned']

end

/-- `uvmunmap_range` of whole pages of a page table. -/
theorem uvmunmapRange_exact (tree : UserTree root live place s) (aligned : vaStart % PGSIZE = 0)
    (aligned' : vaEnd % PGSIZE = 0) (small : vaEnd ≤ MAXUVA) :
    ∃ t place', uvmunmapRange 3 root vaStart vaEnd s = .ok ((), t) ∧
      Unmapped root vaStart vaEnd live place place' s t := by
  obtain ⟨_, t, runs, place', swept⟩ :=
    (uvmunmapRange_twin tree.twins tree.rooted small).self
  exact ⟨t, place', runs, swept.unmapped tree aligned aligned' small⟩

/-- The one page of an address space is unmapped. -/
theorem unmapped_page : ∃ root live place vm t place',
    uvmunmapRange 3 root 0x1000 0x2000 vm = .ok ((), t) ∧
      Unmapped root 0x1000 0x2000 live place place' vm t := by
  obtain ⟨live, place, root, page, vm, caller, -, -, -⟩ := exists_caller_page (n := 1) (fun _ => 1)
    (by decide)
  obtain ⟨t, place', runs, unmapped⟩ := uvmunmapRange_exact ⟨caller.twins, caller.rooted⟩
    (by decide : 0x1000 % PGSIZE = 0) (by decide : 0x2000 % PGSIZE = 0) (by decide)
  exact ⟨root, live, place, vm, t, place', runs, unmapped⟩

end Pmap

end Av6
