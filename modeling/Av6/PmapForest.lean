import Av6.PmapPages

/-!
# The trees of tables

The user page tables are a forest: an entry of a table says which page is in the place below
it, and nothing is placed below an empty entry.
-/

namespace Av6

namespace Pmap

open FallibleState Kmem

variable {memory memory' : Memory} {place place' : Place} {slot slot' up up' : Slot}
  {i j page root va level : Nat}

/-- An entry is empty, or it is valid and holds the address of the page. -/
def Entry : Option Nat → Nat → Prop
  | none, word => word = 0
  | some p, word => ∃ flags, Attributes flags ∧ word = kvaToPa p ||| flags

/-- The place `slot` is the one that entry `i` of the table in the place `up` is about. -/
def Hangs (slot up : Slot) (i : Nat) : Prop :=
  i < TABLE_ENTRIES ∧ ∃ root above,
    (∃ level < 3, up = .table root level above ∧
      slot = .table root (level + 1) (above * TABLE_ENTRIES + i)) ∨
    (up = .table root 3 above ∧ slot = .leaf root (above * TABLE_ENTRIES + i)) ∨
    (up = .stackTable above ∧ slot = .stack above i)

theorem Hangs.up_unique (hangs : Hangs slot up i) (hangs' : Hangs slot up' j) :
    up = up' ∧ i = j := by
  obtain ⟨small, root, above, ⟨level, -, rfl, rfl⟩ | ⟨rfl, rfl⟩ | ⟨rfl, rfl⟩⟩ := hangs <;>
  obtain ⟨small', root', above', ⟨level', -, rfl, same⟩ | ⟨rfl, same⟩ | ⟨rfl, same⟩⟩ := hangs' <;>
  simp only [Slot.table.injEq, Slot.leaf.injEq, Slot.stack.injEq, reduceCtorEq, true_and] at same ⊢
  · unfold TABLE_ENTRIES at *
    omega
  · unfold TABLE_ENTRIES at *
    omega
  · obtain ⟨rfl, rfl⟩ := same
    exact ⟨rfl, rfl⟩

theorem Hangs.slot_unique (hangs : Hangs slot up i) (hangs' : Hangs slot' up i) :
    slot = slot' := by
  obtain ⟨-, root, above, ⟨level, low, rfl, rfl⟩ | ⟨rfl, rfl⟩ | ⟨rfl, rfl⟩⟩ := hangs <;>
  obtain ⟨-, root', above', ⟨level', low', same, rfl⟩ | ⟨same, rfl⟩ | ⟨same, rfl⟩⟩ := hangs' <;>
  simp only [Slot.table.injEq, Slot.stackTable.injEq, reduceCtorEq] at same
  · obtain ⟨rfl, rfl, rfl⟩ := same
    rfl
  · omega
  · omega
  · obtain ⟨rfl, -, rfl⟩ := same
    rfl
  · obtain rfl := same
    rfl

theorem Hangs.known_up (hangs : Hangs slot up i) : up.Known := by
  obtain ⟨-, root, above, ⟨level, -, rfl, -⟩ | ⟨rfl, -⟩ | ⟨rfl, -⟩⟩ := hangs <;> exact trivial

theorem Hangs.mapped_up (hangs : Hangs slot up i) : up.Mapped := hangs.known_up.mapped

theorem Hangs.mapped (hangs : Hangs slot up i) : slot.Mapped := by
  obtain ⟨-, root, above, ⟨level, -, -, rfl⟩ | ⟨-, rfl⟩ | ⟨-, rfl⟩⟩ := hangs <;> exact trivial

theorem Hangs.ne (hangs : Hangs slot up i) : up ≠ slot := by
  obtain ⟨-, root, above, ⟨level, -, rfl, rfl⟩ | ⟨rfl, rfl⟩ | ⟨rfl, rfl⟩⟩ := hangs <;>
  · intro same
    simp at same

/-- The places where trees are rooted: the user page tables, and the entries of `l2_kstack`. -/
theorem Hangs.not_root (hangs : Hangs slot up i) :
    (∀ root above, slot ≠ .table root 0 above) ∧ ∀ i, slot ≠ .stackTable i := by
  obtain ⟨-, root, above, ⟨level, -, -, rfl⟩ | ⟨-, rfl⟩ | ⟨-, rfl⟩⟩ := hangs <;> simp

/-- The page tables in memory are the placed trees. -/
structure Forest (memory : Memory) (place : Place) : Prop where
  root : ∀ root above p, place (.table root 0 above) = some p → above = 0 ∧ p = root
  level : ∀ root level above, place (.table root level above) ≠ none → level ≤ 3
  stackTable : ∀ i, place (.stackTable i) ≠ none → i < TABLE_ENTRIES
  stack : ∀ i j, place (.stack i j) ≠ none → j < TABLE_ENTRIES
  parent : ∀ slot up i, Hangs slot up i → place slot ≠ none → place up ≠ none
  entry : ∀ slot up i page, Hangs slot up i → place up = some page →
    Entry (place slot) (wordAt memory page i)
  window : ∀ i < TABLE_ENTRIES, Entry (place (.stackTable i)) (wordAt memory L2_KSTACK i)

theorem Forest.frame (forest : Forest memory place)
    (words : ∀ slot up i page, Hangs slot up i → place up = some page →
      wordAt memory' page i = wordAt memory page i)
    (window : ∀ i < TABLE_ENTRIES, wordAt memory' L2_KSTACK i = wordAt memory L2_KSTACK i)
    (same : ∀ slot : Slot, slot.Mapped → place' slot = place slot) : Forest memory' place' := by
  refine ⟨?_, ?_, ?_, ?_, ?_, ?_, ?_⟩
  · intro root above p there
    rw [same (.table root 0 above) trivial] at there
    exact forest.root root above p there
  · intro root level above there
    rw [same (.table root level above) trivial] at there
    exact forest.level root level above there
  · intro i there
    rw [same (.stackTable i) trivial] at there
    exact forest.stackTable i there
  · intro i j there
    rw [same (.stack i j) trivial] at there
    exact forest.stack i j there
  · intro slot up i hangs there
    rw [same slot hangs.mapped] at there
    rw [same up hangs.mapped_up]
    exact forest.parent slot up i hangs there
  · intro slot up i page hangs there
    rw [same up hangs.mapped_up] at there
    rw [same slot hangs.mapped, words slot up i page hangs there]
    exact forest.entry slot up i page hangs there
  · intro i small
    rw [same (.stackTable i) trivial, window i small]
    exact forest.window i small

/-- One entry is rewritten, and the place below it is filled or emptied. -/
theorem Forest.relink {o : Option Nat} (forest : Forest memory place)
    (unique : ∀ slot slot' p, place slot = some p → place slot' = some p → slot = slot')
    (hangs : Hangs slot up i) (there : place up = some page)
    (entry : Entry o (wordAt memory' page i))
    (others : ∀ slot' up' j q, Hangs slot' up' j → place up' = some q → (q ≠ page ∨ j ≠ i) →
      up' ≠ slot → wordAt memory' q j = wordAt memory q j)
    (window : ∀ i < TABLE_ENTRIES, wordAt memory' L2_KSTACK i = wordAt memory L2_KSTACK i)
    (childless : ∀ child j, Hangs child slot j → place child = none)
    (clear : ∀ child j next, Hangs child slot j → o = some next → wordAt memory' next j = 0) :
    Forest memory' (Function.update place slot o) := by
  refine ⟨?_, ?_, ?_, ?_, ?_, ?_, ?_⟩
  · intro root above p atRoot
    rw [Function.update_of_ne (hangs.not_root.1 root above).symm] at atRoot
    exact forest.root root above p atRoot
  · intro root level above filled
    by_cases same : Slot.table root level above = slot
    · subst same
      obtain ⟨-, _, _, ⟨_, low, -, same⟩ | ⟨-, same⟩ | ⟨-, same⟩⟩ := hangs <;>
      simp only [Slot.table.injEq, reduceCtorEq] at same
      omega
    · rw [Function.update_of_ne same] at filled
      exact forest.level root level above filled
  · intro j filled
    rw [Function.update_of_ne (hangs.not_root.2 j).symm] at filled
    exact forest.stackTable j filled
  · intro j k filled
    by_cases same : Slot.stack j k = slot
    · subst same
      obtain ⟨small, _, _, ⟨_, -, -, same⟩ | ⟨-, same⟩ | ⟨-, same⟩⟩ := hangs <;>
      simp only [Slot.stack.injEq, reduceCtorEq] at same
      omega
    · rw [Function.update_of_ne same] at filled
      exact forest.stack j k filled
  · intro slot' up' j hangs' filled
    by_cases same : slot' = slot
    · subst same
      obtain ⟨rfl, rfl⟩ := hangs.up_unique hangs'
      rw [Function.update_of_ne hangs.ne, there]
      exact Option.some_ne_none _
    · rw [Function.update_of_ne same] at filled
      by_cases parent : up' = slot
      · subst parent
        exact absurd (childless slot' j hangs') filled
      · rw [Function.update_of_ne parent]
        exact forest.parent slot' up' j hangs' filled
  · intro slot' up' j q hangs' atUp
    by_cases parent : up' = slot
    · subst parent
      rw [Function.update_self] at atUp
      rw [Function.update_of_ne hangs'.ne.symm, childless slot' j hangs']
      exact clear slot' j q hangs' atUp
    · rw [Function.update_of_ne parent] at atUp
      by_cases here : q = page ∧ j = i
      · obtain ⟨rfl, rfl⟩ := here
        have sameUp := unique up' up q atUp there
        subst sameUp
        rw [hangs'.slot_unique hangs, Function.update_self]
        exact entry
      · have other : slot' ≠ slot := by
          rintro rfl
          obtain ⟨rfl, rfl⟩ := hangs.up_unique hangs'
          rw [there] at atUp
          cases atUp
          exact here ⟨rfl, rfl⟩
        rw [Function.update_of_ne other, others slot' up' j q hangs' atUp (by tauto) parent]
        exact forest.entry slot' up' j q hangs' atUp
  · intro j small
    rw [Function.update_of_ne (hangs.not_root.2 j).symm, window j small]
    exact forest.window j small

/-- A cleared page becomes the root of an empty tree. -/
theorem Forest.plant (forest : Forest memory place) (bare : place (.table root 0 0) = none)
    (clear : ∀ i < TABLE_ENTRIES, wordAt memory' root i = 0)
    (others : ∀ slot up i q, Hangs slot up i → place up = some q →
      wordAt memory' q i = wordAt memory q i)
    (window : ∀ i < TABLE_ENTRIES, wordAt memory' L2_KSTACK i = wordAt memory L2_KSTACK i) :
    Forest memory' (Function.update place (.table root 0 0) (some root)) := by
  refine ⟨?_, ?_, ?_, ?_, ?_, ?_, ?_⟩
  · intro root' above p atRoot
    by_cases same : Slot.table root' 0 above = .table root 0 0
    · rw [same, Function.update_self] at atRoot
      simp only [Slot.table.injEq] at same
      cases atRoot
      exact ⟨same.2.2, same.1.symm⟩
    · rw [Function.update_of_ne same] at atRoot
      exact forest.root root' above p atRoot
  · intro root' level above filled
    by_cases same : Slot.table root' level above = .table root 0 0
    · simp only [Slot.table.injEq] at same
      omega
    · rw [Function.update_of_ne same] at filled
      exact forest.level root' level above filled
  · intro i filled
    rw [Function.update_of_ne (by simp)] at filled
    exact forest.stackTable i filled
  · intro i j filled
    rw [Function.update_of_ne (by simp)] at filled
    exact forest.stack i j filled
  · intro slot up i hangs filled
    rw [Function.update_of_ne (hangs.not_root.1 root 0)] at filled
    by_cases same : up = .table root 0 0
    · rw [same, Function.update_self]
      exact Option.some_ne_none _
    · rw [Function.update_of_ne same]
      exact forest.parent slot up i hangs filled
  · intro slot up i q hangs atUp
    rw [Function.update_of_ne (hangs.not_root.1 root 0)]
    by_cases same : up = .table root 0 0
    · have bareBelow : place slot = none := by
        by_contra filled
        exact forest.parent slot up i hangs filled (by rw [same, bare])
      rw [same, Function.update_self] at atUp
      cases atUp
      rw [bareBelow]
      exact clear i hangs.1
    · rw [Function.update_of_ne same] at atUp
      rw [others slot up i q hangs atUp]
      exact forest.entry slot up i q hangs atUp
  · intro i small
    rw [Function.update_of_ne (by simp), window i small]
    exact forest.window i small

/-- The entries of the places that are filled before and after are the same. -/
def EntriesKept (place place' : Place) (memory memory' : Memory) : Prop :=
  ∀ slot up i page, Hangs slot up i → place up = some page → place slot ≠ none →
    place' slot ≠ none → wordAt memory' page i = wordAt memory page i

theorem EntriesKept.trans {place₁ place₂ place₃ : Place} {m₁ m₂ m₃ : Memory}
    (first : EntriesKept place₁ place₂ m₁ m₂) (second : EntriesKept place₂ place₃ m₂ m₃)
    (forest : Forest m₃ place₃)
    (between : ∀ slot, place₁ slot ≠ none → place₃ slot ≠ none → place₂ slot = place₁ slot) :
    EntriesKept place₁ place₃ m₁ m₃ := by
  intro slot up i page hangs atUp before after
  have same := between slot before after
  have filled : place₂ slot ≠ none := by rwa [same]
  have atUp' : place₂ up = some page := by
    rw [between up (by simp [atUp]) (forest.parent slot up i hangs after), atUp]
  rw [second slot up i page hangs atUp' filled after, first slot up i page hangs atUp before filled]

theorem Entry.isValid_iff {o : Option Nat} {word : Nat} (entry : Entry o word) :
    isValid word ↔ o ≠ none := by
  cases o with
  | none =>
      rw [entry]
      exact iff_of_false not_isValid_zero (by simp)
  | some p =>
      obtain ⟨flags, attributes, rfl⟩ := entry
      exact iff_of_true (isValid_entry attributes) (by simp)

/-- The entry of a place that has not changed, filled or not, is the same. -/
theorem EntriesKept.word_eq (kept : EntriesKept place place' memory memory')
    (forest : Forest memory place) (forest' : Forest memory' place') (hangs : Hangs slot up i)
    (atUp : place up = some page) (atUp' : place' up = some page) (same : place' slot = place slot) :
    wordAt memory' page i = wordAt memory page i := by
  by_cases bare : place slot = none
  · have entry := forest.entry slot up i page hangs atUp
    have entry' := forest'.entry slot up i page hangs atUp'
    rw [same, bare] at entry'
    rw [bare] at entry
    exact entry'.trans entry.symm
  · exact kept slot up i page hangs atUp bare (by rwa [same])

theorem Entry.ptePage_eq {word p : Nat} (entry : Entry (some p) word) (direct : Direct p) :
    ptePage word = p := by
  obtain ⟨flags, attributes, rfl⟩ := entry
  exact ptePage_entry direct attributes

/-- The table at a level, on the way to an address. -/
def pathSlot (root va level : Nat) : Slot := .table root level (va / 2 ^ (48 - 9 * level))

def leafSlot (root va : Nat) : Slot := .leaf root (va / PGSIZE)

theorem pathSlot_zero (small : va < MAXUVA) : pathSlot root va 0 = .table root 0 0 := by
  unfold pathSlot
  unfold MAXUVA at small
  rw [Nat.mul_zero, Nat.sub_zero, Nat.div_eq_of_lt small]

theorem hangs_path (low : level < 3) :
    Hangs (pathSlot root va (level + 1)) (pathSlot root va level) (tableIndex va level) := by
  refine ⟨Nat.mod_lt _ (by decide), root, va / 2 ^ (48 - 9 * level), .inl ⟨level, low, rfl, ?_⟩⟩
  unfold pathSlot tableIndex ptShift TABLE_ENTRIES
  simp only [Slot.table.injEq, true_and]
  obtain rfl | rfl | rfl : level = 0 ∨ level = 1 ∨ level = 2 := by omega
  all_goals omega

theorem hangs_leaf (root va : Nat) :
    Hangs (leafSlot root va) (pathSlot root va 3) (tableIndex va 3) := by
  refine ⟨Nat.mod_lt _ (by decide), root, va / 2 ^ 21, .inr (.inl ⟨rfl, ?_⟩)⟩
  unfold leafSlot tableIndex ptShift TABLE_ENTRIES PGSIZE
  simp only [Slot.leaf.injEq, true_and]
  omega

end Pmap

end Av6
