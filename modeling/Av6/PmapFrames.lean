import Av6.PmapFree

/-!
# The pages of the trees

Where the page of a place is found from the root, by way of the tables in memory alone.  For the
trees of a forest it is the page that is placed there.
-/

namespace Av6

namespace Pmap

open FallibleState Kmem

/-- The page that an entry leads to. -/
def entryFrame (word : Nat) : Option Nat := if isValid word then some (ptePage word) else none

/-- The table at a level of a page table, for the part of the address above it. -/
def tableFrame (memory : Memory) (root : Nat) : Nat → Nat → Option Nat
  | 0, above => if above = 0 then some root else none
  | level + 1, above =>
      (tableFrame memory root level (above / TABLE_ENTRIES)).bind fun table =>
        entryFrame (wordAt memory table (above % TABLE_ENTRIES))

/-- The page of a place, as the tables in memory lead to it. -/
def frameAt (memory : Memory) : Slot → Option Nat
  | .table root level above => if level ≤ 3 then tableFrame memory root level above else none
  | .leaf root vpn =>
      (tableFrame memory root 3 (vpn / TABLE_ENTRIES)).bind fun table =>
        entryFrame (wordAt memory table (vpn % TABLE_ENTRIES))
  | .stackTable i => if i < TABLE_ENTRIES then entryFrame (wordAt memory L2_KSTACK i) else none
  | .stack i j =>
      if i < TABLE_ENTRIES ∧ j < TABLE_ENTRIES then
        (entryFrame (wordAt memory L2_KSTACK i)).bind fun table => entryFrame (wordAt memory table j)
      else none
  | .hand _ => none
  | .client _ => none

variable {memory : Memory} {place : Place} {slot up : Slot} {root level above i page : Nat}

theorem entryFrame_of_valid {word : Nat} (valid : isValid word) :
    entryFrame word = some (ptePage word) :=
  if_pos valid

theorem entryFrame_of_invalid {word : Nat} (invalid : ¬ isValid word) : entryFrame word = none :=
  if_neg invalid

theorem entryFrame_none {word : Nat} (entry : Entry none word) : entryFrame word = none :=
  entryFrame_of_invalid fun valid => entry.isValid_iff.mp valid rfl

theorem entryFrame_some {p word : Nat} (entry : Entry (some p) word) (direct : Direct p) :
    entryFrame word = some p := by
  rw [entryFrame_of_valid (entry.isValid_iff.mpr (Option.some_ne_none p)), entry.ptePage_eq direct]

theorem entryFrame_of_entry {o : Option Nat} {word : Nat} (entry : Entry o word)
    (direct : ∀ p, o = some p → Direct p) : entryFrame word = o := by
  cases o with
  | none => exact entryFrame_none entry
  | some p => exact entryFrame_some entry (direct p rfl)

namespace Forest

variable (forest : Forest memory place) (direct : ∀ slot p, place slot = some p → Direct p)
include forest direct

/-- The page below a table is the one that its entry leads to. -/
theorem bind_entryFrame (hangs : Hangs slot up i) :
    ((place up).bind fun table => entryFrame (wordAt memory table i)) = place slot := by
  cases there : place up with
  | none =>
      rw [Option.bind_none]
      by_contra filled
      exact forest.parent slot up i hangs (Ne.symm filled) there
  | some table =>
      rw [Option.bind_some]
      exact entryFrame_of_entry (forest.entry slot up i table hangs there) fun p => direct slot p

theorem tableFrame_eq (rooted : place (.table root 0 0) = some root) (low : level ≤ 3) :
    tableFrame memory root level above = place (.table root level above) := by
  induction level generalizing above with
  | zero =>
      unfold tableFrame
      split
      · rename_i top
        rw [top, rooted]
      · rename_i other
        cases there : place (.table root 0 above) with
        | none => rfl
        | some p => exact absurd (forest.root root above p there).1 other
  | succ level ih =>
      have hangs : Hangs (.table root (level + 1) above) (.table root level (above / TABLE_ENTRIES))
          (above % TABLE_ENTRIES) := by
        refine ⟨Nat.mod_lt _ (by decide), root, _, .inl ⟨level, low, rfl, ?_⟩⟩
        rw [Nat.div_add_mod']
      unfold tableFrame
      rw [ih (by omega)]
      exact forest.bind_entryFrame direct hangs

theorem frameAt_of (rooted : place (.table root 0 0) = some root) (of : slot.Of root) :
    frameAt memory slot = place slot := by
  cases slot with
  | table r level above =>
      obtain rfl : r = root := of
      dsimp only [frameAt]
      split
      · rename_i low
        exact forest.tableFrame_eq direct rooted low
      · rename_i high
        by_contra filled
        exact high (forest.level r level above (Ne.symm filled))
  | leaf r vpn =>
      obtain rfl : r = root := of
      have hangs : Hangs (.leaf r vpn) (.table r 3 (vpn / TABLE_ENTRIES)) (vpn % TABLE_ENTRIES) := by
        refine ⟨Nat.mod_lt _ (by decide), r, _, .inr (.inl ⟨rfl, ?_⟩)⟩
        rw [Nat.div_add_mod']
      dsimp only [frameAt]
      rw [forest.tableFrame_eq direct rooted (le_refl 3)]
      exact forest.bind_entryFrame direct hangs
  | stackTable | stack | hand | client => exact of.elim

/-- A place of the window of kernel stacks. -/
theorem frameAt_stackTable : frameAt memory (.stackTable i) = place (.stackTable i) := by
  dsimp only [frameAt]
  split
  · rename_i small
    exact entryFrame_of_entry (forest.window i small) fun p => direct _ p
  · rename_i large
    by_contra filled
    exact large (forest.stackTable i (Ne.symm filled))

theorem frameAt_stack : frameAt memory (.stack i level) = place (.stack i level) := by
  dsimp only [frameAt]
  split
  · rename_i small
    have hangs : Hangs (.stack i level) (.stackTable i) level :=
      ⟨small.2, 0, i, .inr (.inr ⟨rfl, rfl⟩)⟩
    rw [entryFrame_of_entry (forest.window i small.1) fun p => direct _ p]
    exact forest.bind_entryFrame direct hangs
  · rename_i large
    by_contra filled
    have inside := forest.stack i level (Ne.symm filled)
    have hangs : Hangs (.stack i level) (.stackTable i) level :=
      ⟨inside, 0, i, .inr (.inr ⟨rfl, rfl⟩)⟩
    have parent := forest.parent _ _ _ hangs (Ne.symm filled)
    exact large ⟨forest.stackTable i parent, inside⟩

end Forest

end Pmap

end Av6
