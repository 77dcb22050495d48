import Mathlib.Data.List.Range
import Mathlib.Data.List.Basic
import Mathlib.Logic.Function.Basic

/-!
# Circular buffers

A circular buffer is a function of the slot number that is only ever indexed
modulo its capacity.  `slice` reads a window of it as a list, `writeBlock`
stores a block slot by slot.  The lemmas say how windows split, how a block is
read back, and that a block stored right after a window leaves it alone as long
as the two fit the capacity together.
-/

namespace CircularBuffer

variable {α : Type*}

/-- The `count` slots from `offset` on, in order, wrapping at `capacity`. -/
def slice (capacity : Nat) (buffer : Nat → α) (offset count : Nat) : List α :=
  (List.range count).map fun index => buffer ((offset + index) % capacity)

/-- Store `source 0, …, source (count - 1)` from `offset` on, wrapping at
`capacity`. -/
def writeBlock (capacity : Nat) (buffer : Nat → α) (offset : Nat)
    (source : Nat → α) : Nat → Nat → α
  | 0 => buffer
  | count + 1 =>
      Function.update (writeBlock capacity buffer offset source count)
        ((offset + count) % capacity) (source count)

@[simp]
theorem slice_length (capacity : Nat) (buffer : Nat → α) (offset count : Nat) :
    (slice capacity buffer offset count).length = count := by
  simp [slice]

@[simp]
theorem slice_zero (capacity : Nat) (buffer : Nat → α) (offset : Nat) :
    slice capacity buffer offset 0 = [] :=
  rfl

theorem slice_getElem (capacity : Nat) (buffer : Nat → α)
    (offset count index : Nat)
    (bound : index < (slice capacity buffer offset count).length) :
    (slice capacity buffer offset count)[index] =
      buffer ((offset + index) % capacity) := by
  simp [slice]

/-- A window only depends on its offset modulo the capacity. -/
@[simp]
theorem slice_mod (capacity : Nat) (buffer : Nat → α) (offset count : Nat) :
    slice capacity buffer (offset % capacity) count =
      slice capacity buffer offset count := by
  simp [slice, Nat.mod_add_mod]

theorem slice_append (capacity : Nat) (buffer : Nat → α)
    (offset first second : Nat) :
    slice capacity buffer offset (first + second) =
      slice capacity buffer offset first ++
        slice capacity buffer (offset + first) second := by
  simp [slice, List.range_add, List.map_map, Function.comp_def, Nat.add_assoc]

theorem slice_succ (capacity : Nat) (buffer : Nat → α) (offset count : Nat) :
    slice capacity buffer offset (count + 1) =
      slice capacity buffer offset count ++
        [buffer ((offset + count) % capacity)] := by
  simp [slice, List.range_succ]

theorem slice_cons (capacity : Nat) (buffer : Nat → α) (offset count : Nat) :
    slice capacity buffer offset (count + 1) =
      buffer (offset % capacity) ::
        slice capacity buffer (offset + 1) count := by
  rw [Nat.add_comm, slice_append]
  simp [slice]

theorem slice_congr {capacity : Nat} {first second : Nat → α} {offset count : Nat}
    (agree : ∀ index < count,
      first ((offset + index) % capacity) = second ((offset + index) % capacity)) :
    slice capacity first offset count = slice capacity second offset count := by
  apply List.map_congr_left
  intro index member
  exact agree index (List.mem_range.mp member)

/-- Two positions less than a capacity apart occupy different slots. -/
theorem position_ne {capacity offset first second : Nat}
    (ordered : first < second) (near : second < first + capacity) :
    (offset + first) % capacity ≠ (offset + second) % capacity := by
  intro same
  have divides : capacity ∣ second - first := by
    have remainder := Nat.sub_mod_eq_zero_of_mod_eq same.symm
    rw [Nat.add_sub_add_left] at remainder
    exact Nat.dvd_of_mod_eq_zero remainder
  have := Nat.le_of_dvd (by omega) divides
  omega

theorem writeBlock_of_ne (capacity : Nat) (buffer : Nat → α) (offset : Nat)
    (source : Nat → α) (count slot : Nat)
    (outside : ∀ index < count, slot ≠ (offset + index) % capacity) :
    writeBlock capacity buffer offset source count slot = buffer slot := by
  induction count with
  | zero => rfl
  | succ count ih =>
      rw [writeBlock, Function.update_of_ne (outside count (by omega))]
      exact ih fun index bound => outside index (by omega)

theorem writeBlock_of_lt {capacity count index : Nat} (buffer : Nat → α)
    (offset : Nat) (source : Nat → α) (fits : count ≤ capacity)
    (bound : index < count) :
    writeBlock capacity buffer offset source count ((offset + index) % capacity) =
      source index := by
  induction count with
  | zero => omega
  | succ count ih =>
      rcases Nat.lt_succ_iff_lt_or_eq.mp bound with earlier | rfl
      · rw [writeBlock, Function.update_of_ne (position_ne earlier (by omega))]
        exact ih (by omega) earlier
      · rw [writeBlock, Function.update_self]

@[simp]
theorem writeBlock_mod (capacity : Nat) (buffer : Nat → α) (offset : Nat)
    (source : Nat → α) (count : Nat) :
    writeBlock capacity buffer (offset % capacity) source count =
      writeBlock capacity buffer offset source count := by
  induction count with
  | zero => rfl
  | succ count ih => simp [writeBlock, ih]

/-- A stored block is read back as it was. -/
theorem slice_writeBlock {capacity count : Nat} (buffer : Nat → α) (offset : Nat)
    (source : Nat → α) (fits : count ≤ capacity) :
    slice capacity (writeBlock capacity buffer offset source count) offset count =
      (List.range count).map source := by
  apply List.map_congr_left
  intro index member
  exact writeBlock_of_lt buffer offset source fits (List.mem_range.mp member)

/-- A block stored right behind a window does not reach into it. -/
theorem slice_writeBlock_behind {capacity window count : Nat} (buffer : Nat → α)
    (offset : Nat) (source : Nat → α) (fits : window + count ≤ capacity) :
    slice capacity
        (writeBlock capacity buffer (offset + window) source count) offset window =
      slice capacity buffer offset window := by
  apply slice_congr
  intro index bound
  apply writeBlock_of_ne
  intro later laterBound
  rw [Nat.add_assoc]
  exact position_ne (by omega) (by omega)

theorem slice_update_behind {capacity window : Nat} (buffer : Nat → α)
    (offset : Nat) (value : α) (fits : window < capacity) :
    slice capacity
        (Function.update buffer ((offset + window) % capacity) value) offset window =
      slice capacity buffer offset window := by
  apply slice_congr
  intro index bound
  exact Function.update_of_ne (position_ne bound (by omega)) _ _

end CircularBuffer
