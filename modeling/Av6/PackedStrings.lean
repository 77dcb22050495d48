import Mathlib.Data.List.TakeDrop
import Mathlib.Data.List.Flatten

/-!
# Strings one after the other

Strings without a terminator inside are packed one after the other, each with the terminator at
its end, and bytes by offset hold such a list of bytes from an offset on.
-/

namespace Av6

namespace PackedStrings

variable {α : Type} {bytes bytes' : Nat → α} {base i : Nat} {l l' : List α}

/-- From the offset `base` on, the bytes are those of the list. -/
def Holds (bytes : Nat → α) (base : Nat) (l : List α) : Prop :=
  ∀ k (less : k < l.length), bytes (base + k) = l[k]

theorem holds_nil (bytes : Nat → α) (base : Nat) : Holds bytes base [] := by
  intro k less
  cases less

theorem holds_append : Holds bytes base (l ++ l') ↔
    Holds bytes base l ∧ Holds bytes (base + l.length) l' := by
  constructor
  · intro holds
    constructor
    · intro k less
      rw [holds k (by rw [List.length_append]; omega), List.getElem_append_left less]
    · intro k less
      have there := holds (l.length + k) (by rw [List.length_append]; omega)
      rw [List.getElem_append_right (by omega)] at there
      rw [Nat.add_assoc, there]
      simp
  · intro both k less
    by_cases first : k < l.length
    · rw [both.1 k first, List.getElem_append_left first]
    · rw [List.length_append] at less
      have there := both.2 (k - l.length) (by omega)
      rw [List.getElem_append_right (by omega), ← there]
      congr 1
      omega

theorem holds_cons {a : α} : Holds bytes base (a :: l) ↔
    bytes base = a ∧ Holds bytes (base + 1) l := by
  rw [← List.singleton_append, holds_append]
  constructor
  · intro both
    exact ⟨both.1 0 (by simp), both.2⟩
  · intro both
    refine ⟨fun k less => ?_, both.2⟩
    obtain rfl : k = 0 := by simpa using less
    exact both.1

theorem Holds.congr (holds : Holds bytes base l)
    (same : ∀ k, base ≤ k → k < base + l.length → bytes' k = bytes k) : Holds bytes' base l := by
  intro k less
  rw [same (base + k) (by omega) (by omega), holds k less]

section

variable (stop : α) (strings : List (List α))

/-- The strings, each with its end. -/
def packed : List α := strings.flatMap fun string => string ++ [stop]

/-- Where a string starts. -/
def start (i : Nat) : Nat := (packed stop (strings.take i)).length

end

section

variable {stop : α} {strings : List (List α)}

@[simp]
theorem start_zero : start stop strings 0 = 0 := by
  simp [start, packed]

theorem packed_take_succ (less : i < strings.length) : packed stop (strings.take (i + 1)) =
    packed stop (strings.take i) ++ (strings[i] ++ [stop]) := by
  unfold packed
  rw [List.take_succ_eq_append_getElem less, List.flatMap_append, List.flatMap_singleton]

theorem start_succ (less : i < strings.length) :
    start stop strings (i + 1) = start stop strings i + strings[i].length + 1 := by
  unfold start
  rw [packed_take_succ less]
  simp only [List.length_append, List.length_singleton]
  omega

theorem packed_take_append (i : Nat) : packed stop (strings.take i) ++ packed stop (strings.drop i) =
    packed stop strings := by
  unfold packed
  rw [← List.flatMap_append, List.take_append_drop]

theorem start_length : start stop strings strings.length = (packed stop strings).length := by
  rw [start, List.take_length]

theorem start_le (i : Nat) : start stop strings i ≤ (packed stop strings).length := by
  rw [← packed_take_append i, List.length_append]
  exact Nat.le_add_right _ _

theorem start_mono {j : Nat} (le : i ≤ j) : start stop strings i ≤ start stop strings j := by
  unfold start
  have split : packed stop ((strings.take j).take i) ++ packed stop ((strings.take j).drop i) =
      packed stop (strings.take j) := packed_take_append i
  rw [List.take_take, Nat.min_eq_left le] at split
  rw [← split, List.length_append]
  exact Nat.le_add_right _ _

/-- A string ends before the next one starts. -/
theorem start_add_lt {j : Nat} (inside : i < strings.length) (less : i < j) :
    start stop strings i + strings[i].length < start stop strings j := by
  have next : start stop strings (i + 1) = start stop strings i + strings[i].length + 1 :=
    start_succ inside
  have mono : start stop strings (i + 1) ≤ start stop strings j := start_mono less
  omega

/-- Packed strings hold each of the strings, with its end. -/
theorem Holds.string (holds : Holds bytes base (packed stop strings)) (less : i < strings.length) :
    Holds bytes (base + start stop strings i) (strings[i] ++ [stop]) := by
  rw [← packed_take_append (i + 1), packed_take_succ less] at holds
  exact (holds_append.mp (holds_append.mp holds).1).2

end

end PackedStrings

end Av6
