import Mathlib.Order.Interval.Set.Defs
import Mathlib.Order.Interval.Set.LinearOrder
import Mathlib.Data.Set.Lattice

/-!
# Lists of separated intervals

A set that is a finite union of half-open intervals has one representation as a list of
non-empty intervals in increasing order, no two of which touch.  The list is built from the
front: an interval joins it at once when it ends before the first one begins.
-/

namespace Av6

namespace Intervals

variable {α : Type*} [LinearOrder α] {l l' : List (α × α)} {i : α × α} {a b x : α}

/-- Non-empty intervals in increasing order, with a gap between neighbours. -/
inductive Separated : List (α × α) → Prop
  | nil : Separated []
  | cons {i : α × α} {l : List (α × α)} (proper : i.1 < i.2) (gap : ∀ j ∈ l, i.2 < j.1)
      (rest : Separated l) : Separated (i :: l)

/-- The points of the intervals. -/
def cover (l : List (α × α)) : Set α :=
  { x | ∃ i ∈ l, x ∈ Set.Ico i.1 i.2 }

@[simp]
theorem cover_nil : cover ([] : List (α × α)) = ∅ := by
  ext x
  simp [cover]

@[simp]
theorem cover_cons : cover (i :: l) = Set.Ico i.1 i.2 ∪ cover l := by
  ext x
  simp [cover]

@[simp]
theorem cover_append : cover (l ++ l') = cover l ∪ cover l' := by
  ext x
  simp [cover, or_and_right, exists_or]

theorem separated_cons : Separated (i :: l) ↔ i.1 < i.2 ∧ (∀ j ∈ l, i.2 < j.1) ∧ Separated l := by
  constructor
  · intro sep
    cases sep with
    | cons proper gap rest => exact ⟨proper, gap, rest⟩
  · rintro ⟨proper, gap, rest⟩
    exact .cons proper gap rest

theorem Separated.proper (sep : Separated l) (member : i ∈ l) : i.1 < i.2 := by
  induction sep with
  | nil => cases member
  | cons proper gap rest ih =>
      rcases List.mem_cons.mp member with rfl | there
      · exact proper
      · exact ih there

theorem Separated.append (first : Separated l) (second : Separated l')
    (gap : ∀ i ∈ l, ∀ j ∈ l', i.2 < j.1) : Separated (l ++ l') := by
  induction first with
  | nil => exact second
  | cons proper apart rest ih =>
      refine .cons proper (fun j member => ?_) (ih fun i there => gap i (by simp [there]))
      rcases List.mem_append.mp member with there | there
      · exact apart j there
      · exact gap _ (by simp) j there

/-- The first point, and the first gap, tell the first interval. -/
theorem Separated.head_eq {j : α × α} (sep : Separated (i :: l)) (sep' : Separated (j :: l'))
    (same : cover (i :: l) = cover (j :: l')) : i = j := by
  obtain ⟨proper, gap, rest⟩ := separated_cons.mp sep
  obtain ⟨proper', gap', rest'⟩ := separated_cons.mp sep'
  have starts : ∀ {m : List (α × α)} {k : α × α}, Separated (k :: m) → ∀ x ∈ cover (k :: m),
      k.1 ≤ x := by
    intro m k sep x there
    obtain ⟨proper, gap, -⟩ := separated_cons.mp sep
    obtain ⟨n, member, low, -⟩ := there
    rcases List.mem_cons.mp member with rfl | member
    · exact low
    · exact (proper.trans (gap n member)).le.trans low
  have first : i.1 = j.1 := by
    apply le_antisymm
    · exact starts sep j.1 (by rw [same]; exact ⟨j, by simp, le_rfl, proper'⟩)
    · exact starts sep' i.1 (by rw [← same]; exact ⟨i, by simp, le_rfl, proper⟩)
  -- the end of the first interval is a point of neither set
  have ends : ∀ {m m' : List (α × α)} {k n : α × α}, Separated (k :: m) → n.1 = k.1 →
      cover (k :: m) = cover (n :: m') → n.1 < n.2 → n.2 ≤ k.2 := by
    intro m m' k n sep start same proper'
    obtain ⟨proper, gap, -⟩ := separated_cons.mp sep
    by_contra beyond
    have inside : k.2 ∈ cover (k :: m) := by
      rw [same]
      exact ⟨n, by simp, by rw [start]; exact proper.le, lt_of_not_ge beyond⟩
    obtain ⟨o, member, low, high⟩ := inside
    rcases List.mem_cons.mp member with rfl | member
    · exact lt_irrefl _ high
    · exact absurd low (not_le.mpr (gap o member))
  have second : i.2 = j.2 := by
    apply le_antisymm
    · exact ends sep' first same.symm proper
    · exact ends sep first.symm same proper'
  exact Prod.ext first second

theorem Separated.cover_tail (sep : Separated (i :: l)) :
    cover l = { x ∈ cover (i :: l) | i.2 ≤ x } := by
  obtain ⟨proper, gap, rest⟩ := separated_cons.mp sep
  ext x
  constructor
  · rintro ⟨j, member, low, high⟩
    exact ⟨⟨j, by simp [member], low, high⟩, (gap j member).le.trans low⟩
  · rintro ⟨⟨j, member, low, high⟩, beyond⟩
    rcases List.mem_cons.mp member with rfl | member
    · exact absurd high (not_lt.mpr beyond)
    · exact ⟨j, member, low, high⟩

/-- The representation is unique. -/
theorem Separated.ext (sep : Separated l) (sep' : Separated l') (same : cover l = cover l') :
    l = l' := by
  induction l generalizing l' with
  | nil =>
      cases l' with
      | nil => rfl
      | cons j rest =>
          have inside : j.1 ∈ cover ([] : List (α × α)) := by
            rw [same]
            exact ⟨j, by simp, le_rfl, sep'.proper (by simp)⟩
          simp at inside
  | cons i l ih =>
      cases l' with
      | nil =>
          have inside : i.1 ∈ cover ([] : List (α × α)) := by
            rw [← same]
            exact ⟨i, by simp, le_rfl, sep.proper (by simp)⟩
          simp at inside
      | cons j rest =>
          obtain rfl := sep.head_eq sep' same
          refine congrArg _ (ih (separated_cons.mp sep).2.2 (separated_cons.mp sep').2.2 ?_)
          rw [sep.cover_tail, sep'.cover_tail, same]

end Intervals

end Av6
