import Mathlib.Data.List.Basic
import Mathlib.Order.Lattice

/-!
# Waiting until a deadline

A loop that tests a condition and reads a clock, in turn, until the condition is met or a reading
has reached the deadline.
-/

namespace Av6

namespace Deadlines

/-- One round of a loop: whether the condition is unmet, and the reading that is taken if so. -/
structure Poll (τ : Type*) where
  unmet : Bool
  now : τ

/-- How a loop stands after some rounds: at which round the condition was met, or the loop gave
up. -/
inductive Outcome
  | waiting
  | met (round : Nat)
  | gaveUp (round : Nat)

/-- The outcome, counted from one round before. -/
def Outcome.later : Outcome → Outcome
  | .waiting => .waiting
  | .met round => .met (round + 1)
  | .gaveUp round => .gaveUp (round + 1)

theorem Outcome.later_eq_gaveUp_iff {outcome : Outcome} {k : Nat} :
    outcome.later = .gaveUp k ↔ ∃ j, outcome = .gaveUp j ∧ j + 1 = k := by
  cases outcome with
  | waiting => simp [later]
  | met round => simp [later]
  | gaveUp round => simp [later]

section Readings

variable {τ : Type*}

/-- The readings that a loop takes if it never gives up. -/
def taken (polls : List (Poll τ)) : List τ :=
  (polls.takeWhile Poll.unmet).map Poll.now

theorem taken_cons {poll : Poll τ} {polls : List (Poll τ)} (unmet : poll.unmet = true) :
    taken (poll :: polls) = poll.now :: taken polls := by
  unfold taken
  rw [List.takeWhile_cons_of_pos unmet, List.map_cons]

theorem taken_sublist (polls : List (Poll τ)) : (taken polls).Sublist (polls.map Poll.now) :=
  (List.takeWhile_sublist _).map Poll.now

end Readings

variable {τ : Type*} [LinearOrder τ]

def wait (deadline : τ) : List (Poll τ) → Outcome
  | [] => .waiting
  | poll :: polls =>
      if poll.unmet then
        if deadline ≤ poll.now then .gaveUp 0 else (wait deadline polls).later
      else .met 0

/-- The loop gives up at the first reading that has reached the deadline. -/
theorem wait_eq_gaveUp_iff {deadline : τ} {polls : List (Poll τ)} {k : Nat} :
    wait deadline polls = .gaveUp k ↔
      (taken polls).findIdx? (fun now => decide (deadline ≤ now)) = some k := by
  induction polls generalizing k with
  | nil => simp [wait, taken]
  | cons poll polls ih =>
      unfold wait
      by_cases unmet : poll.unmet = true
      · rw [if_pos unmet, taken_cons unmet, List.findIdx?_cons]
        by_cases reached : deadline ≤ poll.now
        · simp [reached]
        · rw [if_neg reached, decide_eq_false reached, if_neg Bool.false_ne_true,
            Outcome.later_eq_gaveUp_iff, Option.map_eq_some_iff]
          exact exists_congr fun j => and_congr_left' ih
      · rw [if_neg unmet, taken, List.takeWhile_cons_of_neg unmet]
        simp

/-- The loop gives up at the first reading that has reached the time `due`, and at no other. -/
structure Honours (outcome : Outcome) (due : τ) (readings : List τ) : Prop where
  notEarly : ∀ k, outcome = .gaveUp k → ∃ now, readings[k]? = some now ∧ due ≤ now
  atFirst : ∀ k now, readings[k]? = some now → due ≤ now →
    (∀ j < k, ∀ before, readings[j]? = some before → before < due) → outcome = .gaveUp k

/-- Among readings, one of which has reached a time, there is a first one. -/
theorem exists_first {due now : τ} {readings : List τ} (sorted : readings.Pairwise (· ≤ ·))
    (member : now ∈ readings) (reached : due ≤ now) :
    ∃ k first, readings[k]? = some first ∧ due ≤ first ∧ first ≤ now ∧
      (readings.findIdx? fun now => decide (due ≤ now)) = some k ∧
      ∀ j < k, ∀ before, readings[j]? = some before → before < due := by
  obtain ⟨m, bound, rfl⟩ := List.getElem_of_mem member
  cases found : readings.findIdx? fun now => decide (due ≤ now) with
  | none =>
      have none := List.findIdx?_eq_none_iff.mp found _ member
      exact absurd reached (of_decide_eq_false none)
  | some k =>
      obtain ⟨bound', here, before⟩ := List.findIdx?_eq_some_iff_getElem.mp found
      have firstLe : k ≤ m := by
        by_contra later
        exact before m (Nat.not_le.mp later) (decide_eq_true reached)
      refine ⟨k, readings[k], List.getElem?_eq_getElem bound', of_decide_eq_true here, ?_,
        rfl, ?_⟩
      · rcases Nat.lt_or_eq_of_le firstLe with less | rfl
        · exact List.pairwise_iff_getElem.mp sorted k m bound' bound less
        · exact le_refl _
      · intro j less now' found'
        obtain ⟨bound'', rfl⟩ := List.getElem?_eq_some_iff.mp found'
        have earlier := before j less
        exact not_le.mp fun reached' => earlier (decide_eq_true reached')

/-- A loop honours a time exactly if every reading that it takes has reached its deadline just
when it has reached that time. -/
theorem honours_iff {deadline due : τ} {polls : List (Poll τ)}
    (sorted : (polls.map Poll.now).Pairwise (· ≤ ·)) :
    Honours (wait deadline polls) due (taken polls) ↔
      ∀ now ∈ taken polls, deadline ≤ now ↔ due ≤ now := by
  have sorted' := sorted.sublist (taken_sublist polls)
  constructor
  · intro honours now member
    constructor
    · intro reached
      obtain ⟨k, first, at_k, -, firstLe, found, -⟩ := exists_first sorted' member reached
      obtain ⟨now', at_k', late⟩ := honours.notEarly k (wait_eq_gaveUp_iff.mpr found)
      rw [at_k, Option.some.injEq] at at_k'
      rw [← at_k'] at late
      exact le_trans late firstLe
    · intro late
      obtain ⟨k, first, at_k, late', firstLe, -, before⟩ := exists_first sorted' member late
      have found := wait_eq_gaveUp_iff.mp (honours.atFirst k first at_k late' before)
      obtain ⟨bound, reached, -⟩ := List.findIdx?_eq_some_iff_getElem.mp found
      rw [List.getElem?_eq_getElem bound, Option.some.injEq] at at_k
      rw [at_k] at reached
      exact le_trans (of_decide_eq_true reached) firstLe
  · intro agree
    constructor
    · intro k gaveUp
      obtain ⟨bound, reached, -⟩ :=
        List.findIdx?_eq_some_iff_getElem.mp (wait_eq_gaveUp_iff.mp gaveUp)
      have late := (agree _ (List.getElem_mem bound)).mp (of_decide_eq_true reached)
      exact ⟨_, List.getElem?_eq_getElem bound, late⟩
    · intro k now at_k late before
      obtain ⟨bound, rfl⟩ := List.getElem?_eq_some_iff.mp at_k
      apply wait_eq_gaveUp_iff.mpr
      apply List.findIdx?_eq_some_iff_getElem.mpr
      refine ⟨bound, decide_eq_true ((agree _ (List.getElem_mem bound)).mpr late), ?_⟩
      intro j less reached
      have bound' : j < (taken polls).length := Nat.lt_trans less bound
      have late' := (agree _ (List.getElem_mem bound')).mp (of_decide_eq_true reached)
      exact not_le_of_gt (before j less _ (List.getElem?_eq_getElem bound')) late'

end Deadlines

end Av6
