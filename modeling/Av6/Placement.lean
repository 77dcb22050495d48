import Mathlib.Data.Multiset.ZeroCons
import Mathlib.Data.Multiset.UnionInter
import Mathlib.Logic.Function.Basic

/-!
# Things in places

A placement says which thing, if any, is in each place.  It accounts for a collection of
things when each of them is in exactly one place, and nothing else is in any.
-/

namespace Av6

variable {ι α : Type} [DecidableEq ι] {place : ι → Option α} {m : Multiset α} {i j : ι} {a b : α}

/-- Each thing of the collection is in exactly one place, and nothing else is in any. -/
structure Accounts (place : ι → Option α) (m : Multiset α) : Prop where
  nodup : m.Nodup
  mem_iff : ∀ a, a ∈ m ↔ ∃ i, place i = some a
  unique : ∀ i j a, place i = some a → place j = some a → i = j

namespace Accounts

omit [DecidableEq ι] in
theorem mem (ok : Accounts place m) (there : place i = some a) : a ∈ m :=
  (ok.mem_iff a).mpr ⟨i, there⟩

/-- A thing that is not in the collection is put into an empty place. -/
theorem put (ok : Accounts place m) (fresh : a ∉ m) (empty : place i = none) :
    Accounts (Function.update place i (some a)) (a ::ₘ m) := by
  refine ⟨Multiset.nodup_cons.mpr ⟨fresh, ok.nodup⟩, ?_, ?_⟩
  · intro b
    rw [Multiset.mem_cons, ok.mem_iff]
    constructor
    · rintro (rfl | ⟨j, there⟩)
      · exact ⟨i, Function.update_self ..⟩
      · refine ⟨j, ?_⟩
        rw [Function.update_of_ne]
        · exact there
        · rintro rfl
          rw [empty] at there
          cases there
    · rintro ⟨j, there⟩
      by_cases same : j = i
      · subst same
        rw [Function.update_self] at there
        cases there
        exact .inl rfl
      · rw [Function.update_of_ne same] at there
        exact .inr ⟨j, there⟩
  · intro j k b atJ atK
    by_cases sameJ : j = i <;> by_cases sameK : k = i
    · rw [sameJ, sameK]
    · subst sameJ
      rw [Function.update_self] at atJ
      rw [Function.update_of_ne sameK] at atK
      cases atJ
      exact absurd (ok.mem atK) fresh
    · subst sameK
      rw [Function.update_self] at atK
      rw [Function.update_of_ne sameJ] at atJ
      cases atK
      exact absurd (ok.mem atJ) fresh
    · rw [Function.update_of_ne sameJ] at atJ
      rw [Function.update_of_ne sameK] at atK
      exact ok.unique j k b atJ atK

/-- A thing is taken out of its place, and out of the collection. -/
theorem take [DecidableEq α] (ok : Accounts place m) (there : place i = some a) :
    Accounts (Function.update place i none) (m.erase a) := by
  refine ⟨ok.nodup.erase a, ?_, ?_⟩
  · intro b
    rw [ok.nodup.mem_erase_iff, ok.mem_iff]
    constructor
    · rintro ⟨other, j, atJ⟩
      refine ⟨j, ?_⟩
      rw [Function.update_of_ne]
      · exact atJ
      · rintro rfl
        rw [there] at atJ
        cases atJ
        exact other rfl
    · rintro ⟨j, atJ⟩
      by_cases same : j = i
      · subst same
        rw [Function.update_self] at atJ
        cases atJ
      · rw [Function.update_of_ne same] at atJ
        refine ⟨?_, j, atJ⟩
        rintro rfl
        exact same (ok.unique j i b atJ there)
  · intro j k b atJ atK
    have other : ∀ {l}, Function.update place i none l = some b → place l = some b := by
      intro l atL
      by_cases same : l = i
      · subst same
        rw [Function.update_self] at atL
        cases atL
      · rwa [Function.update_of_ne same] at atL
    exact ok.unique j k b (other atJ) (other atK)

/-- A thing goes from one place to another, empty one. -/
theorem move (ok : Accounts place m) (there : place i = some a) (empty : place j = none) :
    Accounts (Function.update (Function.update place i none) j (some a)) m := by
  classical
  have out := ok.take there
  have apart : i ≠ j := by
    rintro rfl
    rw [there] at empty
    cases empty
  have back := out.put (i := j) (a := a) (fun mem => (ok.nodup.mem_erase_iff.mp mem).1 rfl)
    (by rw [Function.update_of_ne apart.symm]; exact empty)
  rwa [Multiset.cons_erase (ok.mem there)] at back

end Accounts

end Av6
