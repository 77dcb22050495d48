import Mathlib.Logic.Equiv.Basic
import Mathlib.Data.Set.Insert

/-!
# Who has what

Each thing in use has one owner, or is reserved.  A thing is taken, given back, or goes with its
owner's place to another owner.
-/

namespace Av6

/-- What is in use is what is reserved and what the owners have; no two have the same. -/
structure Owned {α H : Type} (used reserved : Set α) (has : H → Option α) : Prop where
  distinct : ∀ h h' a, has h = some a → has h' = some a → h = h'
  unreserved : ∀ h a, has h = some a → a ∉ reserved
  used : ∀ a, a ∈ used ↔ a ∈ reserved ∨ ∃ h, has h = some a

namespace Owned

variable {α H : Type} {used reserved : Set α} {has has' : H → Option α} {h : H} {a : α}

/-- Nothing is owned at first. -/
theorem start (none_ : ∀ h, has h = none) : Owned reserved reserved has := by
  constructor <;> simp [none_]

theorem mem_used (owned : Owned used reserved has) (own : has h = some a) : a ∈ used :=
  (owned.used a).mpr (.inr ⟨h, own⟩)

theorem ne_of_unused (owned : Owned used reserved has) (unused : a ∉ used) : has h ≠ some a :=
  fun own => unused (owned.mem_used own)

/-- Owners change places. -/
theorem perm (owned : Owned used reserved has) (e : Equiv.Perm H) :
    Owned used reserved (has ∘ e) := by
  constructor
  · intro h h' a own own'
    exact e.injective (owned.distinct (e h) (e h') a own own')
  · exact fun h a own => owned.unreserved (e h) a own
  · intro a
    rw [owned.used a]
    apply or_congr_right
    constructor
    · rintro ⟨h, own⟩
      exact ⟨e.symm h, by simpa using own⟩
    · rintro ⟨h, own⟩
      exact ⟨e h, own⟩

variable [DecidableEq H]

/-- What one owner has goes to another that has nothing. -/
theorem move {x y : H} (owned : Owned used reserved has) (left : has' x = none)
    (idle : has y = none) (taken : has' y = has x)
    (others : ∀ h, h ≠ x → h ≠ y → has' h = has h) : Owned used reserved has' := by
  have swapped : has' = has ∘ Equiv.swap x y := by
    ext1 h
    rw [Function.comp_apply]
    by_cases first : h = x
    · rw [first, Equiv.swap_apply_left, left, idle]
    · by_cases second : h = y
      · rw [second, Equiv.swap_apply_right, taken]
      · rw [Equiv.swap_apply_of_ne_of_ne first second, others h first second]
  rw [swapped]
  exact owned.perm _

/-- An owner that has nothing takes something that is not in use. -/
theorem take (owned : Owned used reserved has) (unused : a ∉ used) (idle : has h = none) :
    Owned (insert a used) reserved (Function.update has h (some a)) := by
  have unreserved : a ∉ reserved := fun there => unused ((owned.used a).mpr (.inl there))
  constructor
  · intro x y b own own'
    by_cases first : x = h
    · by_cases second : y = h
      · rw [first, second]
      · rw [first, Function.update_self] at own
        cases own
        rw [Function.update_of_ne second] at own'
        exact absurd own' (owned.ne_of_unused unused)
    · rw [Function.update_of_ne first] at own
      by_cases second : y = h
      · rw [second, Function.update_self] at own'
        cases own'
        exact absurd own (owned.ne_of_unused unused)
      · rw [Function.update_of_ne second] at own'
        exact owned.distinct x y b own own'
  · intro x b own
    by_cases same : x = h
    · rw [same, Function.update_self] at own
      cases own
      exact unreserved
    · rw [Function.update_of_ne same] at own
      exact owned.unreserved x b own
  · intro b
    rw [Set.mem_insert_iff, owned.used b]
    constructor
    · rintro (rfl | there | ⟨x, own⟩)
      · exact .inr ⟨h, Function.update_self ..⟩
      · exact .inl there
      · have other : x ≠ h := by
          rintro rfl
          rw [idle] at own
          cases own
        exact .inr ⟨x, by rwa [Function.update_of_ne other]⟩
    · rintro (there | ⟨x, own⟩)
      · exact .inr (.inl there)
      · by_cases same : x = h
        · rw [same, Function.update_self] at own
          cases own
          exact .inl rfl
        · rw [Function.update_of_ne same] at own
          exact .inr (.inr ⟨x, own⟩)

/-- An owner gives back what it has. -/
theorem give (owned : Owned used reserved has) (own : has h = some a) :
    Owned (used \ {a}) reserved (Function.update has h none) := by
  have left : ∀ x b, Function.update has h none x = some b → x ≠ h ∧ has x = some b := by
    intro x b own'
    by_cases same : x = h
    · simp [same] at own'
    · rw [Function.update_of_ne same] at own'
      exact ⟨same, own'⟩
  constructor
  · intro x y b own' own''
    exact owned.distinct x y b (left x b own').2 (left y b own'').2
  · intro x b own'
    exact owned.unreserved x b (left x b own').2
  · intro b
    rw [Set.mem_sdiff, Set.mem_singleton_iff, owned.used b]
    constructor
    · rintro ⟨there | ⟨x, own'⟩, other⟩
      · exact .inl there
      · have away : x ≠ h := by
          rintro rfl
          rw [own] at own'
          exact other (Option.some.inj own').symm
        exact .inr ⟨x, by rwa [Function.update_of_ne away]⟩
    · rintro (there | ⟨x, own'⟩)
      · refine ⟨.inl there, ?_⟩
        rintro rfl
        exact owned.unreserved h b own there
      · obtain ⟨away, own'⟩ := left x b own'
        refine ⟨.inr ⟨x, own'⟩, ?_⟩
        rintro rfl
        exact away (owned.distinct x h b own' own)

end Owned

end Av6
