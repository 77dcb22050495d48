import Av6.PmapWalk

/-!
# Emptying subtrees

A node of a user page table is a table or, at level 4, a leaf.  When all places below a node
have been emptied and the entry above it has been cleared, the trees are in order again.
-/

namespace Av6

namespace Pmap

open FallibleState Kmem

variable {s s' t t' u u' : VmState} {live : CacheRef → Multiset Nat} {place place' place'' : Place}
  {slot up : Slot} {root level above page i j : Nat} {gone gone' touched : Slot → Prop}

/-- The place of a node: a table, or a leaf at level 4. -/
def node (root level above : Nat) : Slot :=
  if level = 4 then .leaf root above else .table root level above

/-- The places of the subtree at a node. -/
def Below (root level above : Nat) : Slot → Prop
  | .table r l a => r = root ∧ level ≤ l ∧ l ≤ 3 ∧ a / TABLE_ENTRIES ^ (l - level) = above
  | .leaf r v => r = root ∧ v / TABLE_ENTRIES ^ (4 - level) = above
  | _ => False

theorem hangs_node (low : level < 4) (small : i < TABLE_ENTRIES) :
    Hangs (node root (level + 1) (above * TABLE_ENTRIES + i)) (node root level above) i := by
  refine ⟨small, root, above, ?_⟩
  unfold node
  rw [if_neg (by omega : level ≠ 4)]
  by_cases last : level = 3
  · subst last
    exact .inr (.inl ⟨rfl, rfl⟩)
  · rw [if_neg (by omega)]
    exact .inl ⟨level, by omega, rfl, rfl⟩

theorem below_node (low : level ≤ 4) : Below root level above (node root level above) := by
  unfold node
  split
  · rename_i last
    subst last
    exact ⟨rfl, Nat.div_one _⟩
  · refine ⟨rfl, Nat.le_refl _, by omega, ?_⟩
    rw [Nat.sub_self, Nat.pow_zero, Nat.div_one]

theorem div_pow_succ (a d : Nat) :
    a / TABLE_ENTRIES ^ (d + 1) = a / TABLE_ENTRIES ^ d / TABLE_ENTRIES := by
  rw [Nat.pow_succ, Nat.div_div_eq_div_mul]

theorem child_div (small : i < TABLE_ENTRIES) : (above * TABLE_ENTRIES + i) / TABLE_ENTRIES = above := by
  unfold TABLE_ENTRIES at *
  omega

theorem Below.of_child (below : Below root (level + 1) (above * TABLE_ENTRIES + i) slot)
    (low : level < 4) (small : i < TABLE_ENTRIES) : Below root level above slot := by
  cases slot with
  | table r l a =>
      obtain ⟨rfl, le, high, eq⟩ := below
      refine ⟨rfl, by omega, high, ?_⟩
      rw [show l - level = l - (level + 1) + 1 by omega, div_pow_succ, eq, child_div small]
  | leaf r v =>
      obtain ⟨rfl, eq⟩ := below
      refine ⟨rfl, ?_⟩
      rw [show 4 - level = 4 - (level + 1) + 1 by omega, div_pow_succ, eq, child_div small]
  | stackTable | stack | hand | client => exact below.elim

theorem Below.of_number {c : Nat} (below : Below root (level + 1) c slot) (low : level < 4)
    (number : c / TABLE_ENTRIES = above) : Below root level above slot := by
  have split : c = above * TABLE_ENTRIES + c % TABLE_ENTRIES := by
    rw [← number, Nat.mul_comm, Nat.div_add_mod]
  rw [split] at below
  exact below.of_child low (Nat.mod_lt c (by decide))

/-- What is below a node, other than the node itself, is below one of its entries. -/
theorem Below.child (below : Below root level above slot) (low : level < 4)
    (other : slot ≠ node root level above) :
    ∃ i < TABLE_ENTRIES, Below root (level + 1) (above * TABLE_ENTRIES + i) slot := by
  have split : ∀ b : Nat, b / TABLE_ENTRIES * TABLE_ENTRIES + b % TABLE_ENTRIES = b :=
    fun b => by rw [Nat.mul_comm, Nat.div_add_mod]
  have rest : ∀ b : Nat, b % TABLE_ENTRIES < TABLE_ENTRIES := fun b => Nat.mod_lt b (by decide)
  cases slot with
  | table r l a =>
      obtain ⟨rfl, le, high, eq⟩ := below
      have deeper : level ≠ l := by
        rintro rfl
        rw [Nat.sub_self, Nat.pow_zero, Nat.div_one] at eq
        rw [node, if_neg (by omega), eq] at other
        exact other rfl
      rw [show l - level = l - (level + 1) + 1 by omega, div_pow_succ] at eq
      refine ⟨_, rest (a / TABLE_ENTRIES ^ (l - (level + 1))), rfl, by omega, high, ?_⟩
      rw [← eq, split]
  | leaf r v =>
      obtain ⟨rfl, eq⟩ := below
      rw [show 4 - level = 4 - (level + 1) + 1 by omega, div_pow_succ] at eq
      refine ⟨_, rest (v / TABLE_ENTRIES ^ (4 - (level + 1))), rfl, ?_⟩
      rw [← eq, split]
  | stackTable | stack | hand | client => exact below.elim

/-- A subtree is closed downwards. -/
theorem Below.down (below : Below root level above up) (hangs : Hangs slot up i) (low : level ≤ 4) :
    Below root level above slot := by
  obtain ⟨small, r, a, ⟨l, lt, rfl, rfl⟩ | ⟨rfl, rfl⟩ | ⟨rfl, rfl⟩⟩ := hangs
  · obtain ⟨rfl, le, high, eq⟩ := below
    refine ⟨rfl, by omega, by omega, ?_⟩
    rw [show l + 1 - level = l - level + 1 by omega, Nat.pow_succ', ← Nat.div_div_eq_div_mul,
      child_div small, eq]
  · obtain ⟨rfl, le, -, eq⟩ := below
    refine ⟨rfl, ?_⟩
    rw [show 4 - level = 3 - level + 1 by omega, Nat.pow_succ', ← Nat.div_div_eq_div_mul,
      child_div small, eq]
  · exact below.elim

/-- The place above a place of a subtree is in the subtree, unless it is above the node. -/
theorem Below.ascend (below : Below root level above slot) (hangs : Hangs slot up i)
    (other : slot ≠ node root level above) (low : level ≤ 4) : Below root level above up := by
  obtain ⟨small, r, a, ⟨l, lt, rfl, rfl⟩ | ⟨rfl, rfl⟩ | ⟨rfl, rfl⟩⟩ := hangs
  · obtain ⟨rfl, le, high, eq⟩ := below
    have deeper : level ≠ l + 1 := by
      rintro rfl
      rw [Nat.sub_self, Nat.pow_zero, Nat.div_one] at eq
      rw [node, if_neg (by omega), eq] at other
      exact other rfl
    refine ⟨rfl, by omega, by omega, ?_⟩
    rwa [show l + 1 - level = l - level + 1 by omega, Nat.pow_succ', ← Nat.div_div_eq_div_mul,
      child_div small] at eq
  · obtain ⟨rfl, eq⟩ := below
    have deeper : level ≠ 4 := by
      rintro rfl
      rw [Nat.sub_self, Nat.pow_zero, Nat.div_one] at eq
      rw [node, if_pos rfl, eq] at other
      exact other rfl
    refine ⟨rfl, by omega, Nat.le_refl _, ?_⟩
    rwa [show 4 - level = 3 - level + 1 by omega, Nat.pow_succ', ← Nat.div_div_eq_div_mul,
      child_div small] at eq
  · exact below.elim

/-- Nothing is placed below a node that is not. -/
theorem Forest.bare_below {memory : Memory} (forest : Forest memory place) (low : level ≤ 4)
    (bare : place (node root level above) = none) (below : Below root level above slot) :
    place slot = none := by
  obtain ⟨d, depth⟩ : ∃ d, level + d = 4 := ⟨4 - level, by omega⟩
  induction d generalizing level above with
  | zero =>
      by_cases same : slot = node root level above
      · rw [same, bare]
      · obtain rfl : level = 4 := by omega
        cases slot with
        | leaf r v =>
            obtain ⟨rfl, eq⟩ := below
            rw [Nat.sub_self, Nat.pow_zero, Nat.div_one] at eq
            rw [node, if_pos rfl, eq] at same
            exact absurd rfl same
        | table r l a =>
            obtain ⟨-, le, high, -⟩ := below
            omega
        | stackTable | stack | hand | client => exact below.elim
  | succ d ih =>
      by_cases same : slot = node root level above
      · rw [same, bare]
      · obtain ⟨i, small, child⟩ := below.child (by omega) same
        refine ih (by omega) ?_ child (by omega)
        by_contra filled
        exact forest.parent _ _ _ (hangs_node (by omega) small) filled bare

/-- Places have been emptied, and only pages of touched places have been written to. -/
structure Emptied (gone touched : Slot → Prop) (live : CacheRef → Multiset Nat)
    (place place' : Place) (s s' t t' : VmState) : Prop where
  ok : VmOk t live place'
  agree : Agree place' t t'
  emptied : ∀ slot, gone slot → place' slot = none
  others : ∀ slot, ¬ gone slot → place' slot = place slot
  contents : ∀ p, (∀ slot, touched slot → place slot ≠ some p) → ∀ off,
    t.memory p off = s.memory p off ∧ t'.memory p off = s'.memory p off

theorem Emptied.place_of_some (emptied : Emptied gone touched live place place' s s' t t') {p : Nat}
    (there : place' slot = some p) : ¬ gone slot ∧ place slot = some p := by
  have kept : ¬ gone slot := by
    intro isGone
    rw [emptied.emptied slot isGone] at there
    cases there
  exact ⟨kept, by rwa [emptied.others slot kept] at there⟩

/-- When a subtree has been emptied and the entry above it cleared, the trees are in order. -/
theorem Emptied.forest {m : Memory} (emptied : Emptied (Below root level above)
    (Below root level above) live place place' s s' t t') (twins : Twins live place s s')
    (low : level ≤ 4)
    (cleared : ∀ slot up i q, Hangs slot up i → place' up = some q →
      wordAt m q i = if slot = node root level above then 0 else wordAt t.memory q i)
    (window : ∀ i < TABLE_ENTRIES, wordAt m L2_KSTACK i = wordAt t.memory L2_KSTACK i) :
    Forest m place' := by
  have same : ∀ slot up i q, Hangs slot up i → place' up = some q →
      wordAt t.memory q i = wordAt s.memory q i := by
    intro slot up i q hangs there
    obtain ⟨kept, was⟩ := emptied.place_of_some there
    refine wordAt_congr fun k _ => (emptied.contents q ?_ _).1
    intro slot' below atSlot
    rw [twins.ok.unique was atSlot] at kept
    exact kept below
  have kept : ∀ {slot}, place' slot ≠ none → place slot ≠ none := by
    intro slot filled bare
    obtain ⟨p, there⟩ := Option.ne_none_iff_exists'.mp filled
    rw [(emptied.place_of_some there).2] at bare
    cases bare
  refine ⟨?_, ?_, ?_, ?_, ?_, ?_, ?_⟩
  · intro root' above' p there
    exact twins.forest.root root' above' p (emptied.place_of_some there).2
  · intro root' level' above' filled
    exact twins.forest.level root' level' above' (kept filled)
  · intro i filled
    exact twins.forest.stackTable i (kept filled)
  · intro i j filled
    exact twins.forest.stack i j (kept filled)
  · intro slot up i hangs filled
    have notBelow : ¬ Below root level above up := by
      intro below
      exact filled (emptied.emptied slot (below.down hangs low))
    rw [emptied.others up notBelow]
    exact twins.forest.parent slot up i hangs (kept filled)
  · intro slot up i q hangs there
    obtain ⟨notBelow, was⟩ := emptied.place_of_some there
    rw [cleared slot up i q hangs there]
    by_cases here : slot = node root level above
    · rw [if_pos here, here, emptied.emptied _ (below_node low)]
      rfl
    · rw [if_neg here, same slot up i q hangs there, emptied.others]
      · exact twins.forest.entry slot up i q hangs was
      · intro below
        exact notBelow (below.ascend hangs here low)
  · intro i small
    rw [window i small, emptied.others (.stackTable i) id]
    have unchanged : wordAt t.memory L2_KSTACK i = wordAt s.memory L2_KSTACK i := by
      refine wordAt_congr fun k _ => (emptied.contents L2_KSTACK ?_ _).1
      intro slot _ there
      exact (twins.ok.direct_of_place there).ne_window rfl
    rw [unchanged]
    exact twins.forest.window i small

/-- The entry above an emptied subtree is cleared. -/
theorem Emptied.clearEntry (emptied : Emptied (Below root level above) (Below root level above)
    live place place' s s' t t') (twins : Twins live place s s') (low : level ≤ 4)
    (hangs : Hangs (node root level above) up i) (there : place' up = some page) :
    Forest (setWord t.memory page i 0) place' := by
  refine emptied.forest twins low ?_ ?_
  · intro slot up' j q hangs' there'
    by_cases here : q = page ∧ j = i
    · obtain ⟨rfl, rfl⟩ := here
      obtain rfl := emptied.ok.unique there there'
      rw [if_pos (hangs'.slot_unique hangs)]
      exact wordAt_setWord (by decide)
    · rw [wordAt_setWord_of_ne (by tauto), if_neg]
      rintro rfl
      obtain ⟨rfl, rfl⟩ := hangs.up_unique hangs'
      rw [there] at there'
      cases there'
      exact here ⟨rfl, rfl⟩
  · intro j _
    exact wordAt_setWord_of_ne (.inl (emptied.ok.direct_of_place there).ne_window.symm)

theorem Agree.setWord (agree : Agree place s s') (page i word : Nat) :
    Agree place { s with memory := setWord s.memory page i word }
      { s' with memory := setWord s'.memory page i word } :=
  ⟨agree.kmem, fun slot p known there off less => setWord_agree (agree.contents slot p known there off less),
    fun off less => setWord_agree (agree.window off less)⟩

end Pmap

end Av6
