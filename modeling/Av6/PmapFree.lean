import Av6.PmapSubtrees

/-!
# Giving page tables back

`freewalk` gives back every page of the subtree at a node, and no other; `uvmfree` does so for
a whole user page table.
-/

namespace Av6

namespace Pmap

open FallibleState Kmem

variable {s s' t t' u u' : VmState} {live : CacheRef → Multiset Nat} {place place' : Place}
  {slot up : Slot} {root level above page p left i : Nat}

/-- A function that gives back the subtrees at nodes of a level. -/
def Disposes (live : CacheRef → Multiset Nat) (level : Nat) (dispose : Nat → Vm Unit) : Prop :=
  ∀ place s s' root above page, Twins live place s s' → place (node root level above) = some page →
    Twin (dispose page) s s' fun _ t t' => ∃ place',
      Emptied (Below root level above) (Below root level above) live place place' s s' t t'

theorem Agree.shrink (agree : Agree place s s')
    (fewer : ∀ slot p, place' slot = some p → place slot = some p) (memory : t.memory = s.memory)
    (memory' : t'.memory = s'.memory) (kmem : t'.kmem = t.kmem) : Agree place' t t' := by
  refine ⟨kmem, ?_, ?_⟩
  · intro slot p known there off less
    rw [memory, memory']
    exact agree.contents slot p known (fewer slot p there) off less
  · rw [memory, memory']
    exact agree.window

theorem some_of_update_none (there : Function.update place slot none up = some p) :
    up ≠ slot ∧ place up = some p := by
  by_cases same : up = slot
  · subst same
    rw [Function.update_self] at there
    cases there
  · exact ⟨same, by rwa [Function.update_of_ne same] at there⟩

theorem below_leaf (below : Below root 4 above slot) : slot = node root 4 above := by
  cases slot with
  | leaf r v =>
      obtain ⟨rfl, eq⟩ := below
      rw [Nat.sub_self, Nat.pow_zero, Nat.div_one] at eq
      rw [node, if_pos rfl, eq]
  | table r l a =>
      obtain ⟨-, le, high, -⟩ := below
      omega
  | stackTable | stack | hand | client => exact below.elim

/-- A node with nothing below it is given back. -/
theorem freePage_emptied (twins : Twins live place s s') (low : level ≤ 4)
    (there : place (node root level above) = some page)
    (childless : ∀ slot, Below root level above slot → slot ≠ node root level above →
      place slot = none) :
    Twin (freePage page) s s' fun _ t t' => t.memory = s.memory ∧ t'.memory = s'.memory ∧
      t.kmem = s.kmem.pushFree page ∧
      Emptied (Below root level above) (Below root level above) live place
        (Function.update place (node root level above) none) s s' t t' := by
  refine (freePage_pushes twins.ok twins.agree.kmem there).mono ?_
  rintro - t t' ⟨memory, memory', kmem, pushed, ok⟩
  refine ⟨memory, memory', pushed, ok, ?_, ?_, ?_, ?_⟩
  · exact twins.agree.shrink (fun _ _ => fun there => (some_of_update_none there).2) memory memory' kmem
  · intro slot below
    by_cases same : slot = node root level above
    · rw [same, Function.update_self]
    · rw [Function.update_of_ne same]
      exact childless slot below same
  · intro slot notBelow
    rw [Function.update_of_ne]
    rintro rfl
    exact notBelow (below_node low)
  · intro p _ off
    rw [memory, memory']
    exact ⟨rfl, rfl⟩

theorem freePage_disposes : Disposes live 4 freePage := by
  intro place s s' root above page twins there
  refine (freePage_emptied twins (Nat.le_refl 4) there ?_).mono ?_
  · intro slot below other
    exact absurd (below_leaf below) other
  · rintro - t t' ⟨-, -, -, emptied⟩
    exact ⟨_, emptied⟩

theorem not_below_child (low : level < 4) : ¬ Below root (level + 1) i (node root level above) := by
  rw [node, if_neg (by omega)]
  rintro ⟨-, le, -⟩
  omega

/-- The places below the entries that `freewalk` has done. -/
def Done (root level above n : Nat) (slot : Slot) : Prop :=
  ∃ j < n, Below root (level + 1) (above * TABLE_ENTRIES + j) slot

/-- A round of the loop: the subtree at one entry is given back. -/
theorem freeEntry_twin {dispose : Nat → Vm Unit} (low : level < 4) (small : i < TABLE_ENTRIES)
    (disposes : Disposes live (level + 1) dispose)
    (there : place (node root level above) = some page)
    (done : Emptied (Done root level above i) (Below root level above) live place place' s s' t t')
    (forest : Forest t.memory place') :
    Twin (freeEntry dispose page i) t t' fun _ u u' => ∃ place'',
      Emptied (Done root level above (i + 1)) (Below root level above) live place place'' s s' u u' ∧
        Forest u.memory place'' := by
  have twins' : Twins live place' t t' := ⟨done.ok, forest, done.agree⟩
  have there' : place' (node root level above) = some page := by
    rw [done.others _ (by rintro ⟨j, -, below⟩; exact not_below_child low below)]
    exact there
  have hangs := @hangs_node root level above i low small
  have entry := forest.entry _ _ _ _ hangs there'
  have later : ∀ {slot}, Done root level above (i + 1) slot ↔ Done root level above i slot ∨
      Below root (level + 1) (above * TABLE_ENTRIES + i) slot := by
    intro slot
    constructor
    · rintro ⟨j, less, below⟩
      by_cases last : j = i
      · exact .inr (last ▸ below)
      · exact .inl ⟨j, by omega, below⟩
    · rintro (⟨j, less, below⟩ | below)
      · exact ⟨j, by omega, below⟩
      · exact ⟨i, by omega, below⟩
  refine (readPte_twin twins' hangs there').bind ?_
  rintro _ _ _ ⟨rfl, rfl, rfl⟩
  cases child : place' (node root (level + 1) (above * TABLE_ENTRIES + i)) with
  | none =>
      rw [child] at entry
      rw [if_neg fun valid => entry.isValid_iff.mp valid rfl]
      refine .ret ⟨place', ⟨done.ok, done.agree, ?_, ?_, done.contents⟩, forest⟩
      · intro slot gone
        rcases later.mp gone with before | below
        · exact done.emptied slot before
        · exact forest.bare_below (by omega) child below
      · intro slot notGone
        exact done.others slot fun before => notGone (later.mpr (.inl before))
  | some q =>
      rw [child] at entry
      rw [if_pos (entry.isValid_iff.mpr (by simp)),
        entry.ptePage_eq (done.ok.direct_of_place child)]
      refine (disposes _ _ _ _ _ _ twins' child).bind ?_
      rintro - u u' ⟨place'', emptied⟩
      have there'' : place'' (node root level above) = some page := by
        rw [emptied.others _ (not_below_child low)]
        exact there'
      refine .update ⟨place'', ⟨emptied.ok.setMemory _, emptied.agree.setWord page i 0, ?_, ?_, ?_⟩,
        emptied.clearEntry twins' (by omega) hangs there''⟩
      · intro slot gone
        by_cases below : Below root (level + 1) (above * TABLE_ENTRIES + i) slot
        · exact emptied.emptied slot below
        · rw [emptied.others slot below]
          exact done.emptied slot ((later.mp gone).resolve_right below)
      · intro slot notGone
        rw [emptied.others slot fun below => notGone (later.mpr (.inr below)),
          done.others slot fun before => notGone (later.mpr (.inl before))]
      · intro p untouched off
        have notPage : p ≠ page := by
          rintro rfl
          exact untouched _ (below_node (by omega)) there
        obtain ⟨first, first'⟩ := done.contents p untouched off
        obtain ⟨second, second'⟩ := emptied.contents p (fun slot below atSlot => untouched slot
          (below.of_child low small) (done.place_of_some atSlot).2) off
        dsimp only
        rw [setWord_apply_of_ne (.inl notPage), setWord_apply_of_ne (.inl notPage)]
        exact ⟨second.trans first, second'.trans first'⟩

/-- The loop gives back all that is below a table, and then the table is given back. -/
theorem disposes_of_loop {dispose : Nat → Vm Unit} (low : level < 4)
    (disposes : Disposes live (level + 1) dispose) :
    Disposes live level (fun page => do
      (List.range TABLE_ENTRIES).forM (freeEntry dispose page)
      freePage page) := by
  intro place s s' root above page twins there
  refine (Twin.forM_range (I := fun n t t' => ∃ place',
    Emptied (Done root level above n) (Below root level above) live place place' s s' t t' ∧
      Forest t.memory place') TABLE_ENTRIES ?_ ?_).bind ?_
  · rintro i small t t' ⟨place', done, forest⟩
    exact freeEntry_twin low small disposes there done forest
  · refine ⟨place, ⟨twins.ok, twins.agree, ?_, fun _ _ => rfl, fun _ _ _ => ⟨rfl, rfl⟩⟩, twins.forest⟩
    rintro slot ⟨j, less, _⟩
    omega
  · rintro - t t' ⟨place', done, forest⟩
    have there' : place' (node root level above) = some page := by
      rw [done.others _ (by rintro ⟨j, -, below⟩; exact not_below_child low below)]
      exact there
    refine (freePage_twin done.ok done.agree.kmem there').mono ?_
    rintro - u u' ⟨memory, memory', kmem, ok⟩
    refine ⟨_, ok, ?_, ?_, ?_, ?_⟩
    · exact done.agree.shrink (fun _ _ => fun there => (some_of_update_none there).2) memory
        memory' kmem
    · intro slot below
      by_cases same : slot = node root level above
      · rw [same, Function.update_self]
      · rw [Function.update_of_ne same]
        exact done.emptied slot (below.child low same)
    · intro slot notBelow
      rw [Function.update_of_ne, done.others]
      · rintro ⟨j, less, below⟩
        exact notBelow (below.of_child low less)
      · rintro rfl
        exact notBelow (below_node (by omega))
    · intro p untouched off
      rw [memory, memory']
      exact done.contents p untouched off

theorem freewalk_disposes (depth : level + left = 3) : Disposes live level (freewalk left) := by
  induction left generalizing level with
  | zero =>
      obtain rfl : level = 3 := by omega
      exact disposes_of_loop (by omega) freePage_disposes
  | succ left ih =>
      have low : level < 4 := by omega
      exact disposes_of_loop low (ih (by omega))

/-- A place of a user page table. -/
def Slot.Of (root : Nat) : Slot → Prop
  | .table r _ _ => r = root
  | .leaf r _ => r = root
  | _ => False

theorem Below.of (below : Below root level above slot) : slot.Of root := by
  cases slot with
  | table | leaf => exact below.1
  | stackTable | stack | hand | client => exact below.elim

/-- Every page of a tree is below its root. -/
theorem Forest.below_root {memory : Memory} (forest : Forest memory place) (of : slot.Of root)
    (filled : place slot ≠ none) : Below root 0 0 slot := by
  have table : ∀ l a, place (.table root l a) ≠ none → a / TABLE_ENTRIES ^ l = 0 := by
    intro l
    induction l with
    | zero =>
        intro a filled
        obtain ⟨p, there⟩ := Option.ne_none_iff_exists'.mp filled
        rw [(forest.root root a p there).1]
        rfl
    | succ l ih =>
        intro a filled
        have low := forest.level root (l + 1) a filled
        have parent : Hangs (.table root (l + 1) a) (.table root l (a / TABLE_ENTRIES))
            (a % TABLE_ENTRIES) := by
          refine ⟨Nat.mod_lt a (by decide), root, a / TABLE_ENTRIES, .inl ⟨l, by omega, rfl, ?_⟩⟩
          rw [Nat.mul_comm, Nat.div_add_mod]
        rw [Nat.pow_succ', ← Nat.div_div_eq_div_mul]
        exact ih _ (forest.parent _ _ _ parent filled)
  cases slot with
  | table r l a =>
      obtain rfl : r = root := of
      exact ⟨rfl, Nat.zero_le l, forest.level r l a filled, table l a filled⟩
  | leaf r v =>
      obtain rfl : r = root := of
      have parent : Hangs (.leaf r v) (.table r 3 (v / TABLE_ENTRIES)) (v % TABLE_ENTRIES) := by
        refine ⟨Nat.mod_lt v (by decide), r, v / TABLE_ENTRIES, .inr (.inl ⟨rfl, ?_⟩)⟩
        rw [Nat.mul_comm, Nat.div_add_mod]
      refine ⟨rfl, ?_⟩
      rw [Nat.sub_zero, Nat.pow_succ', ← Nat.div_div_eq_div_mul]
      exact table 3 _ (forest.parent _ _ _ parent filled)
  | stackTable | stack | hand | client => exact of.elim

/-- `uvmfree` gives back all pages of a user page table, and no other. -/
theorem uvmfree_twin (twins : Twins live place s s') (rooted : place (.table root 0 0) = some root) :
    Twin (uvmfree root) s s' fun _ t t' => ∃ place', Twins live place' t t' ∧
      Emptied (Slot.Of root) (Slot.Of root) live place place' s s' t t' := by
  refine (freewalk_disposes (show 0 + 3 = 3 from rfl) place s s' root 0 root twins rooted).mono ?_
  rintro - t t' ⟨place', emptied⟩
  have forest : Forest t.memory place' := by
    refine emptied.forest twins (by omega) ?_ fun _ _ => rfl
    intro slot up i q hangs _
    exact (if_neg (hangs.not_root.1 root 0)).symm
  have others : ∀ slot, ¬ Below root 0 0 slot → place' slot = place slot := emptied.others
  refine ⟨place', ⟨emptied.ok, forest, emptied.agree⟩, emptied.ok, emptied.agree, ?_, ?_, ?_⟩
  · intro slot of
    by_contra filled
    by_cases below : Below root 0 0 slot
    · exact filled (emptied.emptied slot below)
    · rw [others slot below] at filled
      exact below (twins.forest.below_root of filled)
  · intro slot notOf
    exact others slot fun below => notOf below.of
  · intro p untouched
    exact emptied.contents p fun slot below => untouched slot below.of

end Pmap

end Av6
