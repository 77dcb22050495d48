import Av6.PmapFree

/-!
# Unmapping a range

`uvmunmap_range` gives back the leaves of a range of addresses, and the tables in its way that
have become empty.
-/

namespace Av6

namespace Pmap

open FallibleState Kmem

variable {s s' t t' u u' : VmState} {live : CacheRef → Multiset Nat} {place place' place'' : Place}
  {slot up : Slot} {root level above page p left i l a c v vaStart vaEnd : Nat}
  {cut cut' : Nat → Prop} {region region' : Slot → Prop} {touched touched' : Nat → Prop}

/-- Leaves have been cut off below a node, and tables that have become empty with them. -/
structure Trimmed (root level above : Nat) (cut : Nat → Prop) (live : CacheRef → Multiset Nat)
    (place place' : Place) (s s' t t' : VmState) : Prop where
  twins : Twins live place' t t'
  fewer : ∀ slot p, place' slot = some p → place slot = some p
  frame : ∀ slot, ¬ Below root level above slot → place' slot = place slot
  top : place' (node root level above) = place (node root level above)
  gone : ∀ v, cut v → place' (.leaf root v) = none
  kept : ∀ v, ¬ cut v → place' (.leaf root v) = place (.leaf root v)
  contents : ∀ p, (∀ l a, Below root level above (.table root l a) → place (.table root l a) ≠ some p) →
    ∀ off, t.memory p off = s.memory p off ∧ t'.memory p off = s'.memory p off

/-- Nothing of what is to be cut is there. -/
theorem Trimmed.skip (twins : Twins live place s s') (bare : ∀ v, cut v → place (.leaf root v) = none) :
    Trimmed root level above cut live place place s s' s s' :=
  ⟨twins, fun _ _ => id, fun _ _ => rfl, rfl, bare, fun _ _ => rfl, fun _ _ _ => ⟨rfl, rfl⟩⟩

theorem Trimmed.congr (trimmed : Trimmed root level above cut live place place' s s' t t')
    (same : ∀ v, cut v ↔ cut' v) : Trimmed root level above cut' live place place' s s' t t' := by
  obtain rfl : cut = cut' := funext fun v => propext (same v)
  exact trimmed

/-- The addresses below a node meet a range. -/
def Meets (level above vaStart vaEnd : Nat) : Prop :=
  above * 2 ^ (48 - 9 * level) < vaEnd ∧ vaStart < (above + 1) * 2 ^ (48 - 9 * level)

/-- The pages whose places have been emptied are free now, and no others. -/
def Released (place place' : Place) (s t : VmState) : Prop :=
  ∃ freed, t.kmem.freelist = freed ++ s.kmem.freelist ∧
    ∀ p, p ∈ freed ↔ ∃ slot, place slot = some p ∧ place' slot = none

/-- The leaves of a range have been given back in a region of a page table, and the tables there
that meet the range and have become empty.  Only touched pages have been written to. -/
structure Swept (root : Nat) (region : Slot → Prop) (touched : Nat → Prop) (vaStart vaEnd : Nat)
    (live : CacheRef → Multiset Nat) (place place' : Place) (s s' t t' : VmState) : Prop where
  twins : Twins live place' t t'
  fewer : ∀ slot p, place' slot = some p → place slot = some p
  frame : ∀ slot, ¬ region slot → place' slot = place slot
  leaves : ∀ v, region (.leaf root v) → place' (.leaf root v) =
    if vaStart ≤ v * PGSIZE ∧ v * PGSIZE < vaEnd then none else place (.leaf root v)
  tables : ∀ l a q, region (.table root l a) → place (.table root l a) = some q →
    (place' (.table root l a) = none ↔
      Meets l a vaStart vaEnd ∧ ∀ j < TABLE_ENTRIES, wordAt t.memory q j = 0)
  released : Released place place' s t
  words : EntriesKept place place' s.memory t.memory
  contents : ∀ p, ¬ touched p → ∀ off, t.memory p off = s.memory p off ∧ t'.memory p off = s'.memory p off

theorem Released.trans {place₁ place₂ place₃ : Place} {s₁ s₂ s₃ : VmState}
    (first : Released place₁ place₂ s₁ s₂) (second : Released place₂ place₃ s₂ s₃)
    (fewer : ∀ slot p, place₂ slot = some p → place₁ slot = some p)
    (fewer' : ∀ slot p, place₃ slot = some p → place₂ slot = some p) :
    Released place₁ place₃ s₁ s₃ := by
  obtain ⟨freed, list, mem⟩ := first
  obtain ⟨freed', list', mem'⟩ := second
  refine ⟨freed' ++ freed, by rw [list', list, List.append_assoc], fun p => ?_⟩
  rw [List.mem_append, mem, mem']
  constructor
  · rintro (⟨slot, there, gone⟩ | ⟨slot, there, gone⟩)
    · exact ⟨slot, fewer slot p there, gone⟩
    · refine ⟨slot, there, ?_⟩
      by_contra filled
      obtain ⟨q, atSlot⟩ := Option.ne_none_iff_exists'.mp filled
      rw [fewer' slot q atSlot] at gone
      cases gone
  · rintro ⟨slot, there, gone⟩
    cases between : place₂ slot with
    | none => exact .inr ⟨slot, there, between⟩
    | some q =>
        have same := fewer slot q between
        rw [there] at same
        cases same
        exact .inl ⟨slot, between, gone⟩

/-- Nothing is in the region. -/
theorem Swept.skip (twins : Twins live place s s') (bare : ∀ slot, region slot → place slot = none) :
    Swept root region touched vaStart vaEnd live place place s s' s s' := by
  refine ⟨twins, fun _ _ => id, fun _ _ => rfl, ?_, ?_, ⟨[], rfl, ?_⟩, fun _ _ _ _ _ _ _ _ => rfl,
    fun _ _ _ => ⟨rfl, rfl⟩⟩
  · intro v inside
    rw [bare _ inside, ite_self]
  · intro l a q inside there
    rw [bare _ inside] at there
    cases there
  · intro p
    constructor
    · intro member
      cases member
    · rintro ⟨slot, there, gone⟩
      rw [there] at gone
      cases gone

/-- Two regions have been swept; the second time, no page of a table of the first was touched. -/
theorem Swept.trans {place₁ place₂ place₃ : Place} {s₁ s₂ s₃ s₁' s₂' s₃' : VmState}
    (first : Swept root region touched vaStart vaEnd live place₁ place₂ s₁ s₁' s₂ s₂')
    (second : Swept root region' touched' vaStart vaEnd live place₂ place₃ s₂ s₂' s₃ s₃')
    (apart : ∀ slot, region slot → ¬ region' slot)
    (untouched : ∀ l a q, region (.table root l a) → place₁ (.table root l a) = some q → ¬ touched' q) :
    Swept root (fun slot => region slot ∨ region' slot) (fun p => touched p ∨ touched' p) vaStart vaEnd
      live place₁ place₃ s₁ s₁' s₃ s₃' := by
  refine ⟨second.twins, ?_, ?_, ?_, ?_, first.released.trans second.released first.fewer second.fewer,
    first.words.trans second.words second.twins.forest ?_, ?_⟩
  · intro slot p there
    exact first.fewer slot p (second.fewer slot p there)
  · intro slot outside
    rw [not_or] at outside
    rw [second.frame slot outside.2, first.frame slot outside.1]
  · intro v inside
    by_cases here : region (.leaf root v)
    · rw [second.frame _ (apart _ here), first.leaves v here]
    · rw [second.leaves v (inside.resolve_left here), first.frame _ here]
  · intro l a q inside there
    by_cases here : region (.table root l a)
    · have same : ∀ j, wordAt s₃.memory q j = wordAt s₂.memory q j := fun j =>
        wordAt_congr fun k _ => (second.contents q (untouched l a q here there) _).1
      simp only [second.frame _ (apart _ here), first.tables l a q here there, same]
    · rw [← first.frame _ here] at there
      exact second.tables l a q (inside.resolve_left here) there
  · intro slot _ filled
    obtain ⟨p, there⟩ := Option.ne_none_iff_exists'.mp filled
    rw [second.fewer slot p there, first.fewer slot p (second.fewer slot p there)]
  · intro p outside off
    rw [not_or] at outside
    obtain ⟨same, same'⟩ := first.contents p outside.1 off
    obtain ⟨next, next'⟩ := second.contents p outside.2 off
    exact ⟨next.trans same, next'.trans same'⟩

/-- Regions with the same places, and the pages that may be touched. -/
theorem Swept.congr (swept : Swept root region touched vaStart vaEnd live place place' s s' t t')
    (same : ∀ slot, region slot ↔ region' slot) (more : ∀ p, touched p → touched' p) :
    Swept root region' touched' vaStart vaEnd live place place' s s' t t' := by
  obtain rfl : region = region' := funext fun slot => propext (same slot)
  exact ⟨swept.twins, swept.fewer, swept.frame, swept.leaves, swept.tables, swept.released,
    swept.words, fun p outside => swept.contents p fun is => outside (more p is)⟩

/-- Ranges that agree in the region. -/
theorem Swept.range {vaStart' vaEnd' : Nat}
    (swept : Swept root region touched vaStart' vaEnd' live place place' s s' t t')
    (leaves : ∀ v, region (.leaf root v) → (vaStart' ≤ v * PGSIZE ∧ v * PGSIZE < vaEnd' ↔
      vaStart ≤ v * PGSIZE ∧ v * PGSIZE < vaEnd))
    (tables : ∀ l a, region (.table root l a) → (Meets l a vaStart' vaEnd' ↔ Meets l a vaStart vaEnd)) :
    Swept root region touched vaStart vaEnd live place place' s s' t t' := by
  refine ⟨swept.twins, swept.fewer, swept.frame, fun v inside => ?_, fun l a q inside there => ?_,
    swept.released, swept.words, swept.contents⟩
  · simp only [swept.leaves v inside, leaves v inside]
  · rw [swept.tables l a q inside there, tables l a inside]

/-- A region that is larger by places that the range does not concern. -/
theorem Swept.extend (swept : Swept root region touched vaStart vaEnd live place place' s s' t t')
    (more : ∀ slot, region slot → region' slot)
    (leaves : ∀ v, region' (.leaf root v) → vaStart ≤ v * PGSIZE → v * PGSIZE < vaEnd →
      region (.leaf root v))
    (tables : ∀ l a, region' (.table root l a) → Meets l a vaStart vaEnd → region (.table root l a)) :
    Swept root region' touched vaStart vaEnd live place place' s s' t t' := by
  refine ⟨swept.twins, swept.fewer, fun slot outside => swept.frame slot fun is => outside (more slot is),
    fun v inside => ?_, fun l a q inside there => ?_, swept.released, swept.words, swept.contents⟩
  · by_cases here : region (.leaf root v)
    · exact swept.leaves v here
    · rw [swept.frame _ here, if_neg fun both => here (leaves v inside both.1 both.2)]
  · by_cases here : region (.table root l a)
    · exact swept.tables l a q here there
    · rw [swept.frame _ here, there]
      exact iff_of_false (Option.some_ne_none q) fun both => here (tables l a inside both.1)

/-- The places strictly below a node. -/
def Under (root level above : Nat) (slot : Slot) : Prop :=
  Below root level above slot ∧ slot ≠ node root level above

/-- The pages of the tables of a subtree. -/
def TablesBelow (place : Place) (root level above : Nat) (p : Nat) : Prop :=
  ∃ l a, Below root level above (.table root l a) ∧ place (.table root l a) = some p

/-- A function that sweeps a range below nodes of a level. -/
def Sweeps (live : CacheRef → Multiset Nat) (level : Nat) (unmap : Nat → Nat → Nat → Vm Unit) :
    Prop :=
  ∀ place s s' root above page vaStart vaEnd, Twins live place s s' →
    place (node root level above) = some page →
    above * 2 ^ (48 - 9 * level) ≤ vaStart → vaEnd ≤ (above + 1) * 2 ^ (48 - 9 * level) →
    Twin (unmap page vaStart vaEnd) s s' fun _ t t' => ∃ place',
      Swept root (Under root level above) (TablesBelow place root level above) vaStart vaEnd live
        place place' s s' t t'

theorem node_table (low : level < 4) : node root level above = .table root level above := by
  rw [node, if_neg (by omega)]

/-- The node at an entry is given back, and the entry is cleared. -/
theorem removeNode_twin {q : Nat} (twins : Twins live place s s') (low : level < 4)
    (number : c / TABLE_ENTRIES = above) (there : place (node root level above) = some page)
    (child : place (node root (level + 1) c) = some q)
    (childless : ∀ slot, Under root (level + 1) c slot → place slot = none)
    (inside : level = 3 → vaStart ≤ c * PGSIZE ∧ c * PGSIZE < vaEnd)
    (empty : level < 3 → Meets (level + 1) c vaStart vaEnd ∧
      ∀ j < TABLE_ENTRIES, wordAt s.memory q j = 0) :
    Twin (do freePage q; writePte page (c % TABLE_ENTRIES) 0) s s' fun _ t t' => ∃ place',
      Swept root (· = node root (level + 1) c) (· = page) vaStart vaEnd live place place' s s' t t' := by
  have hangs := @hangs_node root level above (c % TABLE_ENTRIES) low (Nat.mod_lt c (by decide))
  rw [← number, Nat.mul_comm, Nat.div_add_mod, number] at hangs
  refine (freePage_emptied twins (by omega) child fun slot below other =>
    childless slot ⟨below, other⟩).bind ?_
  rintro - t t' ⟨memory, memory', pushed, emptied⟩
  have there' : Function.update place (node root (level + 1) c) none (node root level above) =
      some page := by
    rw [Function.update_of_ne hangs.ne]
    exact there
  have notPage : q ≠ page := by
    rintro rfl
    exact hangs.ne (twins.ok.unique there child)
  refine .update ⟨_, ⟨emptied.ok.setMemory _, emptied.clearEntry twins (by omega) hangs there',
    emptied.agree.setWord page _ 0⟩, ?_, ?_, ?_, ?_, ⟨[q], ?_, ?_⟩, ?_, ?_⟩
  · intro slot p atSlot
    exact (some_of_update_none atSlot).2
  · intro slot outside
    exact Function.update_of_ne outside _ _
  · intro v here
    have last : level = 3 := by
      by_contra other
      rw [node_table (by omega)] at here
      cases here
    subst last
    obtain rfl : v = c := by
      rw [node, if_pos rfl] at here
      cases here
      rfl
    rw [if_pos (inside rfl), here, Function.update_self]
  · intro l a q' here atTable
    have table : level < 3 := by
      by_contra last
      rw [node, if_pos (by omega)] at here
      cases here
    have same : l = level + 1 ∧ a = c := by
      rw [node_table (by omega)] at here
      cases here
      exact ⟨rfl, rfl⟩
    obtain ⟨rfl, rfl⟩ := same
    rw [here, child] at atTable
    cases atTable
    obtain ⟨meets, zero⟩ := empty table
    refine iff_of_true (by rw [here, Function.update_self]) ⟨meets, fun j small => ?_⟩
    rw [wordAt_setWord_of_ne (.inl notPage), memory]
    exact zero j small
  · rw [pushed]
    rfl
  · intro p
    rw [List.mem_singleton]
    constructor
    · rintro rfl
      exact ⟨_, child, Function.update_self ..⟩
    · rintro ⟨slot, atSlot, gone⟩
      by_cases same : slot = node root (level + 1) c
      · rw [same, child] at atSlot
        cases atSlot
        rfl
      · rw [Function.update_of_ne same, atSlot] at gone
        cases gone
  · intro slot up i page' hangs' atUp before after
    rw [wordAt_setWord_of_ne, memory]
    by_contra both
    obtain ⟨rfl, rfl⟩ : page' = page ∧ i = c % TABLE_ENTRIES := by tauto
    obtain rfl := twins.ok.unique atUp there
    exact after (by rw [hangs'.slot_unique hangs, Function.update_self])
  · intro p other off
    dsimp only
    rw [setWord_apply_of_ne (.inl other), setWord_apply_of_ne (.inl other), memory, memory']
    exact ⟨rfl, rfl⟩

theorem tableIndex_entry (c level : Nat) : tableIndex (c * 2 ^ ptShift level) level = c % TABLE_ENTRIES := by
  unfold tableIndex
  rw [Nat.mul_div_cancel c (Nat.two_pow_pos _)]

/-- A leaf is below an entry when its address is in the part that the entry covers. -/
theorem below_entry_iff (low : level ≤ 3) : Below root (level + 1) c (.leaf root v) ↔
    c * 2 ^ ptShift level ≤ v * PGSIZE ∧ v * PGSIZE < (c + 1) * 2 ^ ptShift level := by
  unfold Below TABLE_ENTRIES ptShift PGSIZE
  obtain rfl | rfl | rfl | rfl : level = 0 ∨ level = 1 ∨ level = 2 ∨ level = 3 := by omega
  all_goals
    simp only [true_and]
    omega

/-- The addresses below a table are among those below the nodes above it. -/
theorem Below.span (below : Below root level c (.table root l a)) :
    c * 2 ^ (48 - 9 * level) ≤ a * 2 ^ (48 - 9 * l) ∧
      (a + 1) * 2 ^ (48 - 9 * l) ≤ (c + 1) * 2 ^ (48 - 9 * level) := by
  obtain ⟨-, le, high, rfl⟩ := below
  obtain ⟨d, rfl⟩ := Nat.exists_eq_add_of_le le
  have power : 2 ^ (48 - 9 * level) = TABLE_ENTRIES ^ d * 2 ^ (48 - 9 * (level + d)) := by
    rw [show TABLE_ENTRIES = 2 ^ 9 from rfl, ← Nat.pow_mul, ← Nat.pow_add]
    congr 1
    omega
  have positive : 0 < TABLE_ENTRIES ^ d := Nat.pow_pos (by decide)
  rw [power, Nat.add_sub_cancel_left, ← Nat.mul_assoc, ← Nat.mul_assoc]
  constructor
  · exact Nat.mul_le_mul_right _ (Nat.div_mul_le_self a _)
  · refine Nat.mul_le_mul_right _ ?_
    rw [Nat.add_mul, Nat.one_mul]
    exact Nat.lt_div_mul_add positive

/-- A round of the loop at the last level. -/
theorem unmapLeaf_twin (twins : Twins live place s s') (number : c / TABLE_ENTRIES = above)
    (there : place (node root 3 above) = some page) :
    Twin (unmapLeaf page vaStart vaEnd (c * 2 ^ ptShift 3)) s s' fun _ t t' => ∃ place',
      Swept root (Below root 4 c) (fun p => p = page ∨ TablesBelow place root 4 c p) vaStart vaEnd
        live place place' s s' t t' := by
  have hangs := @hangs_node root 3 above (c % TABLE_ENTRIES) (by omega) (Nat.mod_lt c (by decide))
  rw [← number, Nat.mul_comm, Nat.div_add_mod, number] at hangs
  have entry := twins.forest.entry _ _ _ _ hangs there
  have region : ∀ slot, slot = node root 4 c ↔ Below root 4 c slot := by
    intro slot
    constructor
    · rintro rfl
      exact below_node (Nat.le_refl 4)
    · exact below_leaf
  have size : 2 ^ ptShift 3 = PGSIZE := by decide
  unfold unmapLeaf
  rw [tableIndex_entry, size]
  refine (readPte_twin twins hangs there).bind ?_
  rintro _ _ _ ⟨rfl, rfl, rfl⟩
  split
  · rename_i valid
    obtain ⟨q, child⟩ := Option.ne_none_iff_exists'.mp (entry.isValid_iff.mp valid.1)
    rw [child] at entry
    rw [entry.ptePage_eq (twins.ok.direct_of_place child)]
    refine (removeNode_twin twins (by omega) number there child ?_ (fun _ => valid.2) ?_).mono ?_
    · rintro slot ⟨below, other⟩
      exact absurd (below_leaf below) other
    · intro other
      omega
    · rintro - t t' ⟨place', removed⟩
      exact ⟨place', removed.congr region fun p => .inl⟩
  · rename_i notBoth
    refine .ret ⟨place, ?_⟩
    have nothing : Swept root (fun _ => False) (fun p => p = page ∨ TablesBelow place root 4 c p)
        vaStart vaEnd live place place s s' s s' := .skip twins fun _ => False.elim
    by_cases filled : place (node root 4 c) = none
    · exact .skip twins fun slot below => by rw [below_leaf below, filled]
    · refine nothing.extend (fun _ => False.elim) ?_ ?_
      · intro v below first last
        have same := below_leaf below
        rw [node, if_pos rfl] at same
        cases same
        exact notBoth ⟨entry.isValid_iff.mpr filled, first, last⟩
      · rintro l a ⟨-, le, high, -⟩
        omega

theorem tableEmpty_twin {q : Nat} (twins : Twins live place s s') (known : slot.Known)
    (there : place slot = some q) :
    Twin (tableEmpty q) s s' fun r t t' => s = t ∧ s' = t' ∧
      (r = true ↔ ∀ j < TABLE_ENTRIES, wordAt s.memory q j = 0) := by
  have same : (∀ j < TABLE_ENTRIES, wordAt s'.memory q j = 0) ↔
      ∀ j < TABLE_ENTRIES, wordAt s.memory q j = 0 :=
    forall₂_congr fun j small => by rw [twins.agree.word known there small]
  refine ⟨decide (∀ j < TABLE_ENTRIES, wordAt s.memory q j = 0), s, s', rfl, ?_, rfl, rfl,
    decide_eq_true_iff⟩
  show Except.ok (decide (∀ j < TABLE_ENTRIES, wordAt s'.memory q j = 0), s') = _
  rw [decide_eq_decide.mpr same]

/-- All entries of a table are 0, so nothing is below it. -/
theorem Twins.childless {q : Nat} (twins : Twins live place s s') (low : level < 4)
    (there : place (node root level above) = some q)
    (empty : ∀ j < TABLE_ENTRIES, wordAt s.memory q j = 0) (below : Below root level above slot)
    (other : slot ≠ node root level above) : place slot = none := by
  obtain ⟨i, small, child⟩ := below.child low other
  have entry := twins.forest.entry _ _ _ _ (hangs_node low small) there
  rw [empty i small] at entry
  refine twins.forest.bare_below (by omega) ?_ child
  by_contra filled
  exact not_isValid_zero (entry.isValid_iff.mpr filled)

/-- A table that is not empty is kept. -/
theorem Swept.keep {q : Nat} (twins : Twins live place s s') (low : level < 4)
    (there : place (node root level above) = some q)
    (busy : ¬ ∀ j < TABLE_ENTRIES, wordAt s.memory q j = 0) :
    Swept root (· = node root level above) (fun _ => False) vaStart vaEnd live place place
      s s' s s' := by
  have nothing : Swept root (fun _ => False) (fun _ => False) vaStart vaEnd live place place
    s s' s s' := .skip twins fun _ => False.elim
  refine ⟨twins, nothing.fewer, fun _ _ => rfl, ?_, ?_, nothing.released, nothing.words,
    nothing.contents⟩
  · intro v here
    rw [node_table low] at here
    cases here
  · intro l a q' here atTable
    rw [here, there] at atTable
    cases atTable
    rw [here, there]
    exact iff_of_false (Option.some_ne_none q) fun both => busy both.2

theorem below_iff_under : (Under root level above slot ∨ slot = node root level above) ↔
    Below root level above slot ∨ slot = node root level above := by
  unfold Under
  tauto

/-- What is below a child is under the node. -/
theorem Below.under (below : Below root (level + 1) c slot) (low : level < 4)
    (number : c / TABLE_ENTRIES = above) : Under root level above slot := by
  refine ⟨below.of_number low number, ?_⟩
  rintro rfl
  exact not_below_child low below

/-- A round of the loop above the last level. -/
theorem unmapTable_twin {descend : Nat → Nat → Nat → Vm Unit} (low : level < 3)
    (sweeps : Sweeps live (level + 1) descend) (twins : Twins live place s s')
    (number : c / TABLE_ENTRIES = above) (there : place (node root level above) = some page)
    (meets : Meets (level + 1) c vaStart vaEnd) :
    Twin (unmapTable descend level page vaStart vaEnd (c * 2 ^ ptShift level)) s s' fun _ t t' =>
      ∃ place', Swept root (Below root (level + 1) c)
        (fun p => p = page ∨ TablesBelow place root (level + 1) c p) vaStart vaEnd live
        place place' s s' t t' := by
  have hangs := @hangs_node root level above (c % TABLE_ENTRIES) (by omega) (Nat.mod_lt c (by decide))
  rw [← number, Nat.mul_comm, Nat.div_add_mod, number] at hangs
  have entry := twins.forest.entry _ _ _ _ hangs there
  have covers : 48 - 9 * (level + 1) = ptShift level := by
    unfold ptShift
    omega
  have top := @below_node root (level + 1) c (by omega)
  unfold unmapTable
  rw [tableIndex_entry]
  refine (readPte_twin twins hangs there).bind ?_
  rintro _ _ _ ⟨rfl, rfl, rfl⟩
  split
  · rename_i valid
    obtain ⟨q, child⟩ := Option.ne_none_iff_exists'.mp (entry.isValid_iff.mp valid)
    rw [child] at entry
    rw [entry.ptePage_eq (twins.ok.direct_of_place child)]
    refine (sweeps _ _ _ _ _ _ _ _ twins child ?_ ?_).bind ?_
    · rw [covers]
      split <;> omega
    · rw [covers, Nat.add_mul, Nat.one_mul]
      split <;> omega
    · rintro - t t' ⟨place', swept⟩
      -- below the entry, the two ranges are the same
      have within : Swept root (Under root (level + 1) c) (TablesBelow place root (level + 1) c)
          vaStart vaEnd live place place' s s' t t' := by
        refine swept.range ?_ ?_
        · rintro v ⟨below, -⟩
          have span := (below_entry_iff (by omega)).mp below
          rw [Nat.add_mul, Nat.one_mul] at span
          split <;> split <;> omega
        · rintro l a ⟨below, -⟩
          have span := below.span
          rw [covers, Nat.add_mul c, Nat.one_mul] at span
          unfold Meets
          have positive : 0 < 2 ^ (48 - 9 * l) := Nat.two_pow_pos _
          rw [Nat.add_mul a, Nat.one_mul] at span ⊢
          split <;> split <;> omega
      have notPage : ∀ l a q', Below root (level + 1) c (.table root l a) →
          place (.table root l a) = some q' → q' ≠ page := by
        rintro l a q' below atTable rfl
        have same := twins.ok.unique atTable there
        rw [same] at below
        exact not_below_child (by omega) below
      have child' : place' (node root (level + 1) c) = some q := by
        rw [within.frame _ fun under => under.2 rfl]
        exact child
      have there' : place' (node root level above) = some page := by
        rw [within.frame _ fun under => not_below_child (by omega) under.1]
        exact there
      have whole : ∀ slot, (Under root (level + 1) c slot ∨ slot = node root (level + 1) c) ↔
          Below root (level + 1) c slot := by
        intro slot
        rw [below_iff_under, or_iff_left_of_imp]
        rintro rfl
        exact top
      have apart : ∀ slot, Under root (level + 1) c slot → ¬ slot = node root (level + 1) c :=
        fun _ => And.right
      refine (tableEmpty_twin within.twins ?_ child').bind ?_
      · rw [node_table (by omega)]
        trivial
      · rintro r _ _ ⟨rfl, rfl, empty⟩
        cases r with
        | false =>
            have kept : Swept root (· = node root (level + 1) c) (fun _ => False) vaStart vaEnd live
                place' place' t t' t t' :=
              .keep within.twins (by omega) child' fun zero => by cases empty.mpr zero
            refine .ret ⟨place', (within.trans kept apart fun _ _ _ _ _ => id).congr whole ?_⟩
            rintro p (below | false_)
            · exact .inr below
            · exact false_.elim
        | true =>
            have zero := empty.mp rfl
            refine (removeNode_twin within.twins (by omega) number there' child'
              (fun slot under => within.twins.childless (by omega) child' zero under.1 under.2)
              (fun last => by omega) fun _ => ⟨meets, zero⟩).mono ?_
            rintro - u u' ⟨place'', removed⟩
            refine ⟨place'', (within.trans removed apart ?_).congr whole ?_⟩
            · intro l a q' under atTable
              exact notPage l a q' under.1 atTable
            · rintro p (below | isPage)
              · exact .inr below
              · exact .inl isPage
  · rename_i invalid
    have bare : place (node root (level + 1) c) = none := by
      by_contra filled
      exact invalid (entry.isValid_iff.mpr filled)
    exact .ret ⟨place, .skip twins fun slot below => twins.forest.bare_below (by omega) bare below⟩

/-- The entries that the loop visits are entries of the table. -/
theorem entry_number {k : Nat} (low : level ≤ 3)
    (first : above * 2 ^ (48 - 9 * level) ≤ vaStart)
    (last : vaEnd ≤ (above + 1) * 2 ^ (48 - 9 * level))
    (less : k < (vaEnd - vaStart / 2 ^ ptShift level * 2 ^ ptShift level + (2 ^ ptShift level - 1))
      / 2 ^ ptShift level) :
    (vaStart / 2 ^ ptShift level + k) / TABLE_ENTRIES = above := by
  unfold ptShift TABLE_ENTRIES at *
  obtain rfl | rfl | rfl | rfl : level = 0 ∨ level = 1 ∨ level = 2 ∨ level = 3 := by omega
  all_goals omega

/-- The places below the entries from number `first` on, up to number `last`. -/
def Visited (root level first last : Nat) (slot : Slot) : Prop :=
  ∃ c, first ≤ c ∧ c < last ∧ Below root (level + 1) c slot

theorem Below.number_unique {c' : Nat} (below : Below root level c slot)
    (below' : Below root level c' slot) : c = c' := by
  cases slot with
  | table r l a => exact below.2.2.2.symm.trans below'.2.2.2
  | leaf r v => exact below.2.symm.trans below'.2
  | stackTable | stack | hand | client => exact below.elim

/-- The loop over the entries sweeps a range, if each round does for its entry. -/
theorem sweeps_of_rounds {round : Nat → Nat → Nat → Nat → Vm Unit} (low : level ≤ 3)
    (rounds : ∀ place s s' root above page vaStart vaEnd c, Twins live place s s' →
      c / TABLE_ENTRIES = above → place (node root level above) = some page →
      Meets (level + 1) c vaStart vaEnd →
      Twin (round page vaStart vaEnd (c * 2 ^ ptShift level)) s s' fun _ t t' => ∃ place',
        Swept root (Below root (level + 1) c) (fun p => p = page ∨ TablesBelow place root (level + 1) c p)
          vaStart vaEnd live place place' s s' t t') :
    Sweeps live level (fun page vaStart vaEnd =>
      (entriesIn level vaStart vaEnd).forM (round page vaStart vaEnd)) := by
  intro place s s' root above page vaStart vaEnd twins there first last
  have covers : 48 - 9 * (level + 1) = ptShift level := by
    unfold ptShift
    omega
  have positive : 0 < 2 ^ ptShift level := Nat.two_pow_pos _
  generalize sizeEq : 2 ^ ptShift level = size at positive
  have visits : (entriesIn level vaStart vaEnd).forM (round page vaStart vaEnd) =
      (List.range ((vaEnd - vaStart / size * size + (size - 1)) / size)).forM fun k =>
        round page vaStart vaEnd ((vaStart / size + k) * size) := by
    unfold entriesIn
    rw [sizeEq]
    simp only [← Nat.add_mul]
    exact List.forM_map
  have whole := Nat.div_mul_le_self vaStart size
  have within := Nat.lt_div_mul_add positive (a := vaStart)
  dsimp only
  rw [visits]
  have top := @below_node root level above (by omega)
  refine (Twin.forM_range (I := fun k t t' => ∃ place', Swept root
    (Visited root level (vaStart / size) (vaStart / size + k)) (TablesBelow place root level above)
    vaStart vaEnd live place place' s s' t t') _ ?_ ?_).mono ?_
  · rintro k less t t' ⟨place', swept⟩
    have number : (vaStart / size + k) / TABLE_ENTRIES = above := by
      rw [← sizeEq] at less ⊢
      exact entry_number low first last less
    have notVisited : ∀ slot, Visited root level (vaStart / size) (vaStart / size + k) slot →
        ¬ Below root (level + 1) (vaStart / size + k) slot := by
      rintro slot ⟨c, -, before, below⟩ below'
      rw [below.number_unique below'] at before
      exact Nat.lt_irrefl _ before
    have there' : place' (node root level above) = some page := by
      rw [swept.frame]
      · exact there
      · rintro ⟨c, -, before, below⟩
        exact not_below_child (by omega) below
    have meets : Meets (level + 1) (vaStart / size + k) vaStart vaEnd := by
      unfold Meets
      rw [covers, sizeEq]
      have before := (Nat.lt_div_iff_mul_lt positive).mp less
      rw [Nat.add_mul _ 1, Nat.add_mul, Nat.one_mul]
      omega
    have cuts := rounds _ _ _ root above page vaStart vaEnd _ swept.twins number there' meets
    rw [sizeEq] at cuts
    refine cuts.mono ?_
    rintro - u u' ⟨place'', next⟩
    refine ⟨place'', (swept.trans next notVisited ?_).congr ?_ ?_⟩
    · rintro l a q ⟨c, from_, before, below⟩ atTable (rfl | ⟨l', a', below', atTable'⟩)
      · have same := twins.ok.unique atTable there
        rw [same] at below
        exact not_below_child (by omega) below
      · have same := twins.ok.unique atTable (swept.fewer _ _ atTable')
        rw [same] at below
        exact notVisited _ ⟨c, from_, before, below⟩ below'
    · intro slot
      constructor
      · rintro (⟨c, from_, before, below⟩ | below)
        · exact ⟨c, from_, by omega, below⟩
        · exact ⟨_, Nat.le_add_right _ k, by omega, below⟩
      · rintro ⟨c, from_, before, below⟩
        by_cases here : c < vaStart / size + k
        · exact .inl ⟨c, from_, here, below⟩
        · obtain rfl : c = vaStart / size + k := by omega
          exact .inr below
    · rintro p (below | rfl | ⟨l, a, below, atTable⟩)
      · exact below
      · rw [node_table (by omega)] at top there
        exact ⟨_, _, top, there⟩
      · exact ⟨l, a, below.of_number (by omega) number, swept.fewer _ _ atTable⟩
  · refine ⟨place, .skip twins ?_⟩
    rintro slot ⟨c, from_, before, -⟩
    omega
  · rintro - t t' ⟨place', swept⟩
    generalize roundsEq : (vaEnd - vaStart / size * size + (size - 1)) / size = n at swept
    -- the last entry visited is not before the end of the range
    have end_ : vaEnd ≤ (vaStart / size + n) * size := by
      have round_ := Nat.lt_div_mul_add positive (a := vaEnd - vaStart / size * size + (size - 1))
      rw [roundsEq] at round_
      rw [Nat.add_mul]
      omega
    have visited : ∀ slot c, Below root (level + 1) c slot → c * size < vaEnd →
        vaStart < (c + 1) * size → Visited root level (vaStart / size) (vaStart / size + n) slot := by
      intro slot c below before after
      refine ⟨c, ?_, ?_, below⟩
      · exact Nat.le_of_lt_succ (Nat.div_lt_of_lt_mul (by rwa [Nat.mul_comm]))
      · exact Nat.lt_of_mul_lt_mul_right (Nat.lt_of_lt_of_le before end_)
    refine ⟨place', swept.extend ?_ ?_ ?_⟩
    · rintro slot ⟨c, from_, before, below⟩
      have number : c / TABLE_ENTRIES = above := by
        have number := @entry_number level above vaStart vaEnd (c - vaStart / size) low first last
        rw [sizeEq, roundsEq, Nat.add_sub_cancel' from_] at number
        exact number (by omega)
      exact below.under (by omega) number
    · rintro v ⟨below, other⟩ from_ before
      obtain ⟨i, small, child⟩ := below.child (by omega) other
      have span := (below_entry_iff low).mp child
      rw [sizeEq] at span
      exact visited _ _ child (by omega) (by omega)
    · rintro l a ⟨below, other⟩ ⟨before, after⟩
      obtain ⟨i, small, child⟩ := below.child (by omega) other
      have span := child.span
      rw [covers, sizeEq] at span
      exact visited _ _ child (by omega) (by omega)

theorem uvmunmapRange_sweeps (depth : level + left = 3) : Sweeps live level (uvmunmapRange left) := by
  induction left generalizing level with
  | zero =>
      obtain rfl : level = 3 := by omega
      refine sweeps_of_rounds (by omega) ?_
      intro place s s' root above page vaStart vaEnd c twins number there _
      exact unmapLeaf_twin twins number there
  | succ left ih =>
      obtain rfl : level = 2 - left := by omega
      have low : 2 - left < 3 := by omega
      refine sweeps_of_rounds (by omega) ?_
      intro place s s' root above page vaStart vaEnd c twins number there meets
      exact unmapTable_twin low (ih (by omega)) twins number there meets

/-- A sweep cuts off the leaves of its range. -/
theorem Swept.trimmed (swept : Swept root (Under root level above) (TablesBelow place root level above)
    vaStart vaEnd live place place' s s' t t') :
    Trimmed root level above (fun v => Under root level above (.leaf root v) ∧
      vaStart ≤ v * PGSIZE ∧ v * PGSIZE < vaEnd) live place place' s s' t t' := by
  refine ⟨swept.twins, swept.fewer, ?_, ?_, ?_, ?_, ?_⟩
  · intro slot notBelow
    exact swept.frame slot fun under => notBelow under.1
  · exact swept.frame _ fun under => under.2 rfl
  · intro v ⟨under, inside⟩
    rw [swept.leaves v under, if_pos inside]
  · intro v notCut
    by_cases under : Under root level above (.leaf root v)
    · rw [swept.leaves v under, if_neg fun inside => notCut ⟨under, inside⟩]
    · exact swept.frame _ under
  · intro p outside
    apply swept.contents p
    rintro ⟨l, a, below, atTable⟩
    exact outside l a below atTable

/-- `uvmunmap_range` of a page table sweeps the range. -/
theorem uvmunmapRange_twin (twins : Twins live place s s') (rooted : place (.table root 0 0) = some root)
    (small : vaEnd ≤ MAXUVA) :
    Twin (uvmunmapRange 3 root vaStart vaEnd) s s' fun _ t t' => ∃ place',
      Swept root (Under root 0 0) (TablesBelow place root 0 0) vaStart vaEnd live
        place place' s s' t t' := by
  refine uvmunmapRange_sweeps (show 0 + 3 = 3 from rfl) _ _ _ root 0 root _ _ twins rooted ?_ ?_
  · rw [Nat.zero_mul]
    exact Nat.zero_le _
  · have whole : (0 + 1) * 2 ^ (48 - 9 * 0) = MAXUVA := by simp [MAXUVA]
    rw [whole]
    exact small

/-- A leaf of a user address is under the root. -/
theorem under_root (small : v * PGSIZE < MAXUVA) : Under root 0 0 (.leaf root v) := by
  refine ⟨⟨rfl, ?_⟩, by rintro ⟨⟩⟩
  unfold TABLE_ENTRIES
  unfold MAXUVA PGSIZE at small
  omega

/-- `uvmdealloc` cuts the pages between two sizes off. -/
theorem uvmdealloc_twin {oldsz newsz : Nat} (twins : Twins live place s s')
    (rooted : place (.table root 0 0) = some root) (small : pgRoundUp oldsz ≤ MAXUVA) :
    Twin (uvmdealloc root oldsz newsz) s s' fun r t t' => ∃ place',
      r = (if oldsz ≤ newsz then oldsz else newsz) ∧
      Trimmed root 0 0 (fun v => newsz < oldsz ∧ pgRoundUp newsz ≤ v * PGSIZE ∧
        v * PGSIZE < pgRoundUp oldsz) live place place' s s' t t' := by
  unfold uvmdealloc
  split
  · refine .ret ⟨place, rfl, .skip twins fun v cut => ?_⟩
    omega
  · simp only [USER_BASE, Nat.zero_add]
    split
    · refine (uvmunmapRange_twin twins rooted small).bind ?_
      rintro - t t' ⟨place', swept⟩
      refine .ret ⟨place', rfl, swept.trimmed.congr fun v => ⟨fun cut => ⟨by omega, cut.2⟩, ?_⟩⟩
      rintro ⟨-, cut⟩
      exact ⟨under_root (by omega), cut⟩
    · refine .ret ⟨place, rfl, .skip twins fun v cut => ?_⟩
      omega

end Pmap

end Av6
