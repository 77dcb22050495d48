import Av6.KstackModel
import Av6.PmapGrowth

/-!
# The pages of kernel stacks

A stack is four pages below one table of the window.  `kstack_alloc` fills the four places of a
slot or, when pages run out, none of them; the table stays.  `kstack_free` empties them.
-/

namespace Av6

namespace Pmap

open FallibleState Kmem

variable {s s' t t' u u' : VmState} {live : CacheRef → Multiset Nat} {place place' : Place}
  {slot up : Slot} {idx i j k p page : Nat} {held held' : Nat → Prop}

/-- The place of a page of a kernel stack. -/
def stackSlot (idx i : Nat) : Slot := .stack (idx / 64) (idx % 64 * 8 + 4 + i)

/-- The places of a slot of the window, with the table above them. -/
def Slot.OfStack (idx : Nat) (slot : Slot) : Prop :=
  slot = .stackTable (idx / 64) ∨ ∃ i < KSTACK_PAGES, slot = stackSlot idx i

theorem attributes_kernel : Attributes PAGE_KERNEL := by decide

theorem kstackBaseVa_eq (idx : Nat) : kstackBaseVa idx = (2 ^ 52 - 2 ^ 36 + 511 * 2 ^ 18 + idx * 8 + 4) * 2 ^ 12 := by
  unfold kstackBaseVa KSTACK_WINDOW KSTACK_SLOT_PAGES KSTACK_GUARD_PAGES KSTACK_PAGES KERN_BASE PGSIZE
  omega

theorem stack_table (small : idx < KSTACK_NSLOTS) (low : i < KSTACK_PAGES) :
    tableIndex (kstackBaseVa idx + i * PGSIZE) 2 = idx / 64 := by
  rw [kstackBaseVa_eq]
  have slots : KSTACK_NSLOTS = 32768 := by decide
  rw [slots] at small
  unfold KSTACK_PAGES at low
  unfold tableIndex ptShift TABLE_ENTRIES PGSIZE
  omega

theorem stack_index (low : i < KSTACK_PAGES) :
    tableIndex (kstackBaseVa idx + i * PGSIZE) 3 = idx % 64 * 8 + 4 + i := by
  rw [kstackBaseVa_eq]
  unfold KSTACK_PAGES at low
  unfold tableIndex ptShift TABLE_ENTRIES PGSIZE
  omega

theorem hangs_stack (low : i < KSTACK_PAGES) :
    Hangs (stackSlot idx i) (.stackTable (idx / 64)) (idx % 64 * 8 + 4 + i) := by
  refine ⟨?_, 0, idx / 64, .inr (.inr ⟨rfl, rfl⟩)⟩
  unfold KSTACK_PAGES at low
  unfold TABLE_ENTRIES
  omega

theorem stack_childless (a b : Nat) (child : Slot) (j : Nat) : ¬ Hangs child (.stack a b) j := by
  rintro ⟨-, _, _, ⟨_, -, same, -⟩ | ⟨same, -⟩ | ⟨same, -⟩⟩ <;> cases same

theorem table_lt (small : idx < KSTACK_NSLOTS) : idx / 64 < TABLE_ENTRIES := by
  have slots : KSTACK_NSLOTS = 32768 := by decide
  unfold TABLE_ENTRIES
  omega

/-- A cleared table is hung into the window. -/
theorem Forest.plantStack {memory memory' : Memory} (forest : Forest memory place)
    (small : i < TABLE_ENTRIES) (bare : place (.stackTable i) = none)
    (entry : Entry (some p) (wordAt memory' L2_KSTACK i))
    (clear : ∀ j < TABLE_ENTRIES, wordAt memory' p j = 0)
    (others : ∀ slot up j q, Hangs slot up j → place up = some q →
      wordAt memory' q j = wordAt memory q j)
    (window : ∀ j < TABLE_ENTRIES, j ≠ i →
      wordAt memory' L2_KSTACK j = wordAt memory L2_KSTACK j) :
    Forest memory' (Function.update place (.stackTable i) (some p)) := by
  have below : ∀ slot up j, Hangs slot up j →
      Function.update place (.stackTable i) (some p) slot = place slot :=
    fun slot up j hangs => Function.update_of_ne (hangs.not_root.2 i) _ _
  refine ⟨?_, ?_, ?_, ?_, ?_, ?_, ?_⟩
  · intro root above q atRoot
    rw [Function.update_of_ne (by simp)] at atRoot
    exact forest.root root above q atRoot
  · intro root level above filled
    rw [Function.update_of_ne (by simp)] at filled
    exact forest.level root level above filled
  · intro j filled
    by_cases same : j = i
    · exact same ▸ small
    · rw [Function.update_of_ne (by simpa using same)] at filled
      exact forest.stackTable j filled
  · intro j k filled
    rw [Function.update_of_ne (by simp)] at filled
    exact forest.stack j k filled
  · intro slot up j hangs filled
    rw [below slot up j hangs] at filled
    by_cases same : up = .stackTable i
    · rw [same, Function.update_self]
      exact Option.some_ne_none _
    · rw [Function.update_of_ne same]
      exact forest.parent slot up j hangs filled
  · intro slot up j q hangs atUp
    rw [below slot up j hangs]
    by_cases same : up = .stackTable i
    · have bareBelow : place slot = none := by
        by_contra filled
        exact forest.parent slot up j hangs filled (by rw [same, bare])
      rw [same, Function.update_self] at atUp
      cases atUp
      rw [bareBelow]
      exact clear j hangs.1
    · rw [Function.update_of_ne same] at atUp
      rw [others slot up j q hangs atUp]
      exact forest.entry slot up j q hangs atUp
  · intro j less
    by_cases same : j = i
    · subst same
      rw [Function.update_self]
      exact entry
    · rw [Function.update_of_ne (by simpa using same), window j less same]
      exact forest.window j less

/-- A new table of the window has been cleared, and the window's entry is set. -/
theorem Twins.linkStack {next : Nat} (twins : Twins live place s s') (small : i < TABLE_ENTRIES)
    (bare : place (.stackTable i) = none) (taken : Taken live place next s t)
    (memory : t.memory = zeroPage s.memory next) (memory' : t'.memory = zeroPage s'.memory next)
    (kmem : t'.kmem = t.kmem) :
    Twins live (Function.update place (.stackTable i) (some next))
      { t with memory := setWord t.memory L2_KSTACK i (kvaToPa next ||| PTE_VALID ||| PTE_TABLE) }
      { t' with memory := setWord t'.memory L2_KSTACK i (kvaToPa next ||| PTE_VALID ||| PTE_TABLE) } := by
  have ok := taken.ok _ bare
  have direct : Direct next := ok.direct_of_place (Function.update_self (Slot.stackTable i) _ _)
  rw [Nat.or_assoc, memory, memory']
  refine ⟨ok.setMemory _, ?_, kmem, ?_, ?_⟩
  · refine twins.forest.plantStack small bare ?_ ?_ ?_ ?_
    · rw [wordAt_setWord (entry_lt direct attributes_table)]
      exact ⟨_, attributes_table, rfl⟩
    · intro j less
      rw [wordAt_setWord_of_ne (.inl direct.ne_window)]
      exact wordAt_zeroPage less
    · intro slot up j q hangs atUp
      have old : q ≠ next := by
        rintro rfl
        exact taken.fresh up atUp
      rw [wordAt_setWord_of_ne (.inl (twins.ok.direct_of_place atUp).ne_window)]
      exact wordAt_congr fun k _ => zeroPage_apply_of_ne old
    · intro j less other
      rw [wordAt_setWord_of_ne (.inr other)]
      exact wordAt_congr fun k _ => zeroPage_apply_of_ne direct.ne_window.symm
  · intro slot q known atSlot off less
    refine setWord_agree (zeroPage_agree less ?_)
    by_cases same : slot = .stackTable i
    · subst same
      rw [Function.update_self] at atSlot
      cases atSlot
      exact .inl rfl
    · rw [Function.update_of_ne same] at atSlot
      exact .inr (twins.agree.contents slot q known atSlot off less)
  · intro off less
    exact setWord_agree (zeroPage_agree less (.inr (twins.agree.window off less)))

theorem readWindow_twin (twins : Twins live place s s') (small : i < TABLE_ENTRIES) :
    Twin (readPte L2_KSTACK i) s s' fun r t t' => r = wordAt s.memory L2_KSTACK i ∧ s = t ∧ s' = t' := by
  have same : wordAt s'.memory L2_KSTACK i = wordAt s.memory L2_KSTACK i := by
    refine wordAt_congr fun k less => twins.agree.window _ ?_
    unfold TABLE_ENTRIES at small
    unfold PGSIZE
    omega
  refine ⟨wordAt s.memory L2_KSTACK i, s, s', rfl, ?_, rfl, rfl, rfl⟩
  show Except.ok (wordAt s'.memory L2_KSTACK i, s') = _
  rw [same]

/-- `kstack_walk` without `alloc` finds the table if it is there. -/
theorem kstackWalk_find (twins : Twins live place s s') (small : idx < KSTACK_NSLOTS)
    (low : i < KSTACK_PAGES) :
    Twin (kstackWalk (kstackBaseVa idx + i * PGSIZE) false) s s' fun r t t' => s = t ∧ s' = t' ∧
      r = (place (.stackTable (idx / 64))).map fun l3 => (l3, idx % 64 * 8 + 4 + i) := by
  unfold kstackWalk
  rw [stack_table small low, stack_index low]
  have entry := twins.forest.window _ (table_lt small)
  refine (readWindow_twin twins (table_lt small)).bind ?_
  rintro _ _ _ ⟨rfl, rfl, rfl⟩
  cases table : place (.stackTable (idx / 64)) with
  | none =>
      rw [table] at entry
      rw [if_neg fun valid => entry.isValid_iff.mp valid rfl]
      exact .ret ⟨rfl, rfl, rfl⟩
  | some l3 =>
      rw [table] at entry
      rw [if_pos (entry.isValid_iff.mpr (by simp)), entry.ptePage_eq (twins.ok.direct_of_place table)]
      exact .ret ⟨rfl, rfl, rfl⟩

/-- `kstack_walk` with `alloc` makes the table if it is missing, while there are pages. -/
theorem kstackWalk_alloc (twins : Twins live place s s') (small : idx < KSTACK_NSLOTS)
    (low : i < KSTACK_PAGES) :
    Twin (kstackWalk (kstackBaseVa idx + i * PGSIZE) true) s s' fun r t t' => ∃ place',
      Twins live place' t t' ∧ Grown (· = .stackTable (idx / 64)) place place' s s' t t' ∧
      (r = none ∧ takePages 1 s.kmem = none ∨ ∃ l3, r = some (l3, idx % 64 * 8 + 4 + i) ∧
        place' (.stackTable (idx / 64)) = some l3 ∧ ∃ n ≤ 1, takePages n s.kmem = some t.kmem) := by
  unfold kstackWalk
  rw [stack_table small low, stack_index low]
  have entry := twins.forest.window _ (table_lt small)
  refine (readWindow_twin twins (table_lt small)).bind ?_
  rintro _ _ _ ⟨rfl, rfl, rfl⟩
  cases table : place (.stackTable (idx / 64)) with
  | some l3 =>
      rw [table] at entry
      rw [if_pos (entry.isValid_iff.mpr (by simp)), entry.ptePage_eq (twins.ok.direct_of_place table)]
      exact .ret ⟨place, twins, .refl .., .inr ⟨l3, rfl, table, 0, Nat.zero_le 1, rfl⟩⟩
  | none =>
      rw [table] at entry
      rw [if_neg fun valid => entry.isValid_iff.mp valid rfl, if_pos rfl]
      refine (ptalloc_twin twins.ok twins.agree.kmem).bind ?_
      rintro r t t' ⟨kmem, ⟨rfl, memory, memory', dry⟩ | ⟨next, rfl, memory, memory', taken⟩⟩
      · exact .ret ⟨place, twins.dry dry memory memory' kmem, .of_memory memory memory',
          .inl ⟨rfl, takePages_dry dry.runs⟩⟩
      · refine .update_bind ?_
        have linked := twins.linkStack (table_lt small) table taken memory memory' kmem
        have entry' := linked.forest.window _ (table_lt small)
        rw [Function.update_self] at entry'
        refine (readWindow_twin linked (table_lt small)).bind ?_
        rintro _ _ _ ⟨rfl, rfl, rfl⟩
        rw [entry'.ptePage_eq (linked.ok.direct_of_place (Function.update_self ..))]
        refine .ret ⟨_, linked, ⟨?_, ?_, ?_, ?_⟩, .inr ⟨next, rfl,
          Function.update_self .., 1, Nat.le_refl 1, takePages_one taken.runs⟩⟩
        · intro slot q atSlot
          rw [Function.update_of_ne]
          · exact atSlot
          · rintro rfl
            rw [table] at atSlot
            cases atSlot
        · intro slot other
          exact Function.update_of_ne other _ _
        · intro slot up j q _ atUp _ _
          have old : q ≠ next := by
            rintro rfl
            exact taken.fresh up atUp
          dsimp only
          rw [wordAt_setWord_of_ne (.inl (twins.ok.direct_of_place atUp).ne_window), memory]
          exact wordAt_congr fun k _ => zeroPage_apply_of_ne old
        · intro slot q off _ atSlot
          have old : q ≠ next := by
            rintro rfl
            exact taken.fresh slot atSlot
          have notWindow := (twins.ok.direct_of_place atSlot).ne_window
          dsimp only
          rw [setWord_apply_of_ne (.inl notWindow), setWord_apply_of_ne (.inl notWindow), memory,
            memory', zeroPage_apply_of_ne old, zeroPage_apply_of_ne old]
          exact ⟨rfl, rfl⟩

/-- A page without places below it is given back, and the entry above it is cleared. -/
theorem Twins.unhang (twins : Twins live place s s') (hangs : Hangs slot up i)
    (there : place up = some page) (child : place slot = some p)
    (childless : ∀ child j, ¬ Hangs child slot j) :
    Twin (do freePage p; writePte page i 0) s s' fun _ t t' =>
      Twins live (Function.update place slot none) t t' ∧
      (∀ q j, q ≠ page ∨ j ≠ i → wordAt t.memory q j = wordAt s.memory q j) ∧
      (∀ q off, q ≠ page →
        t.memory q off = s.memory q off ∧ t'.memory q off = s'.memory q off) ∧
      t.kmem = s.kmem.pushFree p := by
  refine (freePage_pushes twins.ok twins.agree.kmem child).bind ?_
  rintro - t t' ⟨memory, memory', kmem, pushed, ok⟩
  have pageWindow := (twins.ok.direct_of_place there).ne_window.symm
  refine .update ⟨⟨ok.setMemory _, ?_, ?_⟩, ?_, ?_, pushed⟩
  · rw [memory]
    refine twins.forest.relink (fun _ _ _ => twins.ok.unique) hangs there ?_ ?_ ?_ ?_ ?_
    · exact wordAt_setWord (by decide)
    · intro slot' up' j q _ _ other _
      exact wordAt_setWord_of_ne other
    · intro j _
      exact wordAt_setWord_of_ne (.inl pageWindow)
    · intro child j below
      exact absurd below (childless child j)
    · intro child j next below
      exact absurd below (childless child j)
  · exact (twins.agree.shrink (fun _ _ atSlot => (some_of_update_none atSlot).2) memory memory'
      kmem).setWord page i 0
  · intro q j other
    dsimp only
    rw [wordAt_setWord_of_ne other, memory]
  · intro q off other
    dsimp only
    rw [setWord_apply_of_ne (.inl other), setWord_apply_of_ne (.inl other), memory, memory']
    exact ⟨rfl, rfl⟩

/-- Only the places of one slot of the window have changed, with their entries and the table
above them, which is kept. -/
structure AroundStack (idx : Nat) (place place' : Place) (s s' t t' : VmState) : Prop where
  within : Within (Slot.OfStack idx) place place' s s' t t'
  keeps : ∀ q, place (.stackTable (idx / 64)) = some q → place' (.stackTable (idx / 64)) = some q
  words : ∀ slot up i q, Hangs slot up i → (∀ k < KSTACK_PAGES, slot ≠ stackSlot idx k) →
    place up = some q → wordAt t.memory q i = wordAt s.memory q i

theorem AroundStack.refl (idx : Nat) (place : Place) (s s' : VmState) :
    AroundStack idx place place s s' s s' :=
  ⟨.refl _ _ _ _, fun _ => id, fun _ _ _ _ _ _ _ => rfl⟩

theorem AroundStack.trans {place₁ place₂ place₃ : Place} {s₁ s₂ s₃ s₁' s₂' s₃' : VmState}
    (first : AroundStack idx place₁ place₂ s₁ s₁' s₂ s₂')
    (second : AroundStack idx place₂ place₃ s₂ s₂' s₃ s₃') :
    AroundStack idx place₁ place₃ s₁ s₁' s₃ s₃' := by
  refine ⟨first.within.trans second.within, fun q there => second.keeps q (first.keeps q there), ?_⟩
  intro slot up i q hangs other atUp
  have atUp' : place₂ up = some q := by
    by_cases table : up = .stackTable (idx / 64)
    · rw [table] at atUp ⊢
      exact first.keeps q atUp
    · rw [first.within.only up, atUp]
      rintro (same | ⟨k, -, rfl⟩)
      · exact table same
      · exact stack_childless _ _ _ _ hangs
  rw [second.words slot up i q hangs other atUp', first.words slot up i q hangs other atUp]

/-- Of the places of one slot of the window, some are filled; other places are as they were. -/
structure Stacked (idx : Nat) (held : Nat → Prop) (live : CacheRef → Multiset Nat)
    (place place' : Place) (s s' t t' : VmState) : Prop where
  twins : Twins live place' t t'
  around : AroundStack idx place place' s s' t t'
  filled : ∀ i < KSTACK_PAGES, place' (stackSlot idx i) ≠ none ↔ held i

theorem Stacked.within (stacked : Stacked idx held live place place' s s' t t') :
    Within (Slot.OfStack idx) place place' s s' t t' :=
  stacked.around.within

/-- The first of two runs, beside itself. -/
theorem Stacked.left (stacked : Stacked idx held live place place' s s' t t') :
    Stacked idx held live place place' s s t t :=
  ⟨stacked.twins.left, ⟨stacked.within.left, stacked.around.keeps, stacked.around.words⟩,
    stacked.filled⟩

theorem stackSlot_inj (same : stackSlot idx i = stackSlot idx j) : i = j := by
  unfold stackSlot at same
  simp only [Slot.stack.injEq] at same
  omega

/-- A page of a stack is given back. -/
theorem Stacked.unhang (stacked : Stacked idx held live place place' s s' t t')
    (low : i < KSTACK_PAGES) (table : place' (.stackTable (idx / 64)) = some page)
    (there : place' (stackSlot idx i) = some p) :
    Twin (do freePage p; writePte page (idx % 64 * 8 + 4 + i) 0) t t' fun _ u u' => ∃ place'',
      Stacked idx (fun k => held k ∧ k ≠ i) live place place'' s s' u u' ∧ u.kmem.freelist ≠ [] := by
  refine (stacked.twins.unhang (hangs_stack low) table there (stack_childless _ _)).mono ?_
  rintro - u u' ⟨twins, words, contents, pushed⟩
  have some_ : u.kmem.freelist ≠ [] := by
    rw [pushed]
    exact List.cons_ne_nil _ _
  have around : AroundStack idx place' (Function.update place' (stackSlot idx i) none)
      t t' u u' := by
    refine ⟨⟨fun slot other => Function.update_of_ne ?_ _ _, fun slot q off other atSlot => ?_⟩, ?_, ?_⟩
    · rintro rfl
      exact other (.inr ⟨i, low, rfl⟩)
    · refine contents q off ?_
      rintro rfl
      exact other (.inl (stacked.twins.ok.unique atSlot table))
    · intro q atTable
      rw [Function.update_of_ne (by rintro ⟨⟩), atTable]
    · intro slot up j q hangs other atUp
      refine words q j ?_
      by_contra both
      obtain ⟨rfl, rfl⟩ : q = page ∧ j = idx % 64 * 8 + 4 + i := by tauto
      obtain rfl := stacked.twins.ok.unique atUp table
      exact other i low (hangs.slot_unique (hangs_stack low))
  refine ⟨_, ⟨twins, stacked.around.trans around, fun k less => ?_⟩, some_⟩
  by_cases same : k = i
  · subst same
    rw [Function.update_self]
    simp
  · rw [Function.update_of_ne fun eq => same (stackSlot_inj eq), stacked.filled k less]
    exact (and_iff_left same).symm

theorem Stacked.congr (stacked : Stacked idx held live place place' s s' t t')
    (same : ∀ k < KSTACK_PAGES, held k ↔ held' k) : Stacked idx held' live place place' s s' t t' :=
  ⟨stacked.twins, stacked.around, fun k less => (stacked.filled k less).trans (same k less)⟩

theorem Stacked.table (stacked : Stacked idx held live place place' s s' t t')
    (low : i < KSTACK_PAGES) (isHeld : held i) :
    ∃ page p, place' (.stackTable (idx / 64)) = some page ∧ place' (stackSlot idx i) = some p := by
  have filled := (stacked.filled i low).mpr isHeld
  obtain ⟨p, there⟩ := Option.ne_none_iff_exists'.mp filled
  obtain ⟨page, table⟩ := Option.ne_none_iff_exists'.mp
    (stacked.twins.forest.parent _ _ _ (hangs_stack low) filled)
  exact ⟨page, p, table, there⟩

/-- The loop that unmaps a stack again. -/
theorem unwind_twin {n : Nat} (stacked : Stacked idx (· < n) live place place' s s' t t')
    (small : idx < KSTACK_NSLOTS) (few : n ≤ KSTACK_PAGES) :
    Twin ((List.range n).forM (unwindStack idx)) t t' fun _ u u' => ∃ place'',
      Stacked idx (fun _ => False) live place place'' s s' u u' := by
  refine (Twin.forM_range (I := fun j u u' => ∃ place'',
    Stacked idx (fun k => j ≤ k ∧ k < n) live place place'' s s' u u') n ?_ ?_).mono ?_
  · rintro j less u u' ⟨place₁, stacked'⟩
    have low : j < KSTACK_PAGES := by omega
    obtain ⟨page, p, table, there⟩ := stacked'.table low ⟨le_refl j, less⟩
    have hangs : Hangs (stackSlot idx j) _ _ := hangs_stack low
    have entry := stacked'.twins.forest.entry _ _ _ _ hangs table
    unfold unwindStack
    refine (kstackWalk_find stacked'.twins small low).bind ?_
    rintro _ _ _ ⟨rfl, rfl, rfl⟩
    rw [table]
    refine (readPte_twin stacked'.twins hangs table).bind ?_
    rintro _ _ _ ⟨rfl, rfl, rfl⟩
    rw [there] at entry
    rw [entry.ptePage_eq (stacked'.twins.ok.direct_of_place there)]
    refine (stacked'.unhang low table there).mono ?_
    rintro - v v' ⟨place₂, stacked₂, -⟩
    exact ⟨place₂, stacked₂.congr fun k _ => by omega⟩
  · exact ⟨place', stacked.congr fun k _ => by simp⟩
  · rintro - u u' ⟨place'', stacked'⟩
    exact ⟨place'', stacked'.congr fun k _ => iff_of_false (by omega) id⟩

/-- The window's table has been looked up or made. -/
theorem Stacked.grown {place₁ : Place} (stacked : Stacked idx held live place place' s s' t t')
    (twins : Twins live place₁ u u')
    (grown : Grown (· = .stackTable (idx / 64)) place' place₁ t t' u u') :
    Stacked idx held live place place₁ s s' u u' := by
  have around : AroundStack idx place' place₁ t t' u u' := by
    refine ⟨grown.within.mono fun slot => .inl, fun q => grown.keeps _ q, ?_⟩
    intro slot up j q hangs _ atUp
    apply grown.words.word_eq stacked.twins.forest twins.forest hangs atUp (grown.keeps up q atUp)
    exact grown.only slot (hangs.not_root.2 _)
  refine ⟨twins, stacked.around.trans around, fun k less => ?_⟩
  rw [grown.only (stackSlot idx k) (by rintro ⟨⟩)]
  exact stacked.filled k less

/-- A page that has been taken becomes the next page of a stack. -/
theorem Stacked.hang (stacked : Stacked idx (· < i) live place place' s s' t t')
    (low : i < KSTACK_PAGES) (bare : place' (.hand 0) = none)
    (table : place' (.stackTable (idx / 64)) = some page) (taken : Taken live place' p t u)
    (memory : u.memory = t.memory) (memory' : u'.memory = t'.memory) (kmem : u'.kmem = u.kmem) :
    ∃ place'', Stacked idx (· < i + 1) live place place'' s s'
      { u with memory := setWord u.memory page (idx % 64 * 8 + 4 + i) (kvaToPa p ||| PAGE_KERNEL) }
      { u' with
        memory := setWord u'.memory page (idx % 64 * 8 + 4 + i) (kvaToPa p ||| PAGE_KERNEL) } := by
  have free : place' (stackSlot idx i) = none := by
    by_contra filled
    exact absurd ((stacked.filled i low).mp filled) (lt_irrefl i)
  have same : ∀ q off, q ≠ p → u.memory q off = t.memory q off := by
    rw [memory]
    exact fun _ _ _ => rfl
  have same' : ∀ q off, q ≠ p → u'.memory q off = t'.memory q off := by
    rw [memory']
    exact fun _ _ _ => rfl
  have inHand := stacked.twins.inHand bare taken kmem same same'
  have table' : Function.update place' (.hand 0) (some p) (.stackTable (idx / 64)) = some page := by
    rw [Function.update_of_ne (by rintro ⟨⟩)]
    exact table
  have free' : Function.update place' (.hand 0) (some p) (stackSlot idx i) = none := by
    rw [Function.update_of_ne (by rintro ⟨⟩)]
    exact free
  have hung := inHand.hang (hangs_stack low) table' free' (stack_childless _ _)
    (Function.update_self ..) attributes_kernel False.elim
  rw [Function.update_idem] at hung
  have released : Function.update place' (.hand 0) none = place' := by
    rw [← bare]
    exact Function.update_eq_self ..
  rw [released] at hung
  refine ⟨_, hung, stacked.around.trans ⟨⟨?_, ?_⟩, ?_, ?_⟩, fun k less => ?_⟩
  · intro slot other
    refine Function.update_of_ne ?_ _ _
    rintro rfl
    exact other (.inr ⟨i, low, rfl⟩)
  · intro slot q off other atSlot
    have notTable : q ≠ page := by
      rintro rfl
      exact other (.inl (stacked.twins.ok.unique atSlot table))
    dsimp only
    rw [setWord_apply_of_ne (.inl notTable), setWord_apply_of_ne (.inl notTable), memory, memory']
    exact ⟨rfl, rfl⟩
  · intro q atTable
    rw [Function.update_of_ne (by rintro ⟨⟩), atTable]
  · intro slot up j q hangs other atUp
    dsimp only
    rw [wordAt_setWord_of_ne, memory]
    by_contra both
    obtain ⟨rfl, rfl⟩ : q = page ∧ j = idx % 64 * 8 + 4 + i := by tauto
    obtain rfl := stacked.twins.ok.unique atUp table
    exact other i low (hangs.slot_unique (hangs_stack low))
  · by_cases here : k = i
    · subst here
      rw [Function.update_self]
      simp
    · rw [Function.update_of_ne fun eq => here (stackSlot_inj eq), stacked.filled k less]
      omega

/-- The loop of `kstack_alloc` fills all places of the slot or none. -/
theorem stackLoop_twin {left : Nat} (stacked : Stacked idx (· < i) live place place' s s' t t')
    (small : idx < KSTACK_NSLOTS) (bare : place (.hand 0) = none) (all : left + i = KSTACK_PAGES) :
    Twin (stackLoop idx left i) t t' fun r u u' => (takePages (left * 2) t.kmem ≠ none → r = true) ∧
      ∃ place'', Stacked idx (fun _ => r = true) live place place'' s s' u u' := by
  induction left generalizing place' t t' i with
  | zero => exact .ret ⟨fun _ => rfl, place', stacked.congr fun k less => iff_of_true (by omega) rfl⟩
  | succ left ih =>
      have low : i < KSTACK_PAGES := by omega
      have gives : ∀ {place₁ u u'}, Stacked idx (· < i) live place place₁ s s' u u' →
          takePages ((left + 1) * 2) t.kmem = none →
          Twin (do
            (List.range i).forM (unwindStack idx)
            return false) u u' fun r v v' => (takePages ((left + 1) * 2) t.kmem ≠ none → r = true) ∧
              ∃ place'', Stacked idx (fun _ => r = true) live place place'' s s' v v' := by
        intro place₁ u u' stacked₁ dry
        refine (unwind_twin stacked₁ small (by omega)).bind ?_
        rintro - v v' ⟨place₂, stacked₂⟩
        exact .ret ⟨absurd dry, place₂, stacked₂.congr fun _ _ => by simp⟩
      unfold stackLoop
      refine (kstackWalk_alloc stacked.twins small low).bind ?_
      rintro _ u u' ⟨place₁, twins, grown, ⟨rfl, dry⟩ | ⟨l3, rfl, table, n, few, took⟩⟩
      · exact gives (stacked.grown twins grown) (takePages_mono (by omega) dry)
      · have stacked₁ := stacked.grown twins grown
        have bare₁ : place₁ (.hand 0) = none := by
          rw [stacked₁.within.only (.hand 0) (by rintro (same | ⟨_, -, same⟩) <;> cases same)]
          exact bare
        refine (allocPage_twin twins.ok twins.agree.kmem).bind ?_
        rintro _ v v' ⟨memory, memory', kmem, ⟨rfl, dry⟩ | ⟨p, rfl, taken⟩⟩
        · refine gives (stacked₁.grown (twins.dry dry memory memory' kmem) ?_) ?_
          · exact .of_memory memory memory'
          · refine takePages_mono (show n + 1 ≤ (left + 1) * 2 by omega) ?_
            rw [takePages_add, took, Option.bind_some, takePages_dry dry.runs]
        · refine .update_bind ?_
          obtain ⟨place₂, stacked₂⟩ := stacked₁.hang low bare₁ table taken memory memory' kmem
          refine (ih stacked₂ (by omega)).mono ?_
          rintro r w w' ⟨enough, ends⟩
          refine ⟨fun supplied => enough ?_, ends⟩
          have two : takePages (n + 1) t.kmem = some v.kmem := by
            rw [takePages_add, took, Option.bind_some, takePages_one taken.runs]
          apply takePages_after two
          exact fun dry => supplied (takePages_mono (by omega) dry)

/-- `kstack_alloc` fills the places of a free slot, or leaves them empty and returns 0. -/
theorem kstackAlloc_twin (twins : Twins live place s s') (small : idx < KSTACK_NSLOTS)
    (bare : place (.hand 0) = none) (free : ∀ i < KSTACK_PAGES, place (stackSlot idx i) = none) :
    Twin (kstackAlloc idx) s s' fun r t t' => (takePages (KSTACK_PAGES * 2) s.kmem ≠ none → r ≠ 0) ∧
      ∃ place', Stacked idx (fun _ => r ≠ 0) live place place' s s' t t' := by
  have inside : (idx + 1) * KSTACK_SLOT_PAGES * PGSIZE ≤ KSTACK_WINDOW_SIZE := by
    have slots : KSTACK_NSLOTS = 32768 := by decide
    have size : KSTACK_WINDOW_SIZE = 1073741824 := by decide
    rw [size]
    unfold KSTACK_SLOT_PAGES KSTACK_GUARD_PAGES KSTACK_PAGES PGSIZE
    omega
  have start : Stacked idx (· < 0) live place place s s' s s' :=
    ⟨twins, .refl _ _ _ _, fun i low => iff_of_false (not_not.mpr (free i low)) (by omega)⟩
  unfold kstackAlloc
  refine .check_bind inside ((stackLoop_twin start small bare rfl).bind ?_)
  have positive : 0 < KSTACK_WINDOW := by decide
  rintro (_ | _) t t' ⟨enough, place', stacked⟩
  · refine .ret ⟨fun supplied => ?_, place', stacked.congr fun _ _ => by simp⟩
    cases enough supplied
  · refine .ret ⟨fun _ => ?_, place', stacked.congr fun _ _ => iff_of_true rfl ?_⟩
    · omega
    · omega

/-- `kstack_free` empties the places of a slot.  If there was a page in them, one is free then. -/
theorem kstackFree_twin (twins : Twins live place s s') (small : idx < KSTACK_NSLOTS) :
    Twin (kstackFree idx) s s' fun _ t t' => ∃ place',
      Stacked idx (fun _ => False) live place place' s s' t t' ∧
      ((∃ k < KSTACK_PAGES, place (stackSlot idx k) ≠ none) → t.kmem.freelist ≠ []) := by
  refine (Twin.forM_range (I := fun j t t' => ∃ place', Stacked idx
    (fun k => j ≤ k ∧ place (stackSlot idx k) ≠ none) live place place' s s' t t' ∧
    ((∃ k < j, place (stackSlot idx k) ≠ none) → t.kmem.freelist ≠ [])) _ ?_ ?_).mono ?_
  · rintro i low t t' ⟨place', stacked, freed⟩
    have hangs : Hangs (stackSlot idx i) _ _ := hangs_stack low
    have skip : place' (stackSlot idx i) = none → ∃ place'', Stacked idx
        (fun k => i + 1 ≤ k ∧ place (stackSlot idx k) ≠ none) live place place'' s s' t t' ∧
        ((∃ k < i + 1, place (stackSlot idx k) ≠ none) → t.kmem.freelist ≠ []) := by
      intro bare
      have before : place (stackSlot idx i) = none := by
        by_contra filled
        exact (stacked.filled i low).mpr ⟨le_refl i, filled⟩ bare
      refine ⟨place', stacked.congr fun k less => ⟨fun holds => ⟨?_, holds.2⟩,
        fun holds => ⟨by omega, holds.2⟩⟩, ?_⟩
      · by_contra notAbove
        obtain rfl : k = i := by omega
        exact holds.2 before
      · rintro ⟨k, less, filled⟩
        by_cases last : k = i
        · rw [last] at filled
          exact absurd before filled
        · exact freed ⟨k, by omega, filled⟩
    unfold freeStackPage
    refine (kstackWalk_find stacked.twins small low).bind ?_
    rintro _ _ _ ⟨rfl, rfl, rfl⟩
    cases table : place' (.stackTable (idx / 64)) with
    | none =>
        refine .ret (skip ?_)
        by_contra filled
        exact stacked.twins.forest.parent _ _ _ hangs filled table
    | some l3 =>
        have entry := stacked.twins.forest.entry _ _ _ _ hangs table
        refine (readPte_twin stacked.twins hangs table).bind ?_
        rintro _ _ _ ⟨rfl, rfl, rfl⟩
        cases there : place' (stackSlot idx i) with
        | none =>
            rw [there] at entry
            rw [if_neg fun valid => entry.isValid_iff.mp valid rfl]
            exact .ret (skip there)
        | some p =>
            rw [there] at entry
            rw [if_pos (entry.isValid_iff.mpr (by simp)),
              entry.ptePage_eq (stacked.twins.ok.direct_of_place there)]
            refine (stacked.unhang low table there).mono ?_
            rintro - v v' ⟨place₁, stacked₁, some_⟩
            refine ⟨place₁, stacked₁.congr fun k _ => ?_, fun _ => some_⟩
            constructor
            · rintro ⟨⟨le, filled⟩, other⟩
              exact ⟨by omega, filled⟩
            · rintro ⟨less, filled⟩
              exact ⟨⟨by omega, filled⟩, by omega⟩
  · refine ⟨place, ⟨twins, .refl _ _ _ _, fun i _ => ?_⟩, ?_⟩
    · simp
    · rintro ⟨k, less, -⟩
      omega
  · rintro - t t' ⟨place', stacked, freed⟩
    refine ⟨place', stacked.congr fun k less => iff_of_false ?_ id, freed⟩
    rintro ⟨le, -⟩
    omega

end Pmap

end Av6
