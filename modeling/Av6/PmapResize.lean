import Av6.ExecSlabs
import Av6.UserMemory

/-!
# Resizing an address space

`uvmalloc` puts zeroed pages at the end of an address space, or takes away those that it has put
there when it cannot go on; `uvmdealloc` takes pages away from the end.
-/

namespace Av6

namespace Pmap

open FallibleState Kmem Exec

variable {s s' t t' u u' : VmState} {live : CacheRef → Multiset Nat}
  {place₀ place place' place'' : Place} {s₀ s₀' : VmState} {root start a newsz oldsz p v rounds : Nat}

/-- Pages have been put into places of one page table or taken away, and those that stay have the
bytes that they had. -/
structure Reshaped (root : Nat) (live : CacheRef → Multiset Nat) (place place' : Place)
    (s s' t t' : VmState) : Prop where
  changed : Changed root live place place' s s' t t'
  between : ∀ slot, place slot ≠ none → place' slot ≠ none → place' slot = place slot
  words : EntriesKept place place' s.memory t.memory
  pages : ∀ v p off, place (.leaf root v) = some p → place' (.leaf root v) = some p →
    t.memory p off = s.memory p off

/-- The first of two runs, beside itself. -/
theorem Reshaped.left (reshaped : Reshaped root live place place' s s' t t') :
    Reshaped root live place place' s s t t :=
  ⟨reshaped.changed.left, reshaped.between, reshaped.words, reshaped.pages⟩

theorem Extended.reshaped (extended : Extended root live place place' s s' t t')
    (rooted : place (.table root 0 0) = some root) :
    Reshaped root live place place' s s' t t' := by
  refine ⟨extended.changed rooted, ?_, extended.words, ?_⟩
  · intro slot filled _
    obtain ⟨p, there⟩ := Option.ne_none_iff_exists'.mp filled
    rw [there, extended.keeps slot p there]
  · intro v p off there _
    exact (extended.pages v p off there).1

/-- Pages have been added, and then a range has been unmapped. -/
theorem Extended.swept {vaStart vaEnd : Nat} (extended : Extended root live place place' s s' t t')
    (rooted : place (.table root 0 0) = some root)
    (swept : Swept root (Under root 0 0) (TablesBelow place' root 0 0) vaStart vaEnd live
      place' place'' t t' u u') :
    Reshaped root live place place'' s s' u u' := by
  have keeps : ∀ slot, place slot ≠ none → place' slot = place slot := by
    intro slot filled
    obtain ⟨p, there⟩ := Option.ne_none_iff_exists'.mp filled
    rw [there, extended.keeps slot p there]
  have between : ∀ slot, place slot ≠ none → place'' slot ≠ none → place'' slot = place slot := by
    intro slot filled filled''
    obtain ⟨p, there⟩ := Option.ne_none_iff_exists'.mp filled''
    rw [← keeps slot filled, there, swept.fewer slot p there]
  have trimmed := swept.trimmed.changed extended.twins (extended.keeps _ _ rooted)
  refine ⟨(extended.changed rooted).trans trimmed, between, ?_, ?_⟩
  · exact extended.words.trans swept.words trimmed.twins.forest fun slot filled _ => keeps slot filled
  · intro v p off there _
    have there' := extended.keeps _ _ there
    have leaf : ¬ TablesBelow place' root 0 0 p := by
      rintro ⟨l, above, -, atTable⟩
      cases extended.twins.ok.unique there' atTable
    exact (swept.contents p leaf off).1.trans (extended.pages v p off there).1

/-- The address is translated as before, if it is mapped or not as before. -/
theorem Reshaped.translate_eq {va : Nat} (reshaped : Reshaped root live place place' s s t t)
    (twins : Twins live place s s) (rooted : place (.table root 0 0) = some root)
    (same : place' (leafSlot root va) = none ↔ place (leafSlot root va) = none) :
    translate t.memory root va = translate s.memory root va :=
  translate_kept twins reshaped.changed.twins rooted reshaped.changed.rooted reshaped.between
    reshaped.words same

/-- Zeroed pages for the user have been added from `start` up to `a`, and nothing else. -/
structure Widened (root start a : Nat) (live : CacheRef → Multiset Nat) (place place' : Place)
    (s s' t t' : VmState) : Prop where
  extended : Extended root live place place' s s' t t'
  others : ∀ v, ¬ (start ≤ v * PGSIZE ∧ v * PGSIZE < a) → place' (.leaf root v) = place (.leaf root v)
  added : ∀ v, start ≤ v * PGSIZE → v * PGSIZE < a → ∃ p, place' (.leaf root v) = some p ∧
    Maps t.memory place' root (v * PGSIZE) p PAGE_USER ∧ ∀ off < PGSIZE, t.memory p off = 0

theorem Widened.nothing (twins : Twins live place s s') :
    Widened root start start live place place s s' s s' := by
  refine ⟨.refl twins, fun _ _ => rfl, ?_⟩
  intro v low high
  omega

/-- One more page. -/
theorem Widened.next (widened : Widened root start a live place₀ place s₀ s₀' s s')
    (extended : Extended root live place place' s s' t t') (after : start ≤ a)
    (aligned : a % PGSIZE = 0)
    (others : ∀ v, v ≠ a / PGSIZE → place' (.leaf root v) = place (.leaf root v))
    (leaf : place' (leafSlot root a) = some p) (maps : Maps t.memory place' root a p PAGE_USER)
    (zero : ∀ off < PGSIZE, t.memory p off = 0) :
    Widened root start (a + PGSIZE) live place₀ place' s₀ s₀' t t' := by
  have whole : a / PGSIZE * PGSIZE = a := Nat.div_mul_cancel (Nat.dvd_of_mod_eq_zero aligned)
  have inside : ∀ v, v ≠ a / PGSIZE → v * PGSIZE < a + PGSIZE → v * PGSIZE < a := by
    intro v other high
    unfold PGSIZE at *
    omega
  refine ⟨widened.extended.trans extended, ?_, ?_⟩
  · intro v outside
    have other : v ≠ a / PGSIZE := by
      rintro rfl
      rw [whole] at outside
      unfold PGSIZE at outside
      omega
    rw [others v other]
    apply widened.others v
    intro both
    omega
  · intro v low high
    by_cases here : v = a / PGSIZE
    · subst here
      rw [whole]
      exact ⟨p, leaf, maps, zero⟩
    · obtain ⟨q, there, maps', zero'⟩ := widened.added v low (inside v here high)
      refine ⟨q, extended.keeps _ _ there, extended.maps maps' ?_, ?_⟩
      · rw [leafSlot_page]
        exact there
      · intro off less
        rw [(extended.pages v q off there).1]
        exact zero' off less

/-- What has been added is taken away. -/
theorem Widened.undo_twin (widened : Widened root start a live place₀ place s₀ s₀' s s')
    (rooted : place₀ (.table root 0 0) = some root)
    (free : ∀ v, start ≤ v * PGSIZE → place₀ (.leaf root v) = none) (after : start ≤ a)
    (aligned : a % PGSIZE = 0) (aligned' : start % PGSIZE = 0) (small : a ≤ MAXUVA) :
    Twin (do
      let _ ← uvmdealloc root a start
      return 0) s s' fun r t t' => r = 0 ∧ ∃ place', Reshaped root live place₀ place' s₀ s₀' t t' ∧
        ∀ v, place' (.leaf root v) = place₀ (.leaf root v) := by
  have rooted' := widened.extended.keeps _ _ rooted
  unfold uvmdealloc
  rw [pgRoundUp_aligned aligned small, pgRoundUp_aligned aligned' (by omega)]
  split
  · refine .ret ⟨rfl, place, widened.extended.reshaped rooted, ?_⟩
    intro v
    apply widened.others v
    omega
  · simp only [USER_BASE, Nat.zero_add]
    rw [if_pos (by omega)]
    apply Twin.bind ((uvmunmapRange_twin widened.extended.twins rooted' small).bind ?_) ?_
    · exact fun r t t' => ∃ place', Swept root (Under root 0 0) (TablesBelow place root 0 0) start a
        live place place' s s' t t'
    · intro _ t t' swept
      exact .ret swept
    · rintro _ t t' ⟨place', swept⟩
      refine .ret ⟨rfl, place', widened.extended.swept rooted swept, ?_⟩
      intro v
      by_cases inside : start ≤ v * PGSIZE ∧ v * PGSIZE < a
      · rw [swept.leaves v (under_root (by omega)), if_pos inside, free v inside.1]
      · rw [← widened.others v inside]
        by_cases under : Under root 0 0 (.leaf root v)
        · rw [swept.leaves v under, if_neg inside]
        · exact swept.frame _ under

/-- The assertion of `walk` at an address below the new size. -/
def PastEnd (newsz : Nat) : Panic → Prop
  | .walkRange va => MAXUVA ≤ va ∧ va < newsz
  | _ => False

/-- How `uvmalloc` ends: with a new size and the pages up to it, or with 0 and no page more. -/
def Enlarged (root start stop newsz : Nat) (live : CacheRef → Multiset Nat) (place : Place)
    (s s' : VmState) (r : Nat) (t t' : VmState) : Prop :=
  (r = 0 ∧ ∃ place', Reshaped root live place place' s s' t t' ∧
    ∀ v, place' (.leaf root v) = place (.leaf root v)) ∨
  r = newsz ∧ stop ≤ MAXUVA ∧ ∃ place', Widened root start stop live place place' s s' t t'

/-- The loop of `uvmalloc`. -/
theorem allocLoop_enlarges (widened : Widened root start a live place₀ place s₀ s₀' s s')
    (bare : place₀ (.hand 0) = none) (rooted : place₀ (.table root 0 0) = some root)
    (free : ∀ v, start ≤ v * PGSIZE → place₀ (.leaf root v) = none) (after : start ≤ a)
    (aligned : a % PGSIZE = 0) (aligned' : start % PGSIZE = 0) (small : a ≤ MAXUVA)
    (exact_ : rounds ≠ 0 → a + rounds * PGSIZE < newsz + PGSIZE) :
    TwinOr (PastEnd newsz) (allocLoop root start newsz rounds a) s s' fun r t t' =>
      Enlarged root start (a + rounds * PGSIZE) newsz live place₀ s₀ s₀' r t t' := by
  induction rounds generalizing place s s' a with
  | zero =>
      rw [Nat.zero_mul, Nat.add_zero]
      exact .ret (.inr ⟨rfl, small, place, widened⟩)
  | succ rounds ih =>
      have more := exact_ (Nat.succ_ne_zero rounds)
      rw [Nat.add_mul, Nat.one_mul] at more ⊢
      have whole : a / PGSIZE * PGSIZE = a := Nat.div_mul_cancel (Nat.dvd_of_mod_eq_zero aligned)
      have before : a < newsz := by omega
      have empty : place (leafSlot root a) = none := by
        have here := widened.others (a / PGSIZE) (by omega)
        rw [free _ (by omega)] at here
        exact here
      have safe : Safe (PastEnd newsz) place root a :=
        ⟨fun high => ⟨by omega, before⟩, fun filled => absurd empty filled⟩
      unfold allocLoop
      simp only [USER_BASE, Nat.zero_add]
      apply newPage_twinOr (fun _ => 0) widened.extended.twins safe (widened.extended.hand bare)
        (widened.extended.keeps _ _ rooted) aligned attributes_user fun p t t' _ _ => zeroPage_filled
      · intro p place' t t' extended others leaf maps below zero _
        have next := widened.next extended after aligned others leaf maps fun off less =>
          (zero off less).1
        have small' : a + PGSIZE ≤ MAXUVA := by
          unfold PGSIZE MAXUVA at *
          omega
        have aligned'' : (a + PGSIZE) % PGSIZE = 0 := by
          rw [Nat.add_mod_right]
          exact aligned
        have stop : a + PGSIZE + rounds * PGSIZE = a + (rounds * PGSIZE + PGSIZE) := by omega
        rw [← stop]
        exact ih next (by omega) aligned'' small' fun _ => by omega
      · intro place' t t' extended same _
        have still : Widened root start a live place₀ place' s₀ s₀' t t' := by
          refine ⟨widened.extended.trans extended, ?_, ?_⟩
          · intro v outside
            rw [same v, widened.others v outside]
          · intro v low high
            obtain ⟨q, there, maps, zero⟩ := widened.added v low high
            refine ⟨q, extended.keeps _ _ there, extended.maps maps ?_, ?_⟩
            · rw [leafSlot_page]
              exact there
            · intro off less
              rw [(extended.pages v q off there).1]
              exact zero off less
        apply (still.undo_twin rooted free after aligned aligned' small).orFails.mono
        rintro r u u' ⟨none_, undone⟩
        exact .inl ⟨none_, undone⟩

/-- `uvmalloc` adds the pages between two sizes, or none. -/
theorem uvmalloc_enlarges (twins : Twins live place s s') (bare : place (.hand 0) = none)
    (rooted : place (.table root 0 0) = some root) (small : oldsz ≤ MAXUVA)
    (below : ∀ v, place (.leaf root v) ≠ none → v * PGSIZE < oldsz) (le : oldsz ≤ newsz)
    (range : newsz < 2 ^ 63) :
    TwinOr (PastEnd newsz) (uvmalloc root oldsz newsz) s s' fun r t t' =>
      Enlarged root (pgRoundUp oldsz) (pgRoundUp newsz) newsz live place s s' r t t' := by
  have aligned : pgRoundUp oldsz % PGSIZE = 0 := Nat.mul_mod_left ..
  have bound : pgRoundUp oldsz ≤ MAXUVA := by
    unfold pgRoundUp pgRoundDown PGSIZE MAXUVA at *
    omega
  have free : ∀ v, pgRoundUp oldsz ≤ v * PGSIZE → place (.leaf root v) = none := by
    intro v high
    by_contra filled
    have low := below v filled
    unfold pgRoundUp pgRoundDown PGSIZE MAXUVA at *
    omega
  have stop : pgRoundUp oldsz + (newsz - pgRoundUp oldsz + (PGSIZE - 1)) / PGSIZE * PGSIZE =
      pgRoundUp newsz := by
    unfold pgRoundUp pgRoundDown PGSIZE MAXUVA at *
    omega
  unfold uvmalloc
  rw [if_neg (by omega), ← stop]
  apply allocLoop_enlarges (.nothing twins) bare rooted free (Nat.le_refl _) aligned aligned bound
  intro some_
  unfold PGSIZE at *
  omega

/-- `uvmdealloc` takes away the pages above a smaller size. -/
theorem uvmdealloc_reshapes (twins : Twins live place s s')
    (rooted : place (.table root 0 0) = some root) (small : oldsz ≤ MAXUVA)
    (below : ∀ v, place (.leaf root v) ≠ none → v * PGSIZE < oldsz) (less : newsz < oldsz) :
    Twin (uvmdealloc root oldsz newsz) s s' fun r t t' => r = newsz ∧ ∃ place',
      Reshaped root live place place' s s' t t' ∧ ∀ v, place' (.leaf root v) =
        if pgRoundUp newsz ≤ v * PGSIZE then none else place (.leaf root v) := by
  have bound : pgRoundUp oldsz ≤ MAXUVA := by
    unfold pgRoundUp pgRoundDown PGSIZE MAXUVA at *
    omega
  have le : oldsz ≤ pgRoundUp oldsz := by
    unfold pgRoundUp pgRoundDown PGSIZE MAXUVA at *
    omega
  have extended : Extended root live place place s s' s s' := .refl twins
  have free : ∀ v, pgRoundUp oldsz ≤ v * PGSIZE → place (.leaf root v) = none := by
    intro v high
    by_contra filled
    have low := below v filled
    omega
  unfold uvmdealloc
  rw [if_neg (by omega)]
  simp only [USER_BASE, Nat.zero_add]
  split
  · apply (uvmunmapRange_twin twins rooted bound).bind
    rintro _ t t' ⟨place', swept⟩
    refine .ret ⟨rfl, place', extended.swept rooted swept, ?_⟩
    intro v
    by_cases under : Under root 0 0 (.leaf root v)
    · rw [swept.leaves v under]
      by_cases high : v * PGSIZE < pgRoundUp oldsz
      · simp only [high, and_true]
      · rw [free v (by omega), ite_self, ite_self]
    · rw [swept.frame _ under]
      by_cases high : v * PGSIZE < pgRoundUp oldsz
      · exact absurd (under_root (by omega)) under
      · rw [free v (by omega), ite_self]
  · refine .ret ⟨rfl, place, extended.reshaped rooted, ?_⟩
    intro v
    split
    · exact free v (by omega)
    · rfl

/-- The loops of `uvmalloc` and `uvmunmap_range` make no slabs. -/
theorem uvmunmapRange_keepsSlabs (left table vaStart vaEnd : Nat) (s : VmState) :
    Moves KeepsSlabs (uvmunmapRange left table vaStart vaEnd) s := by
  induction left generalizing table vaStart vaEnd s with
  | zero =>
      apply Moves.forM
      intro va t
      apply (readPte_keepsSlabs _ _ t).bind
      intro pte u
      split
      · exact (freePage_keepsSlabs _ u).bind fun _ v => writePte_keepsSlabs _ _ _ v
      · exact .ret
  | succ left ih =>
      apply Moves.forM
      intro va t
      apply (readPte_keepsSlabs _ _ t).bind
      intro pte u
      split
      · apply (ih _ _ _ u).bind
        intro _ v
        have reads : Moves KeepsSlabs (tableEmpty (ptePage pte)) v := .read_bind .ret
        apply reads.bind
        intro empty w
        split
        · exact (freePage_keepsSlabs _ w).bind fun _ x => writePte_keepsSlabs _ _ _ x
        · exact .ret
      · exact .ret

theorem uvmdealloc_keepsSlabs (pagetable oldsz newsz : Nat) (s : VmState) :
    Moves KeepsSlabs (uvmdealloc pagetable oldsz newsz) s := by
  unfold uvmdealloc
  split
  · exact .ret
  · dsimp only
    split
    · exact (uvmunmapRange_keepsSlabs _ _ _ _ s).bind fun _ _ => .ret
    · exact .ret

theorem uvmalloc_keepsSlabs (pagetable oldsz newsz : Nat) (s : VmState) :
    Moves KeepsSlabs (uvmalloc pagetable oldsz newsz) s := by
  have loop : ∀ start rounds a s, Moves KeepsSlabs (allocLoop pagetable start newsz rounds a) s := by
    intro start rounds
    have gives : ∀ a t, Moves KeepsSlabs (do
        let _ ← uvmdealloc pagetable a start
        return 0) t :=
      fun _ t => (uvmdealloc_keepsSlabs _ _ _ t).bind fun _ _ => .ret
    induction rounds with
    | zero => exact fun _ _ => .ret
    | succ rounds ih =>
        intro a s
        unfold allocLoop
        apply (allocPage_keepsSlabs s).bind
        intro page t
        cases page with
        | none => exact gives a t
        | some mem =>
            apply (memory_keepsSlabs _ t).bind
            intro _ u
            apply (mappages_keepsSlabs _ _ _ _ _ u).bind
            intro mapped v
            split
            · exact ih _ v
            · exact (freePage_keepsSlabs _ v).bind fun _ w => gives a w
  unfold uvmalloc
  split
  · exact .ret
  · exact loop _ _ _ s

end Pmap

end Av6
