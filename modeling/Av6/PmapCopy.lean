import Av6.PmapGrowth

/-!
# Copying an address space

`uvmcopy` walks two page tables in step.  For each page of the first it takes a new one, copies
the contents, and maps it in the second with the same attributes.
-/

namespace Av6

namespace Pmap

open FallibleState Kmem

variable {s s' t t' s₀ s₀' : VmState} {live : CacheRef → Multiset Nat} {place place' place₀ : Place}
  {root src dst va p v flags rounds : Nat} {E : Panic → Prop} {m₀ : Memory}

/-- The page at a number has been copied, if there is one, to a page that was in no place. -/
def CopiedPage (src dst v : Nat) (place place' : Place) (memory memory' : Memory) : Prop :=
  match place (.leaf src v) with
  | none => place' (.leaf dst v) = none
  | some q => ∃ p flags, Attributes flags ∧ place' (.leaf dst v) = some p ∧
      (∀ slot, place slot ≠ some p) ∧ Maps memory place src (v * PGSIZE) q flags ∧
      Maps memory' place' dst (v * PGSIZE) p flags ∧ ∀ off < PGSIZE, memory' p off = memory q off

theorem CopiedPage.extended (copied : CopiedPage src dst v place₀ place m₀ s.memory)
    (extended : Extended dst live place place' s s' t t')
    (same : place' (.leaf dst v) = place (.leaf dst v)) :
    CopiedPage src dst v place₀ place' m₀ t.memory := by
  unfold CopiedPage at copied ⊢
  cases leaf : place₀ (.leaf src v) with
  | none =>
      rw [leaf] at copied
      exact same.trans copied
  | some q =>
      rw [leaf] at copied
      obtain ⟨p, flags, attributes, there, fresh, maps, maps', contents⟩ := copied
      refine ⟨p, flags, attributes, same.trans there, fresh, maps, ?_, ?_⟩
      · apply extended.maps maps'
        rw [leafSlot_page, there]
      · intro off less
        rw [(extended.pages v p off there).1, contents off less]

/-- The pages below an address have been copied, and there are no others yet. -/
structure Copied (src dst va : Nat) (live : CacheRef → Multiset Nat) (place₀ place : Place)
    (s₀ s₀' s s' : VmState) : Prop where
  extended : Extended dst live place₀ place s₀ s₀' s s'
  below : ∀ v, v * PGSIZE < va → CopiedPage src dst v place₀ place s₀.memory s.memory
  ahead : ∀ v, va ≤ v * PGSIZE → place (.leaf dst v) = none

/-- The next page has been done. -/
theorem Copied.next (copied : Copied src dst va live place₀ place s₀ s₀' s s')
    (more : Extended dst live place place' s s' t t') (aligned : va % PGSIZE = 0)
    (others : ∀ v, v ≠ va / PGSIZE → place' (.leaf dst v) = place (.leaf dst v))
    (here : CopiedPage src dst (va / PGSIZE) place₀ place' s₀.memory t.memory) :
    Copied src dst (va + PGSIZE) live place₀ place' s₀ s₀' t t' := by
  refine ⟨copied.extended.trans more, ?_, ?_⟩
  · intro v less
    by_cases same : v = va / PGSIZE
    · rw [same]
      exact here
    · have before : v * PGSIZE < va := by
        unfold PGSIZE at *
        omega
      exact (copied.below v before).extended more (others v same)
  · intro v le
    have other : v ≠ va / PGSIZE ∧ va ≤ v * PGSIZE := by
      unfold PGSIZE at *
      omega
    rw [others v other.1, copied.ahead v other.2]

/-- There is no page to be copied. -/
theorem Copied.skip (copied : Copied src dst va live place₀ place s₀ s₀' s s')
    (aligned : va % PGSIZE = 0) (hole : place₀ (leafSlot src va) = none) :
    Copied src dst (va + PGSIZE) live place₀ place s₀ s₀' s s' := by
  have whole : va / PGSIZE * PGSIZE = va := Nat.div_mul_cancel (Nat.dvd_of_mod_eq_zero aligned)
  apply copied.next (.refl copied.extended.twins) aligned (fun _ _ => rfl)
  unfold leafSlot at hole
  unfold CopiedPage
  rw [hole]
  exact copied.ahead _ (by omega)

theorem Copied.free (copied : Copied src dst va live place₀ place s₀ s₀' s s')
    (aligned : va % PGSIZE = 0) : place (leafSlot dst va) = none := by
  have whole : va / PGSIZE * PGSIZE = va := Nat.div_mul_cancel (Nat.dvd_of_mod_eq_zero aligned)
  exact copied.ahead (va / PGSIZE) (by omega)

/-- The page has been copied to a new one. -/
theorem Copied.page {q table : Nat} (copied : Copied src dst va live place₀ place s₀ s₀' s s')
    (apart : src ≠ dst) (aligned : va % PGSIZE = 0) (leaf : place (leafSlot src va) = some q)
    (last : place (pathSlot src va 3) = some table)
    (word : wordAt s.memory table (tableIndex va 3) = kvaToPa q ||| flags)
    (attributes : Attributes flags) (more : Extended dst live place place' s s' t t')
    (leaf' : place' (leafSlot dst va) = some p) (maps : Maps t.memory place' dst va p flags)
    (holds : ∀ off < PGSIZE, t.memory p off = s.memory q off) :
    CopiedPage src dst (va / PGSIZE) place₀ place' s₀.memory t.memory := by
  have within := copied.extended.within
  have whole : va / PGSIZE * PGSIZE = va := Nat.div_mul_cancel (Nat.dvd_of_mod_eq_zero aligned)
  have offPath : ¬ (pathSlot src va 3).Of dst := apart
  have offLeaf : ¬ (leafSlot src va).Of dst := apart
  rw [within.only _ offLeaf] at leaf
  rw [within.only _ offPath] at last
  unfold CopiedPage
  unfold leafSlot at leaf
  rw [leaf]
  dsimp only
  rw [whole]
  refine ⟨p, flags, attributes, leaf', ?_, ⟨table, last, ?_⟩, maps, ?_⟩
  · intro slot there
    have there' := copied.extended.keeps _ _ there
    have same := more.twins.ok.unique (more.keeps _ _ there') leaf'
    rw [same, copied.free aligned] at there'
    cases there'
  · rw [← word]
    exact wordAt_congr fun k _ => (within.contents _ _ _ offPath last).1.symm
  · intro off less
    rw [holds off less]
    exact (within.contents _ _ _ offLeaf leaf).1

/-- The loop of `uvmcopy` copies the pages of its range, or returns -1 for want of pages. -/
theorem copyLoop_twinOr (copied : Copied src dst va live place₀ place s₀ s₀' s s')
    (apart : src ≠ dst) (bare : place (.hand 0) = none) (source : place₀ (.table src 0 0) = some src)
    (rooted : place₀ (.table dst 0 0) = some dst) (aligned : va % PGSIZE = 0)
    (safe : (∀ e, Panic.OfMapping e → E e) ∨ va + rounds * PGSIZE ≤ MAXUVA) :
    TwinOr E (copyLoop src dst rounds va) s s' fun r t t' => ∃ place',
      Extended dst live place₀ place' s₀ s₀' t t' ∧ (takePages (rounds * 4) s.kmem ≠ none → r = true) ∧
      (r = true → Copied src dst (va + rounds * PGSIZE) live place₀ place' s₀ s₀' t t') := by
  induction rounds generalizing place s s' va with
  | zero =>
      refine .ret ⟨place, copied.extended, fun _ => rfl, fun _ => ?_⟩
      rwa [Nat.zero_mul, Nat.add_zero]
  | succ rounds ih =>
      have aligned' : (va + PGSIZE) % PGSIZE = 0 := by
        rw [Nat.add_mod_right]
        exact aligned
      have range : va + (rounds + 1) * PGSIZE = va + PGSIZE + rounds * PGSIZE := by
        rw [Nat.add_mul, Nat.one_mul, Nat.add_assoc, Nat.add_comm PGSIZE]
      rw [range] at safe ⊢
      have fewer : takePages ((rounds + 1) * 4) s.kmem ≠ none → takePages (rounds * 4) s.kmem ≠ none :=
        fun enough dry => enough (takePages_mono (by omega) dry)
      have onward : ∀ {place'}, Copied src dst (va + PGSIZE) live place₀ place' s₀ s₀' s s' →
          place' (.hand 0) = none → TwinOr E (copyLoop src dst rounds (va + PGSIZE)) s s'
            fun r t t' => ∃ place'', Extended dst live place₀ place'' s₀ s₀' t t' ∧
              (takePages ((rounds + 1) * 4) s.kmem ≠ none → r = true) ∧ (r = true →
                Copied src dst (va + PGSIZE + rounds * PGSIZE) live place₀ place'' s₀ s₀' t t') := by
        intro place' copied' bare'
        refine (ih copied' bare' aligned' safe).mono ?_
        rintro r t t' ⟨place'', extended, enough, all⟩
        exact ⟨place'', extended, fun more => enough (fewer more), all⟩
      have twins := copied.extended.twins
      have source' := copied.extended.keeps _ _ source
      have ofSource : place (leafSlot src va) = place₀ (leafSlot src va) :=
        copied.extended.within.only _ apart
      by_cases small : va < MAXUVA
      · refine (walk_find twins small source').bindOr ?_
        rintro _ _ _ ⟨rfl, rfl, rfl⟩
        have hangs := hangs_leaf src va
        cases last : place (pathSlot src va 3) with
        | none =>
            have hole : place (leafSlot src va) = none := by
              by_contra filled
              exact twins.forest.parent _ _ _ hangs filled last
            rw [ofSource] at hole
            exact onward (copied.skip aligned hole) bare
        | some table =>
            have entry := twins.forest.entry _ _ _ _ hangs last
            refine (readPte_twin twins hangs last).bindOr ?_
            rintro _ _ _ ⟨rfl, rfl, rfl⟩
            cases leaf : place (leafSlot src va) with
            | none =>
                rw [leaf] at entry
                rw [if_neg fun valid => entry.isValid_iff.mp valid rfl]
                rw [ofSource] at leaf
                exact onward (copied.skip aligned leaf) bare
            | some q =>
                rw [leaf] at entry
                obtain ⟨flags, attributes, word⟩ := id entry
                have direct := twins.ok.direct_of_place leaf
                rw [if_pos (entry.isValid_iff.mpr (by simp)), entry.ptePage_eq direct, word,
                  entry_xor direct attributes]
                have free := copied.free aligned
                have few := missing_le place dst va
                refine newPage_twinOr (s.memory q) twins (safe_of_free small free) bare
                  (copied.extended.keeps _ _ rooted) aligned attributes
                  (fun p t t' memory memory' => .update ⟨rfl, rfl, ?_, ?_⟩) ?_ ?_
                · exact fun q' off other => ⟨if_neg fun here => other here.1,
                    if_neg fun here => other here.1⟩
                · intro off less
                  have done := fun m : Memory => show copyPage m p q p off = m q off from
                    if_pos ⟨rfl, less⟩
                  have same := twins.agree.contents (leafSlot src va) q trivial leaf off less
                  dsimp only
                  rw [done, done, memory, memory']
                  exact ⟨rfl, same⟩
                · intro p place' u u' more others leaf' maps _ holds took
                  have here := copied.page apart aligned leaf last word attributes more leaf' maps
                    fun off less => (holds off less).1
                  refine (ih (copied.next more aligned others here) (more.hand bare) aligned'
                    safe).mono ?_
                  rintro r v v' ⟨place'', extended, enough, all⟩
                  refine ⟨place'', extended, fun supplied => enough ?_, all⟩
                  apply takePages_after took
                  exact fun dry => supplied (takePages_mono (by omega) dry)
                · intro place' u u' more _ dry
                  refine .ret ⟨place', copied.extended.trans more, fun supplied => ?_, fun failed => ?_⟩
                  · exact absurd (takePages_mono (by omega) dry) supplied
                  · cases failed
      · have fails : ∀ s, Fails (walk src va false) s (.walkRange va) :=
          fun s => Fails.check_bind small
        have allowed : ∀ e, Panic.OfMapping e → E e := by
          refine safe.resolve_right fun bound => small ?_
          unfold PGSIZE at bound
          omega
        exact TwinOr.fails (allowed (.walkRange va) trivial) (fails s).bind (fails s').bind

/-- `uvmcopy` into an empty page table. -/
theorem uvmcopy_twinOr {sz : Nat} (twins : Twins live place s s') (apart : src ≠ dst)
    (bare : place (.hand 0) = none) (source : place (.table src 0 0) = some src)
    (rooted : place (.table dst 0 0) = some dst) (empty : ∀ v, place (.leaf dst v) = none)
    (safe : (∀ e, Panic.OfMapping e → E e) ∨ sz ≤ MAXUVA) :
    TwinOr E (uvmcopy src dst sz) s s' fun r t t' => ∃ place',
      Extended dst live place place' s s' t t' ∧
      (takePages ((sz + (PGSIZE - 1)) / PGSIZE * 4) s.kmem ≠ none → r = true) ∧ (r = true →
        Copied src dst ((sz + (PGSIZE - 1)) / PGSIZE * PGSIZE) live place place' s s' t t') := by
  have start : Copied src dst 0 live place place s s' s s' :=
    ⟨.refl twins, fun v less => absurd less (by omega), fun v _ => empty v⟩
  have safe' : (∀ e, Panic.OfMapping e → E e) ∨ 0 + (sz + (PGSIZE - 1)) / PGSIZE * PGSIZE ≤ MAXUVA := by
    apply safe.imp id
    intro le
    unfold PGSIZE MAXUVA at *
    omega
  have ends := copyLoop_twinOr start apart bare source rooted rfl safe'
  rwa [Nat.zero_add] at ends

end Pmap

end Av6
