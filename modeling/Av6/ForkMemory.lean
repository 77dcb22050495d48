import Av6.CopyExact
import Av6.ExecSlabs
import Av6.ForkModel
import Av6.KmemObjects

/-!
# What making a process does to the memory

The rules for the memory that `fork` needs beside those for page tables and stacks: the two
requests to the slab allocator, as programs on the memory, and that no other part of `fork` makes
a slab.
-/

namespace Av6

namespace Fork

open FallibleState Kmem Pmap Exec

variable {s s' t t' u u' : VmState} {live : CacheRef → Multiset Nat} {place place' : Place}
  {c : CacheRef} {obj idx : Nat} {cpu : Fin NCPU_MAX}

/-- The same pages are managed for the same caches. -/
structure KeepsCaches (s t : VmState) : Prop where
  managed : t.kmem.managed = s.kmem.managed
  kmemCaches : t.kmem.kmemCaches = s.kmem.kmemCaches

theorem KeepsCaches.refl (s : VmState) : KeepsCaches s s := ⟨rfl, rfl⟩

theorem KeepsCaches.trans (first : KeepsCaches s t) (second : KeepsCaches t u) : KeepsCaches s u :=
  ⟨second.managed.trans first.managed, second.kmemCaches.trans first.kmemCaches⟩

theorem keepsCaches_of_slabs (keeps : KeepsSlabs s t) : KeepsCaches s t :=
  ⟨keeps.managed, keeps.kmemCaches⟩

theorem keepsCaches_of_served (served : Served s.kmem t.kmem) : KeepsCaches s t :=
  ⟨served.managed, served.kmemCaches⟩

theorem kstackWalk_keepsSlabs (va : Nat) (alloc : Bool) (s : VmState) :
    Moves KeepsSlabs (kstackWalk va alloc) s := by
  refine (readPte_keepsSlabs _ _ s).bind fun entry t => ?_
  split
  · exact .ret
  · split
    · apply (ptalloc_keepsSlabs t).bind
      intro l3 u
      cases l3 with
      | none => exact .ret
      | some l3 =>
          refine (writePte_keepsSlabs _ _ _ u).bind fun _ v => ?_
          exact (readPte_keepsSlabs _ _ v).bind fun _ _ => .ret
    · exact .ret

theorem unwindStack_keepsSlabs (idx j : Nat) (s : VmState) :
    Moves KeepsSlabs (unwindStack idx j) s := by
  apply (kstackWalk_keepsSlabs _ _ s).bind
  intro entry t
  cases entry with
  | none =>
      intro _ u runs
      cases runs
  | some entry =>
      refine (readPte_keepsSlabs _ _ t).bind fun _ u => ?_
      exact (freePage_keepsSlabs _ u).bind fun _ v => writePte_keepsSlabs _ _ _ v

theorem stackLoop_keepsSlabs (idx left i : Nat) (s : VmState) :
    Moves KeepsSlabs (stackLoop idx left i) s := by
  induction left generalizing i s with
  | zero => exact .ret
  | succ left ih =>
      have unwinds : ∀ t, Moves KeepsSlabs (do
          (List.range i).forM (unwindStack idx)
          return false : Vm Bool) t :=
        fun t => (Moves.forM (unwindStack_keepsSlabs idx) _ t).bind fun _ _ => .ret
      unfold stackLoop
      apply (kstackWalk_keepsSlabs _ _ s).bind
      intro entry t
      cases entry with
      | none => exact unwinds t
      | some entry =>
          apply (allocPage_keepsSlabs t).bind
          intro mem u
          cases mem with
          | none => exact unwinds u
          | some mem => exact (writePte_keepsSlabs _ _ _ u).bind fun _ v => ih _ v

theorem kstackAlloc_keepsSlabs (idx : Nat) (s : VmState) :
    Moves KeepsSlabs (kstackAlloc idx) s := by
  refine .check_bind ((stackLoop_keepsSlabs _ _ _ s).bind fun made t => ?_)
  split
  · exact .ret
  · exact .ret

theorem kstackFree_keepsSlabs (idx : Nat) (s : VmState) : Moves KeepsSlabs (kstackFree idx) s := by
  apply Moves.forM
  intro i t
  apply (kstackWalk_keepsSlabs _ _ t).bind
  intro entry u
  cases entry with
  | none => exact .ret
  | some entry =>
      refine (readPte_keepsSlabs _ _ u).bind fun pte v => ?_
      split
      · exact (freePage_keepsSlabs _ v).bind fun _ w => writePte_keepsSlabs _ _ _ w
      · exact .ret

theorem copyLoop_keepsSlabs (src dst rounds va : Nat) (s : VmState) :
    Moves KeepsSlabs (copyLoop src dst rounds va) s := by
  induction rounds generalizing va s with
  | zero => exact .ret
  | succ rounds ih =>
      unfold copyLoop
      refine Moves.bind (.check_bind ((walkLoop_keepsSlabs _ _ _ _ _ s).bind fun _ _ => .ret)) ?_
      intro entry t
      cases entry with
      | none => exact ih _ t
      | some entry =>
          refine (readPte_keepsSlabs _ _ t).bind fun pte u => ?_
          split
          · apply (allocPage_keepsSlabs u).bind
            intro mem v
            cases mem with
            | none => exact .ret
            | some mem =>
                refine (memory_keepsSlabs _ v).bind fun _ w => ?_
                refine (mappages_keepsSlabs _ _ _ _ _ w).bind fun mapped x => ?_
                split
                · exact ih _ x
                · exact (freePage_keepsSlabs _ x).bind fun _ _ => .ret
          · exact ih _ u

theorem copyFrom_keepsSlabs (src : Option Nat) (dst sz : Nat) (s : VmState) :
    Moves KeepsSlabs (copyFrom src dst sz) s := by
  unfold copyFrom
  cases src with
  | none =>
      dsimp only
      split
      · exact .ret
      · intro _ t runs
        cases runs
  | some src => exact copyLoop_keepsSlabs _ _ _ _ s

/-- Only the allocators change, and in both runs to the same. -/
theorem twins_of_kmem {a : AllocState} {live' : CacheRef → Multiset Nat} {whole : Multiset Nat}
    (twins : Twins live place s s') (served : Served s.kmem a) (after : KmemOk a live' whole)
    (accounts : Accounts place whole) :
    Twins live' place { s with kmem := a } { s' with kmem := a } := by
  refine ⟨⟨⟨whole, after, accounts⟩, served.held.trans twins.ok.held, ?_⟩, twins.forest, rfl,
    twins.agree.contents, twins.agree.window⟩
  show ∀ page ∈ a.managed, Direct page
  rw [served.managed]
  exact twins.ok.direct

/-- A request to the slab allocator. -/
theorem cacheAlloc_twin (cpu : Fin NCPU_MAX) (twins : Twins live place s s')
    (member : c ∈ s.kmem.kmemCaches) (useMag : c.useMag = true) :
    Twin (onKmem (kmemCacheAlloc cpu c)) s s' fun r t t' => t.memory = s.memory ∧
      t'.memory = s'.memory ∧ Served s.kmem t.kmem ∧ (r = none ∧ Twins live place t t' ∨
        ∃ obj, r = some obj ∧ Twins (live + Pi.single c {obj}) place t t') := by
  obtain ⟨⟨whole, kmem, accounts⟩, held, direct⟩ := twins.ok
  have free : ¬ GrowStuck (s.kmem.lock (.cache c)) c := by
    rintro ⟨-, -, -, locked, -⟩
    simp only [AllocState.lock, held, List.mem_singleton, Lock.cache.injEq] at locked
    subst locked
    cases useMag
  apply Twin.mono (Twin.of_part (kmemCacheAlloc_yields kmem member useMag (by simp [held])
    twins.ok.pageLocks free) twins.agree.kmem)
  rintro r t t' ⟨a, rfl, rfl, served, handed⟩
  refine ⟨rfl, rfl, served, ?_⟩
  rcases handed with ⟨rfl, after⟩ | ⟨obj, rfl, after⟩
  · exact .inl ⟨rfl, twins_of_kmem twins served after accounts⟩
  · exact .inr ⟨obj, rfl, twins_of_kmem twins served after accounts⟩

/-- An object is given back while there is a free page. -/
theorem cacheFree_twin (cpu : Fin NCPU_MAX) (twins : Twins (live + Pi.single c {obj}) place s s')
    (member : c ∈ s.kmem.kmemCaches) (useMag : c.useMag = true) (some_ : s.kmem.freelist ≠ []) :
    Twin (onKmem (kmemCacheFree cpu c obj)) s s' fun _ t t' => t.memory = s.memory ∧
      t'.memory = s'.memory ∧ Served s.kmem t.kmem ∧ Twins live place t t' := by
  obtain ⟨⟨whole, kmem, accounts⟩, held, direct⟩ := twins.ok
  have free : ¬ FreeStuck s.kmem cpu c := by
    rintro ⟨-, -, -, -, -, none_, -⟩
    exact some_ none_
  apply Twin.mono (Twin.of_part (kmemCacheFree_yields kmem member useMag (by simp [held])
    (by simp [held]) twins.ok.pageLocks free) twins.agree.kmem)
  rintro _ t t' ⟨a, rfl, rfl, served, after⟩
  exact ⟨rfl, rfl, served, twins_of_kmem twins served after accounts⟩

/-- An object that is handed out was not handed out before. -/
theorem object_fresh (twins : Twins (live + Pi.single c {obj}) place s s')
    (member : c ∈ s.kmem.kmemCaches) : obj ∉ live c := by
  obtain ⟨⟨whole, kmem, -⟩, -, -⟩ := twins.ok
  have low : ∀ p ∈ s.kmem.managed, p < pageLimit := fun p there => (kmem.slabs.pages.low p there).2
  have nodup := (kmem.slabs.cache c member).out_nodup low
  have two : live c + {obj} ≤ custody s.kmem (live + Pi.single c {obj}) c := by
    simp only [custody, Pi.add_apply, Pi.single_eq_same, add_assoc]
    rw [← add_assoc]
    exact Multiset.le_add_right _ _
  have once := Multiset.nodup_add.mp (Multiset.nodup_of_le two nodup)
  intro there
  exact Multiset.disjoint_left.mp once.2.2 there (Multiset.mem_singleton_self obj)

/-- The memory is the same after a request to the slab allocator. -/
theorem aroundStack_of_memory (around : AroundStack idx place place' s s' t t')
    (memory : u.memory = t.memory) (memory' : u'.memory = t'.memory) :
    AroundStack idx place place' s s' u u' := by
  obtain ⟨⟨only, contents⟩, keeps, words⟩ := around
  refine ⟨⟨only, ?_⟩, keeps, ?_⟩
  · rw [memory, memory']
    exact contents
  · rw [memory]
    exact words

/-- No place has changed, nor the pages in them. -/
theorem aroundStack_of_within (within : Within (fun _ => False) place place s s' t t') :
    AroundStack idx place place s s' t t' := by
  refine ⟨within.mono fun _ => False.elim, fun _ => id, ?_⟩
  intro slot up i q _ _ atUp
  exact wordAt_congr fun k _ => (within.contents up q _ id atUp).1

/-- A table of the window. -/
def IsWindowTable (slot : Slot) : Prop := ∃ i, slot = .stackTable i

/-- When the places of a slot are empty again, at most the table above them is new. -/
theorem grown_of_stacked (stacked : Stacked idx (fun _ => False) live place place' s s' t t')
    (free : ∀ i < KSTACK_PAGES, place (stackSlot idx i) = none) :
    Grown IsWindowTable place place' s s' t t' := by
  obtain ⟨twins, ⟨within, keeps, words⟩, filled⟩ := stacked
  have empty : ∀ i < KSTACK_PAGES, place' (stackSlot idx i) = none := by
    intro i low
    by_contra there
    exact (filled i low).mp there
  have outside : ∀ {slot : Slot}, ¬ IsWindowTable slot → (∀ i < KSTACK_PAGES, slot ≠ stackSlot idx i) →
      ¬ slot.OfStack idx := by
    rintro slot noTable noPage (same | ⟨i, low, same⟩)
    · exact noTable ⟨_, same⟩
    · exact noPage i low same
  refine ⟨?_, ?_, ?_, ?_⟩
  · intro slot p there
    by_cases table : slot = .stackTable (idx / 64)
    · subst table
      exact keeps p there
    · rw [within.only slot]
      · exact there
      · rintro (same | ⟨i, low, rfl⟩)
        · exact table same
        · rw [free i low] at there
          cases there
  · intro slot noTable
    by_cases page : ∃ i < KSTACK_PAGES, slot = stackSlot idx i
    · obtain ⟨i, low, rfl⟩ := page
      rw [empty i low, free i low]
    · exact within.only slot (outside noTable fun i low same => page ⟨i, low, same⟩)
  · intro slot up i page hangs atUp there _
    refine words slot up i page hangs ?_ atUp
    rintro k low rfl
    exact there (free k low)
  · intro slot p off noTable there
    refine within.contents slot p off (outside noTable ?_) there
    rintro i low rfl
    rw [free i low] at there
    cases there

/-- The pages of a process are copied to an empty page table, all of them or some. -/
theorem copyFrom_twin {src : Option Nat} {root sz : Nat} (twins : Twins live place s s')
    (bare : place (.hand 0) = none) (rooted : place (.table root 0 0) = some root)
    (empty : ∀ v, place (.leaf root v) = none) (small : sz ≤ MAXUVA)
    (source : ∀ r, src = some r → place (.table r 0 0) = some r ∧ r ≠ root)
    (kernel : src = none → sz = 0) :
    Twin (copyFrom src root sz) s s' fun r t t' => ∃ place', Extended root live place place' s s' t t' ∧
      (r = true → (∀ v, place' (.leaf root v) ≠ none → v * PGSIZE < sz) ∧
        (∀ r, src = some r → ∀ v, v * PGSIZE < sz → place (.leaf r v) ≠ none →
          place' (.leaf root v) ≠ none) ∧
        ∀ r, src = some r → (∀ v, place (.leaf r v) ≠ none → v * PGSIZE < sz) → ∀ va,
          Exec.userByte t.memory root va = Exec.userByte s.memory r va) := by
  unfold copyFrom
  cases src with
  | none =>
      dsimp only
      rw [if_pos (kernel rfl)]
      refine .ret ⟨place, .refl twins, fun _ => ⟨fun v filled => absurd (empty v) filled, ?_, ?_⟩⟩
      · rintro r ⟨⟩
      · rintro r ⟨⟩
  | some src =>
      obtain ⟨atSource, apart⟩ := source src rfl
      have safe : (∀ e, Pmap.Panic.OfMapping e → False) ∨ sz ≤ MAXUVA := .inr small
      apply (uvmcopy_twinOr twins apart bare atSource rooted empty safe).twin.mono
      rintro r t t' ⟨place', extended, -, copied⟩
      refine ⟨place', extended, fun all => ⟨fun v filled => ?_, ?_, ?_⟩⟩
      · by_contra high
        refine filled ((copied all).ahead v ?_)
        unfold PGSIZE at *
        omega
      · rintro r ⟨⟩ v low filled
        have page := (copied all).below v (by unfold PGSIZE at *; omega)
        obtain ⟨q, there⟩ := Option.ne_none_iff_exists'.mp filled
        rw [CopiedPage, there] at page
        obtain ⟨p, -, -, atChild, -⟩ := page
        rw [atChild]
        exact Option.some_ne_none p
      · rintro r ⟨⟩ inside va
        have tree : Exec.UserTree src live place s := ⟨twins.left, atSource⟩
        have exact_ := (copied all).left.exact tree ⟨twins.left, rooted⟩ apart inside
        exact exact_.userByte_eq va

end Fork

end Av6
