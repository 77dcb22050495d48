import Av6.PageHolders

/-!
# Runs of exit and wait

What `exit` and `wait` do to the pages: the address space of a process that exits is given back, and
the stack and the object of one that is reaped.  Neither call stops.
-/

namespace Av6

namespace Life

open FallibleState Kmem Pmap Elf Fork Sbrk Bitstring

variable {s t u : Kernel} {live live' : CacheRef → Multiset Nat} {place place' : Place}
  {pages : List Nat} {p np pid idx root : Nat} {q : Proc} {v w : VmState} {slot : Slot}
  {E : Pmap.Panic → Prop} {cpu : Fin NCPU_MAX}

/-- A process that has stayed in the list: it has its address space as before, or none. -/
structure Stays (place place' : Place) (s t : Kernel) (p : Nat) : Prop where
  listed : p ∈ s.allproc
  kslot : (t.procs p).kslot = (s.procs p).kslot
  used : bitTest t.kstackSlotmap (s.procs p).kslot = true
  space : (t.procs p).pagetable = none ∧ (t.procs p).sz = 0 ∨
    (t.procs p).pagetable = (s.procs p).pagetable ∧ (t.procs p).sz = (s.procs p).sz ∧
      ∀ r, (s.procs p).pagetable = some r → ∀ slot : Slot, slot.Of r → place' slot = place slot

/-- The invariant holds after a call by which no process has been added to the list. -/
theorem fewer_ok (ok : KernelOk live place s) (twins : Twins live' place' t.vm t.vm)
    (kept : KeepsCaches s.vm t.vm) (cache : t.procCache = s.procCache)
    (pids : t.pidmap.length = s.pidmap.length)
    (slots : t.kstackSlotmap.length = s.kstackSlotmap.length)
    (bare : place' (.hand 0) = place (.hand 0))
    (mapped : ∀ idx < KSTACK_NSLOTS, ∀ i < KSTACK_PAGES, place' (stackSlot idx i) ≠ none →
      bitTest t.kstackSlotmap idx = true)
    (objects : ∀ p ∈ t.allproc, p ∈ live' s.procCache)
    (stays : ∀ p ∈ t.allproc, Stays place place' s t p) : KernelOk live' place' t := by
  refine ⟨twins, bare.trans ok.bare, ?_, ?_, pids.trans ok.pids, slots.trans ok.slots, mapped, ?_, ?_, ?_⟩
  · rw [cache]
    exact ok.useMag
  · rw [cache, kept.kmemCaches]
    exact ok.member
  · rw [cache]
    exact objects
  · intro p there
    obtain ⟨listed, kslot, used, space⟩ := stays p there
    obtain ⟨small, -, before, kernel⟩ := ok.process p listed
    refine ⟨by rwa [kslot], by rwa [kslot], ?_, ?_⟩
    · intro r has
      rcases space with ⟨none_, -⟩ | ⟨table, size, same⟩
      · rw [none_] at has
        cases has
      · rw [table] at has
        rw [size]
        exact (before r has).congr (same r has)
    · intro none_
      rcases space with ⟨-, zero⟩ | ⟨table, size, -⟩
      · exact zero
      · rw [table] at none_
        rw [size]
        exact kernel none_
  · intro p there p' there' r has has'
    have table : ∀ p ∈ t.allproc, (t.procs p).pagetable = some r →
        (s.procs p).pagetable = some r := by
      intro p there has
      rcases (stays p there).space with ⟨none_, -⟩ | ⟨table, -⟩
      · rw [none_] at has
        cases has
      · rwa [table] at has
    exact ok.apart p (stays p there).listed p' (stays p' there').listed r
      (table p there has) (table p' there' has')

/-- An object without the fields that tell what the process is doing, and for whom. -/
def holdings (q : Proc) : Proc :=
  { q with state := .used, chan := 0, killed := 0, xstate := 0, parent := none }

theorem holdings_fields {q q' : Proc} (same : holdings q' = holdings q) :
    q'.kslot = q.kslot ∧ q'.kstack = q.kstack ∧ q'.tf = q.tf ∧ q'.pagetable = q.pagetable ∧
      q'.sz = q.sz ∧ q'.pid = q.pid := by
  have kslot := congrArg Proc.kslot same
  have kstack := congrArg Proc.kstack same
  have tf := congrArg Proc.tf same
  have table := congrArg Proc.pagetable same
  have size := congrArg Proc.sz same
  have pid := congrArg Proc.pid same
  exact ⟨kslot, kstack, tf, table, size, pid⟩

/-- Every process holds what it held, and the memory is the same. -/
structure SameSpaces (s t : Kernel) : Prop where
  rest : t = { s with procs := t.procs, runq := t.runq }
  object : ∀ p, holdings (t.procs p) = holdings (s.procs p)

theorem SameSpaces.refl (s : Kernel) : SameSpaces s s := ⟨rfl, fun _ => rfl⟩

theorem SameSpaces.trans (first : SameSpaces s t) (second : SameSpaces t u) : SameSpaces s u := by
  constructor
  · have rest := second.rest
    rw [first.rest] at rest
    exact rest
  · intro p
    exact (second.object p).trans (first.object p)

theorem SameSpaces.update {runq : List Nat} (object : holdings q = holdings (s.procs p)) :
    SameSpaces s { s with procs := Function.update s.procs p q, runq } := by
  refine ⟨rfl, ?_⟩
  intro p'
  dsimp only
  by_cases same : p' = p
  · rw [same, Function.update_self]
    exact object
  · rw [Function.update_of_ne same]

theorem SameSpaces.ok (same : SameSpaces s t) (ok : KernelOk live place s) :
    KernelOk live place t := by
  obtain ⟨rest, object⟩ := same
  generalize t.procs = procs at *
  generalize t.runq = runq at *
  subst rest
  refine fewer_ok ok ok.twins (.refl _) rfl rfl rfl rfl ok.mapped ok.objects ?_
  intro p there
  obtain ⟨kslot, -, -, table, size, -⟩ := holdings_fields (object p)
  exact ⟨there, kslot, (ok.process p there).used, .inr ⟨table, size, fun _ _ _ _ => rfl⟩⟩

theorem SameSpaces.housed (same : SameSpaces s t) (housed : Housed pages place s) :
    Housed pages place t := by
  have list : t.allproc = s.allproc := by rw [same.rest]
  apply housed.keep ⟨list, ?_⟩ (fun _ => rfl) (fun _ => rfl) (fun _ _ => rfl)
  · intro slot r of filled
    obtain ⟨p, there, has⟩ := housed.tree of filled
    obtain ⟨-, -, -, table, -⟩ := holdings_fields (same.object p)
    exact ⟨p, there, table.trans has⟩
  · intro p _
    obtain ⟨kslot, kstack, tf, -⟩ := holdings_fields (same.object p)
    exact ⟨kslot, kstack, tf⟩

theorem wakeup_sameSpaces (self chan : Nat) (s : Kernel) : SameSpaces s (wakeup self chan s) := by
  refine ⟨rfl, ?_⟩
  intro p
  show holdings (if _ then _ else _) = _
  split <;> rfl

theorem reparent_sameSpaces (p : Nat) (initproc : Option Nat) (s : Kernel) :
    SameSpaces s (reparent p initproc s) := by
  refine ⟨rfl, ?_⟩
  intro p
  show holdings (if _ then _ else _) = _
  split <;> rfl

theorem wakeParent_sameSpaces (p : Nat) (initproc : Option Nat) (s : Kernel) :
    SameSpaces s (wakeParent p initproc s) := by
  unfold wakeParent
  split
  · exact .refl s
  · split
    · exact .refl s
    · exact wakeup_sameSpaces _ _ _

theorem bury_sameSpaces (p : Nat) (initproc : Option Nat) (status : Int) (s : Kernel) :
    SameSpaces s (bury p initproc status s) := by
  have woken := (reparent_sameSpaces p initproc s).trans
    ((wakeup_sameSpaces p (initproc.getD 0) _).trans (wakeParent_sameSpaces p initproc _))
  exact woken.trans (SameSpaces.update rfl)

/-- The pages of other trees are as they were. -/
theorem within_of_emptied {v' w' : VmState} (twins : Twins live place v v')
    (emptied : Emptied (Slot.Of root) (Slot.Of root) live place place' v v' w w') :
    Within (Slot.Of root) place place' v v' w w' := by
  refine ⟨emptied.others, ?_⟩
  intro slot q off notOf there
  apply emptied.contents
  intro slot' of there'
  rw [twins.ok.unique there there'] at notOf
  exact notOf of

/-- The address space of a process that exits is given back. -/
theorem exitMemory_paired (ok : KernelOk live place s) (listed : p ∈ s.allproc) :
    Paired E (exitMemory p) s s.vm fun _ t _ => ∃ place', KernelOk live place' t ∧
      Reseated p place place' s t ∧ (t.procs p).pagetable = none := by
  unfold exitMemory
  apply Paired.read_bind rfl
  cases table : (s.procs p).pagetable with
  | none =>
      have still := @reseated_of_update s place place p s.vm (s.procs p) s.frames
        ⟨rfl, rfl, rfl, rfl, rfl, rfl⟩ (fun _ _ => rfl) (.refl _ _ _ _) fun r has _ _ _ => has
      rw [Function.update_eq_self] at still
      exact .ret ⟨place, ok, still, table⟩
  | some root =>
      have space := (ok.process p listed).space root table
      apply (Paired.onVm (uvmfree_twin ok.twins space.rooted).orFails (Exec.uvmfree_keepsSlabs _ _)).bind
      rintro _ _ w ⟨vm, rfl, ⟨place', twins, emptied⟩, kept⟩
      have within := within_of_emptied ok.twins emptied
      have outside : ∀ {slot : Slot}, (∀ r, ¬ slot.Of r) → place' slot = place slot :=
        fun notOf => emptied.others _ (notOf root)
      refine .update rfl ⟨place', ?_, ?_, ?_⟩
      · refine fewer_ok ok twins.left kept rfl rfl rfl (outside fun _ => id) ?_ ok.objects ?_
        · intro idx small i low filled
          rw [outside fun _ => id] at filled
          exact ok.mapped idx small i low filled
        · intro p' there
          have used := (ok.process p' there).used
          by_cases same : p' = p
          · subst same
            have own := Function.update_self p'
              ({ s.procs p' with pagetable := none, sz := 0 } : Proc) s.procs
            refine ⟨there, ?_, used, .inl ⟨?_, ?_⟩⟩
            · exact (congrArg Proc.kslot own).trans rfl
            · exact (congrArg Proc.pagetable own).trans rfl
            · exact (congrArg Proc.sz own).trans rfl
          · have other : Function.update s.procs p _ p' = s.procs p' :=
              Function.update_of_ne same
                ({ s.procs p with pagetable := none, sz := 0 } : Proc) s.procs
            refine ⟨there, ?_, used, .inr ?_⟩
            · exact congrArg Proc.kslot other
            · refine ⟨congrArg Proc.pagetable other, congrArg Proc.sz other, ?_⟩
              intro r has slot of
              apply emptied.others
              intro ofRoot
              obtain rfl := Exec.root_unique of ofRoot
              exact same (ok.apart p' there p listed r has table)
      · refine reseated_of_update (s := s) ⟨rfl, rfl, rfl, rfl, rfl, rfl⟩ (fun _ _ => rfl) ?_ ?_
        · apply within.left.mono
          intro slot of
          exact ⟨root, .inl table, of⟩
        · intro r has slot of filled
          obtain rfl : root = r := Option.some.inj (table.symm.trans has)
          exact absurd (emptied.emptied slot of) filled
      · dsimp only
        rw [Function.update_self]

/-- Bytes may have been stored through the page table of a process. -/
structure Stored (pagetable : Option Nat) (live : CacheRef → Multiset Nat) (place : Place)
    (v w : VmState) : Prop where
  twins : Twins live place w w
  kmem : w.kmem = v.kmem
  within : Within (fun slot => ∃ r, pagetable = some r ∧ slot.Of r) place place v v w w

section

variable {pagetable : Option Nat} {dst va : Nat} {byte : UInt8}
  (rooted : ∀ r, pagetable = some r → place (.table r 0 0) = some r)
include rooted

theorem sttrb_stores (twins : Twins live place v v) :
    Yields (sttrb pagetable va byte) v fun _ w => Stored pagetable live place v w := by
  have nothing : Stored pagetable live place v v := ⟨twins, rfl, .refl _ _ _ _⟩
  unfold sttrb
  apply Yields.read_bind
  split
  · exact .ret nothing
  rename_i pte found
  split
  · cases has : pagetable with
    | none =>
        rw [has] at found
        cases found
    | some root =>
        rw [has] at found
        replace found : Exec.translate v.memory root va = some pte := found
        have leaf := Exec.translate_leaf twins (rooted root has) found
        let w := { v with memory := Exec.setByte v.memory (ptePage pte) (va % PGSIZE) byte }
        have rewritten : Exec.Rewritten (ptePage pte) v v w w := Exec.setByte_rewritten
        have twins' := rewritten.twins twins leaf (leaf_childless _ _) fun _ _ _ => rfl
        refine ⟨true, _, rfl, twins', rfl, fun _ _ => rfl, ?_⟩
        intro slot q off outside there
        apply rewritten.others
        rintro rfl
        obtain rfl := twins.ok.unique there leaf
        exact outside ⟨root, rfl, rfl⟩
  · exact .ret nothing

theorem copyoutBytes_stores (bytes : List UInt8) (twins : Twins live place v v) :
    Yields (copyoutBytes pagetable bytes dst) v fun _ w => Stored pagetable live place v w := by
  induction bytes generalizing v dst with
  | nil => exact .ret ⟨twins, rfl, .refl _ _ _ _⟩
  | cons byte rest ih =>
      unfold copyoutBytes
      apply (sttrb_stores rooted twins).bind
      intro stored w first
      split
      · apply (ih first.twins).mono
        intro _ w' second
        exact ⟨second.twins, second.kmem.trans first.kmem, first.within.trans second.within⟩
      · exact .ret first

theorem copyout_stores (bytes : List UInt8) (twins : Twins live place v v) :
    Yields (copyout pagetable dst bytes) v fun _ w => Stored pagetable live place v w := by
  unfold copyout
  split
  · exact .ret ⟨twins, rfl, .refl _ _ _ _⟩
  · split
    · exact .ret ⟨twins, rfl, .refl _ _ _ _⟩
    · exact copyoutBytes_stores rooted bytes twins

end

theorem Stored.ok {vm : VmState} (stored : Stored (s.procs p).pagetable live place s.vm vm)
    (ok : KernelOk live place s) : KernelOk live place { s with vm } := by
  obtain ⟨twins, kmem, -⟩ := stored
  have kept : KeepsCaches s.vm vm := ⟨by rw [kmem], by rw [kmem]⟩
  refine fewer_ok ok twins kept rfl rfl rfl rfl ok.mapped ok.objects ?_
  intro p there
  exact ⟨there, rfl, (ok.process p there).used, .inr ⟨rfl, rfl, fun _ _ _ _ => rfl⟩⟩

theorem Stored.reseated {vm : VmState} (stored : Stored (s.procs p).pagetable live place s.vm vm) :
    Reseated p place place s { s with vm } := by
  have still := @reseated_of_update s place place p vm (s.procs p) s.frames
    ⟨rfl, rfl, rfl, rfl, rfl, rfl⟩ (fun _ _ => rfl)
    (stored.within.mono fun _ ⟨r, has, of⟩ => ⟨r, .inl has, of⟩) fun r has _ _ _ => has
  rw [Function.update_eq_self] at still
  exact still

/-- A program on the memory that makes no slab. -/
theorem onVm_keeps {α : Type} {m : Vm α} {Q : α → VmState → Prop} (yields : Yields m s.vm Q)
    (moves : Moves Exec.KeepsSlabs m s.vm) : Yields (onVm m) s fun r t =>
      ∃ vm, t = { s with vm } ∧ Q r vm ∧ KeepsCaches s.vm vm := by
  apply (moves.yields yields).onPart.mono
  rintro r _ ⟨vm, rfl, holds, keeps⟩
  exact ⟨vm, rfl, holds, keepsCaches_of_slabs keeps⟩

/-- The page table of a process is given back, if it has one. -/
theorem freePagetable_yields (twins : Twins live place s.vm s.vm)
    (rooted : ∀ r, (s.procs p).pagetable = some r → place (.table r 0 0) = some r) :
    Yields (freePagetable p) s fun _ t => ∃ place', Twins live place' t.vm t.vm ∧
      t = { s with
        vm := t.vm
        procs := Function.update s.procs p { s.procs p with pagetable := none } } ∧
      KeepsCaches s.vm t.vm ∧
      Within (fun slot => ∃ r, (s.procs p).pagetable = some r ∧ slot.Of r) place place'
        s.vm s.vm t.vm t.vm ∧
      ∀ r, (s.procs p).pagetable = some r → ∀ slot : Slot, slot.Of r → place' slot = none := by
  unfold freePagetable
  apply Yields.read_bind
  split
  · rename_i noTable
    refine .ret ⟨place, twins, ?_, .refl _, .refl _ _ _ _, ?_⟩
    · rw [← noTable, Function.update_eq_self]
    · intro r has
      rw [noTable] at has
      cases has
  · rename_i root table
    apply (onVm_keeps (uvmfree_twin twins (rooted root table)).self
      (Exec.uvmfree_keepsSlabs _ _)).bind
    rintro _ _ ⟨vm, rfl, ⟨place', twins', emptied⟩, kept⟩
    refine .update ⟨place', twins', rfl, kept, ?_, ?_⟩
    · apply (within_of_emptied twins emptied).mono
      intro slot of
      exact ⟨root, table, of⟩
    · intro r has
      obtain rfl : root = r := Option.some.inj (table.symm.trans has)
      exact emptied.emptied

/-- The kernel stack of a process is given back, and there are free pages then. -/
theorem freeKstack_yields (twins : Twins live place s.vm s.vm) (top : (s.procs p).kstack ≠ 0)
    (small : (s.procs p).kslot < KSTACK_NSLOTS)
    (mapped : place (stackSlot (s.procs p).kslot 0) ≠ none) :
    Yields (freeKstack p) s fun _ t => ∃ place',
      Stacked (s.procs p).kslot (fun _ => False) live place place' s.vm s.vm t.vm t.vm ∧
      t = { s with
        vm := t.vm
        kstackSlotmap := kstackSlotFree s.kstackSlotmap (s.procs p).kslot
        procs := Function.update s.procs p { s.procs p with kstack := 0 } } ∧
      KeepsCaches s.vm t.vm ∧ t.vm.kmem.freelist ≠ [] := by
  unfold freeKstack
  apply Yields.read_bind
  rw [if_neg top]
  apply (onVm_keeps (kstackFree_twin twins small).self (kstackFree_keepsSlabs _ _)).bind
  rintro _ _ ⟨vm, rfl, ⟨place', stacked, some_⟩, kept⟩
  exact .update_bind (.update ⟨place', stacked, rfl, kept, some_ ⟨0, by decide, mapped⟩⟩)

/-- A process has been taken out of the lists, and all that it had is given back. -/
structure Reaped (np : Nat) (live' : CacheRef → Multiset Nat) (place place' : Place)
    (s t : Kernel) : Prop where
  rest : t = { s with
    vm := t.vm
    pidmap := bitClear s.pidmap (s.procs np).pid
    kstackSlotmap := kstackSlotFree s.kstackSlotmap (s.procs np).kslot
    procs := t.procs
    allproc := s.allproc.erase np
    pidhash := t.pidhash }
  procs : ∀ p ≠ np, t.procs p = s.procs p
  within : Within (OfNew (s.procs np).kslot (s.procs np)) place place' s.vm s.vm t.vm t.vm
  gone : ∀ slot, OfProcess s np slot → place' slot = none
  ok : KernelOk live' place' t

theorem kstackTop_ne_zero (idx : Nat) : kstackTop idx ≠ 0 := by
  have positive : 0 < KSTACK_WINDOW := by decide
  unfold kstackTop
  omega

/-- A page that the process does not hold. -/
theorem not_ofNew {kslot : Nat} {q : Proc} (outside : ∀ r, ¬ slot.Of r)
    (other : ¬ slot.OfStack kslot) : ¬ OfNew kslot q slot := by
  rintro (ofStack | ⟨r, -, of⟩)
  · exact other ofStack
  · exact outside r of

/-- The slot that is freed is no other slot that is in use. -/
theorem used_of_other {slotmap : Bitstr} {k : Nat} (inside : k / 64 < slotmap.length)
    (used : bitTest slotmap idx = true) (other : idx ≠ k) :
    bitTest (kstackSlotFree slotmap k) idx = true := by
  unfold kstackSlotFree
  rw [bitTest_bitClear inside, used, Bool.and_true]
  simpa using other

/-- One object of a cache is handed out, and the others are. -/
theorem live_erase {c : CacheRef} (member : np ∈ live c) :
    Function.update live c ((live c).erase np) + Pi.single c {np} = live := by
  funext d
  rw [Pi.add_apply]
  by_cases same : d = c
  · subst same
    rw [Function.update_self, Pi.single_eq_same, Multiset.add_comm, Multiset.singleton_add,
      Multiset.cons_erase member]
  · rw [Function.update_of_ne same, Pi.single_eq_of_ne same, add_zero]

/-- What is left after the release of a listed process satisfies the invariant. -/
theorem reaped_ok (ok : KernelOk live place s) (housed : Housed pages place s)
    (listed : np ∈ s.allproc)
    (twins : Twins (Function.update live s.procCache ((live s.procCache).erase np)) place' t.vm t.vm)
    (kept : KeepsCaches s.vm t.vm)
    (rest : t = { s with
      vm := t.vm
      pidmap := bitClear s.pidmap (s.procs np).pid
      kstackSlotmap := kstackSlotFree s.kstackSlotmap (s.procs np).kslot
      procs := t.procs
      allproc := s.allproc.erase np
      pidhash := t.pidhash })
    (same : ∀ p ≠ np, t.procs p = s.procs p)
    (only : ∀ slot, ¬ OfNew (s.procs np).kslot (s.procs np) slot → place' slot = place slot)
    (gone : ∀ slot, OfProcess s np slot → place' slot = none) :
    KernelOk (Function.update live s.procCache ((live s.procCache).erase np)) place' t := by
  have slotmap : t.kstackSlotmap = kstackSlotFree s.kstackSlotmap (s.procs np).kslot := by rw [rest]
  have list : t.allproc = s.allproc.erase np := by rw [rest]
  have pids : t.pidmap.length = s.pidmap.length := by
    rw [rest]
    exact length_bitClear _ _
  have slots := slots_eq
  have length := ok.slots
  have small := (ok.process np listed).slot
  have inside : (s.procs np).kslot / 64 < s.kstackSlotmap.length := by omega
  have others : ∀ p ∈ s.allproc.erase np, p ≠ np ∧ p ∈ s.allproc := fun p there =>
    housed.nodup.mem_erase_iff.mp there
  refine fewer_ok ok twins kept (by rw [rest]) pids ?_ ?_ ?_ ?_ ?_
  · rw [slotmap]
    exact length_bitClear _ _
  · apply only
    apply not_ofNew fun _ => id
    rintro (ofStack | ⟨k, -, ofStack⟩)
    · cases ofStack
    · cases ofStack
  · intro idx less i low filled
    have other : idx ≠ (s.procs np).kslot := by
      rintro rfl
      exact filled (gone _ (.inl ⟨i, low, rfl⟩))
    rw [only _ (not_ofNew (fun _ => id) (other_stack low other))] at filled
    rw [slotmap]
    exact used_of_other inside (ok.mapped idx less i low filled) other
  · intro p there
    rw [list] at there
    obtain ⟨apart, there⟩ := others p there
    rw [Function.update_self]
    exact (Multiset.mem_erase_of_ne apart).mpr (ok.objects p there)
  · intro p there
    rw [list] at there
    obtain ⟨apart, there⟩ := others p there
    have other : (s.procs p).kslot ≠ (s.procs np).kslot := fun alike =>
      apart (housed.slots p there np listed alike)
    refine ⟨there, ?_, ?_, .inr ?_⟩
    · exact congrArg Proc.kslot (same p apart)
    · rw [slotmap]
      exact used_of_other inside (ok.process p there).used other
    · refine ⟨congrArg Proc.pagetable (same p apart), congrArg Proc.sz (same p apart), ?_⟩
      intro r has slot of
      apply only
      rintro (ofStack | ⟨r', has', of'⟩)
      · exact not_ofStack of ofStack
      · obtain rfl := Exec.root_unique of of'
        exact apart (ok.apart p there np listed r has has')

/-- `freeproc` of a listed process that has been unlinked. -/
theorem freeproc_reaps (ok : KernelOk live place s) (housed : Housed pages place s)
    (listed : np ∈ s.allproc) : Yields (freeproc cpu np) (unlink np s) fun _ t =>
      ∃ live' place', Reaped np live' place place' s t := by
  obtain ⟨small, used, space, -⟩ := ok.process np listed
  obtain ⟨top, -⟩ := housed.tops np listed
  have mapped := housed.mapped np listed 0 (by decide)
  have rooted : ∀ r, (s.procs np).pagetable = some r → place (.table r 0 0) = some r :=
    fun r has => (space r has).rooted
  unfold freeproc
  have first : Yields (freePagetable np) (unlink np s) _ := freePagetable_yields ok.twins rooted
  apply first.bind
  rintro _ t ⟨place₁, twins₁, rest, kept, within, gone⟩
  replace gone : ∀ r, (s.procs np).pagetable = some r → ∀ slot : Slot, slot.Of r →
    place₁ slot = none := gone
  have object : t.procs np = { s.procs np with pagetable := none } := by
    rw [rest]
    exact Function.update_self ..
  have kslot : (t.procs np).kslot = (s.procs np).kslot := by rw [object]
  have apart : ∀ {slot : Slot}, (∀ r, ¬ slot.Of r) → place₁ slot = place slot := by
    intro slot notOf
    apply within.only
    rintro ⟨r, -, of⟩
    exact notOf r of
  have stackTop : (t.procs np).kstack ≠ 0 := by
    rw [object]
    dsimp only
    rw [top]
    exact kstackTop_ne_zero _
  have inPlace : place₁ (stackSlot (t.procs np).kslot 0) ≠ none := by
    rw [kslot, apart fun _ => id]
    exact mapped
  apply (freeKstack_yields twins₁ stackTop (by rwa [kslot]) inPlace).bind
  rintro _ u ⟨place₂, stacked, rest', kept', some_⟩
  rw [kslot] at stacked rest'
  have pid_ : (u.procs np).pid = (s.procs np).pid := by
    rw [rest']
    dsimp only
    rw [Function.update_self, object]
  have cache : u.procCache = s.procCache := by rw [rest', rest]; rfl
  have member : s.procCache ∈ u.vm.kmem.kmemCaches := by
    rw [kept'.kmemCaches, kept.kmemCaches]
    exact ok.member
  have twins₂ := stacked.twins
  rw [← live_erase (ok.objects np listed)] at twins₂
  refine .read_bind (.update_bind ?_)
  rw [pid_]
  have gives := (cacheFree_twin cpu twins₂ member ok.useMag some_).self
  rw [← cache] at gives
  apply (Yields.onPart gives).mono
  rintro _ _ ⟨vm, rfl, memory, -, served, twins₃⟩
  rw [cache] at twins₃
  have within₂ : Within (OfNew (s.procs np).kslot (s.procs np)) place place₂ s.vm s.vm vm vm := by
    have second := (aroundStack_of_memory stacked.around memory memory).within
    exact (within.mono fun _ => .inr).trans (second.mono fun _ => .inl)
  have empty : ∀ slot, OfProcess s np slot → place₂ slot = none := by
    rintro slot (⟨k, low, rfl⟩ | ⟨r, has, of⟩)
    · by_contra filled
      exact (stacked.filled k low).mp filled
    · rw [stacked.within.only _ (not_ofStack of)]
      exact gone r has slot of
  have objects : ∀ p ≠ np, u.procs p = s.procs p := by
    intro p other
    rw [rest', rest]
    dsimp only
    rw [Function.update_of_ne other, Function.update_of_ne other]
    rfl
  have after : ({ u with vm, pidmap := bitClear u.pidmap (s.procs np).pid } : Kernel) = { s with
      vm
      pidmap := bitClear s.pidmap (s.procs np).pid
      kstackSlotmap := kstackSlotFree s.kstackSlotmap (s.procs np).kslot
      procs := u.procs
      allproc := s.allproc.erase np
      pidhash := u.pidhash } := by
    rw [rest', rest]
    rfl
  have caches : KeepsCaches s.vm vm := (kept.trans kept').trans (keepsCaches_of_served served)
  have still := reaped_ok ok housed listed twins₃ caches after objects within₂.only empty
  exact ⟨_, place₂, after, objects, within₂, empty, still⟩

/-- No place of a listed process is one of another. -/
theorem other_process {p : Nat} (ok : KernelOk live place s) (housed : Housed pages place s)
    (there : p ∈ s.allproc) (listed : np ∈ s.allproc) (apart : p ≠ np)
    (of : OfProcess s p slot) : ¬ OfNew (s.procs np).kslot (s.procs np) slot := by
  rcases of with ⟨k, low, rfl⟩ | ⟨r, has, of⟩
  · rintro (ofStack | ⟨r, -, of⟩)
    · exact other_stack low (fun same => apart (housed.slots p there np listed same)) ofStack
    · exact of
  · rintro (ofStack | ⟨r', has', of'⟩)
    · exact not_ofStack of ofStack
    · obtain rfl := Exec.root_unique of of'
      exact apart (ok.apart p there np listed r has has')

/-- The other processes keep their pages. -/
theorem Housed.reaped (housed : Housed pages place s) (ok : KernelOk live place s)
    (listed : np ∈ s.allproc) (reaped : Reaped np live' place place' s t) :
    Housed pages place' t := by
  have list : t.allproc = s.allproc.erase np := by rw [reaped.rest]
  have others : ∀ {p}, p ∈ t.allproc → p ≠ np ∧ p ∈ s.allproc := by
    intro p there
    rw [list] at there
    exact housed.nodup.mem_erase_iff.mp there
  have outside := reaped.within.only
  constructor
  · intro i
    rw [outside _ (not_ofNew (fun _ => id) ?_), housed.hands]
    rintro (same | ⟨k, -, same⟩) <;> cases same
  · intro i
    rw [outside _ (not_ofNew (fun _ => id) ?_), housed.clients]
    rintro (same | ⟨k, -, same⟩) <;> cases same
  · intro slot of filled
    by_cases mine : OfProcess s np slot
    · exact absurd (reaped.gone slot mine) filled
    have notNew : ¬ OfNew (s.procs np).kslot (s.procs np) slot := by
      rintro ((same | ⟨k, low, same⟩) | ofTree)
      · rw [same] at of
        exact of.elim
      · exact mine (.inl ⟨k, low, same⟩)
      · exact mine (.inr ofTree)
    rw [outside slot notNew] at filled
    obtain ⟨p, there, holds⟩ := housed.owned slot of filled
    have apart : p ≠ np := by
      rintro rfl
      exact mine holds
    refine ⟨p, ?_, holds.congr ?_ ?_⟩
    · rw [list]
      exact housed.nodup.mem_erase_iff.mpr ⟨apart, there⟩
    · rw [reaped.procs p apart]
    · intro r has _
      rw [reaped.procs p apart, has]
  · intro p there k low
    obtain ⟨apart, there⟩ := others there
    rw [reaped.procs p apart, outside]
    · exact housed.mapped p there k low
    · exact other_process ok housed there listed apart (.inl ⟨k, low, rfl⟩)
  · intro p there
    obtain ⟨apart, there⟩ := others there
    rw [reaped.procs p apart]
    exact housed.tops p there
  · intro p there p' there' same
    obtain ⟨apart, there⟩ := others there
    obtain ⟨apart', there'⟩ := others there'
    rw [reaped.procs p apart, reaped.procs p' apart'] at same
    exact housed.slots p there p' there' same
  · rw [list]
    exact housed.nodup.erase np

end Life

end Av6
