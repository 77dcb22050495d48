import Av6.ForkAtomic
import Av6.PmapResize
import Av6.SbrkModel

/-!
# Runs of growproc

`growproc` of a listed process moves the end of its address space and its size, or it leaves both
alone.  The other processes and the stacks are as they were.
-/

namespace Av6

namespace Sbrk

open FallibleState Kmem Pmap Fork
open Exec hiding Proc

variable {s t : Kernel} {live : CacheRef → Multiset Nat} {place place' : Place}
  {p q root old sz newsz : Nat} {n : BitVec 32} {vm w : VmState}

theorem toNat_signExtend (n : BitVec 32) : ((n.signExtend 64).toNat : Int) =
    if 0 ≤ n.toInt then n.toInt else n.toInt + 2 ^ 64 := by
  have same : (n.signExtend 64).toInt = n.toInt := BitVec.toInt_signExtend_of_le (by decide)
  have range := (n.signExtend 64).isLt
  rw [← same, BitVec.toInt_eq_toNat_cond]
  split <;> split <;> omega

theorem resized_grow (positive : 0 < n.toInt) (small : sz ≤ MAXUVA) :
    (resized sz n : Int) = sz + n.toInt := by
  have word := toNat_signExtend n
  have range := BitVec.toInt_lt (x := n)
  unfold resized
  unfold MAXUVA at small
  rw [if_pos (by omega)] at word
  omega

theorem negated_eq (negative : n.toInt < 0) :
    (negated n : Int) = if n = BitVec.intMin 32 then 2 ^ 64 - 2 ^ 31 else - n.toInt := by
  have word := toNat_signExtend (-n)
  unfold negated
  rw [word]
  split_ifs with a b b
  · subst b
    revert a
    decide
  · rw [BitVec.toInt_neg_of_ne_intMin b]
  · subst b
    decide
  · rw [BitVec.toInt_neg_of_ne_intMin b] at a
    omega

/-- A shrink that is not refused. -/
theorem resized_shrink (negative : n.toInt < 0) (small : sz ≤ MAXUVA) (enough : ¬ sz < negated n) :
    (resized sz n : Int) = sz + n.toInt := by
  have word := toNat_signExtend n
  have step := negated_eq negative
  unfold resized
  unfold MAXUVA at small
  rw [if_neg (by omega)] at word
  split at step <;> omega

theorem negated_intMin (small : sz ≤ MAXUVA) : sz < negated (BitVec.intMin 32) := by
  have value : negated (BitVec.intMin 32) = 2 ^ 64 - 2 ^ 31 := by decide
  rw [value]
  unfold MAXUVA at small
  omega

/-- A listed process gets another size, and perhaps another page table. -/
theorem replaced_ok {q : Proc} {frames : Nat → Trapframe} (ok : KernelOk live place s)
    (listed : p ∈ s.allproc) (table : (s.procs p).pagetable = some old)
    (table' : q.pagetable = some root) (twins : Twins live place' vm vm) (kept : KeepsCaches s.vm vm)
    (others : ∀ slot : Slot, ¬ slot.Of old → ¬ slot.Of root → place' slot = place slot)
    (new : root = old ∨ ∀ slot : Slot, slot.Of root → place slot = none)
    (space : UserSpace place' root q.sz) (slot : q.kslot = (s.procs p).kslot) :
    KernelOk live place' { s with vm, procs := Function.update s.procs p q, frames } := by
  have apart : ∀ {p' r}, p' ∈ s.allproc → p' ≠ p → (s.procs p').pagetable = some r →
      r ≠ old ∧ r ≠ root := by
    intro p' r listed' other has
    have notOld : r ≠ old := by
      intro same
      rw [same] at has
      exact other (ok.apart p' listed' p listed old has table)
    refine ⟨notOld, ?_⟩
    intro same
    rcases new with rfl | fresh
    · exact notOld same
    · have of : (Slot.table r 0 0).Of root := same
      have gone := fresh _ of
      rw [((ok.process p' listed').space r has).rooted] at gone
      cases gone
  have outside : ∀ {slot : Slot}, (∀ r, ¬ slot.Of r) → place' slot = place slot :=
    fun notOf => others _ (notOf old) (notOf root)
  refine ⟨twins, ?_, ok.useMag, ?_, ok.pids, ok.slots, ?_, ok.objects, ?_, ?_⟩
  · rw [outside fun _ => id]
    exact ok.bare
  · show s.procCache ∈ vm.kmem.kmemCaches
    rw [kept.kmemCaches]
    exact ok.member
  · intro idx small i low filled
    rw [outside fun _ => id] at filled
    exact ok.mapped idx small i low filled
  · intro p' listed'
    show ProcOk place' s.kstackSlotmap (Function.update s.procs p q p')
    by_cases same : p' = p
    · subst same
      have before := ok.process p' listed'
      rw [Function.update_self]
      refine ⟨by rw [slot]; exact before.slot, by rw [slot]; exact before.used, ?_, ?_⟩
      · intro r has
        rw [table'] at has
        cases has
        exact space
      · intro has
        rw [table'] at has
        cases has
    · have before := ok.process p' listed'
      rw [Function.update_of_ne same]
      refine ⟨before.slot, before.used, fun r has => ?_, before.kernel⟩
      obtain ⟨notOld, notNew⟩ := apart listed' same has
      apply (before.space r has).congr
      intro slot of
      exact others slot (fun of' => notOld (root_unique of of')) fun of' => notNew (root_unique of of')
  · intro p' listed' p'' listed'' r has has'
    replace has : (Function.update s.procs p q p').pagetable = some r := has
    replace has' : (Function.update s.procs p q p'').pagetable = some r := has'
    by_cases same : p' = p <;> by_cases same' : p'' = p
    · rw [same, same']
    · rw [same, Function.update_self, table'] at has
      rw [Function.update_of_ne same'] at has'
      cases has
      exact absurd rfl (apart listed'' same' has').2
    · rw [same', Function.update_self, table'] at has'
      rw [Function.update_of_ne same] at has
      cases has'
      exact absurd rfl (apart listed' same has).2
    · rw [Function.update_of_ne same] at has
      rw [Function.update_of_ne same'] at has'
      exact ok.apart p' listed' p'' listed'' r has has'

section

variable (ok : KernelOk live place s) (twins : Twins live place' t.vm t.vm)
  (within : Within (Slot.Of root) place place' s.vm s.vm t.vm t.vm)
include ok twins within

/-- The stack of a listed process is the same when only places of a page table have changed. -/
theorem stackPte_within {idx i : Nat} (small : idx < KSTACK_NSLOTS) (low : i < KSTACK_PAGES) :
    stackPte t.vm.memory (kstackBaseVa idx + i * PGSIZE) =
      stackPte s.vm.memory (kstackBaseVa idx + i * PGSIZE) := by
  have inSlot : KSTACK_GUARD_PAGES + i < KSTACK_SLOT_PAGES := by
    unfold KSTACK_SLOT_PAGES
    omega
  have same : place' (.stackTable (idx / 64)) = place (.stackTable (idx / 64)) := within.only _ id
  rw [← slotPage_va, stackPte_eq twins small inSlot, stackPte_eq ok.twins small inSlot, same]
  cases table : place (.stackTable (idx / 64)) with
  | none => rfl
  | some l3 => exact wordAt_congr fun k _ => (within.contents _ l3 _ id table).1

/-- A listed process is as it was, if its address space is. -/
theorem intact_of_within (listed : q ∈ s.allproc) (proc : t.procs q = s.procs q)
    (frames : t.frames = s.frames)
    (translation : ∀ r, (s.procs q).pagetable = some r → ∀ va,
      translate t.vm.memory r va = translate s.vm.memory r va)
    (contents : ∀ r, (s.procs q).pagetable = some r → ∀ va pte,
      translate s.vm.memory r va = some pte → ∀ off,
        t.vm.memory (ptePage pte) off = s.vm.memory (ptePage pte) off) : Intact q s t := by
  have small := (ok.process q listed).slot
  refine ⟨proc, by rw [frames], translation, contents, ?_, ?_⟩
  · intro i low
    exact stackPte_within ok twins within small low
  · intro i low pte found valid off
    subst found
    have entry := stackPte_at ok.twins small low
    cases there : place (stackSlot (s.procs q).kslot i) with
    | none =>
        rw [there] at entry
        exact absurd rfl (entry.isValid_iff.mp valid)
    | some page =>
        rw [there] at entry
        rw [entry.ptePage_eq (ok.twins.ok.direct_of_place there)]
        exact (within.contents (stackSlot _ i) page off id there).1

/-- A process with another page table is as it was. -/
theorem intact_of_apart (listed : q ∈ s.allproc) (proc : t.procs q = s.procs q)
    (frames : t.frames = s.frames) (apart : ∀ r, (s.procs q).pagetable = some r → r ≠ root) :
    Intact q s t := by
  have same : ∀ r, (s.procs q).pagetable = some r → TreeSame place r s.vm.memory t.vm.memory := by
    intro r has slot page off of there
    exact (within.contents slot page off (fun of' => apart r has (root_unique of of')) there).1
  apply intact_of_within ok twins within listed proc frames
  · intro r has
    exact (same r has).tables.translate_eq ok.twins ((ok.process q listed).space r has).rooted
  · intro r has va pte found off
    have leaf := translate_leaf ok.twins ((ok.process q listed).space r has).rooted found
    exact same r has (leafSlot r va) _ off rfl leaf

end

/-- The leaves of an address space whose size has changed. -/
structure Moved (root old new : Nat) (place place' : Place) (memory : Memory) : Prop where
  below : ∀ v, v * PGSIZE < pgRoundUp old → v * PGSIZE < pgRoundUp new →
    place' (.leaf root v) = place (.leaf root v)
  added : ∀ v, pgRoundUp old ≤ v * PGSIZE → v * PGSIZE < pgRoundUp new → ∃ page,
    (∀ slot, place slot ≠ some page) ∧ place' (.leaf root v) = some page ∧
      Maps memory place' root (v * PGSIZE) page PAGE_USER ∧ ∀ off < PGSIZE, memory page off = 0
  above : ∀ v, pgRoundUp new ≤ v * PGSIZE → place' (.leaf root v) = none

/-- How `growproc` ends. -/
structure Settled (p root : Nat) (n : BitVec 32) (live : CacheRef → Multiset Nat) (place : Place)
    (s : Kernel) (r : Int) (t : Kernel) (place' : Place) : Prop where
  reshaped : Reshaped root live place place' s.vm s.vm t.vm t.vm
  kept : KeepsCaches s.vm t.vm
  ends : (r = -1 ∧ t = { s with vm := t.vm } ∧
      ∀ v, place' (.leaf root v) = place (.leaf root v)) ∨
    r = 0 ∧ n ≠ BitVec.intMin 32 ∧ ∃ newsz ≤ MAXUVA, (newsz : Int) = (s.procs p).sz + n.toInt ∧
      t = { s with vm := t.vm, procs := Function.update s.procs p { s.procs p with sz := newsz } } ∧
      Moved root (s.procs p).sz newsz place place' t.vm.memory

theorem le_pgRoundUp (small : sz ≤ MAXUVA) : sz ≤ pgRoundUp sz ∧ pgRoundUp sz < sz + PGSIZE := by
  unfold pgRoundUp pgRoundDown PGSIZE MAXUVA at *
  omega

theorem pgRoundUp_mono (le : old ≤ sz) (small : sz < 2 ^ 63) : pgRoundUp old ≤ pgRoundUp sz := by
  unfold pgRoundUp pgRoundDown PGSIZE
  omega

section

variable (ok : KernelOk live place s) (listed : p ∈ s.allproc)
  (table : (s.procs p).pagetable = some root)
include ok listed table

/-- There is no page at or above the size, rounded up. -/
theorem bare_above (v : Nat) (high : pgRoundUp (s.procs p).sz ≤ v * PGSIZE) :
    place (.leaf root v) = none := by
  have space := (ok.process p listed).space root table
  by_contra filled
  have low := space.below v filled
  have above := le_pgRoundUp space.small
  omega

/-- `growproc` with a positive number. -/
theorem growproc_grows (twins : Twins live place s.vm w) (positive : 0 < n.toInt) :
    Paired (PastEnd ((s.procs p).sz + n.toInt).toNat) (growproc p n) s w fun r t w' =>
      ∃ place', Settled p root n live place s r t place' ∧ Twins live place' t.vm w' := by
  have space := (ok.process p listed).space root table
  have size := resized_grow positive space.small
  have range := BitVec.toInt_lt (x := n)
  have le : (s.procs p).sz ≤ resized (s.procs p).sz n := by omega
  have short : resized (s.procs p).sz n < 2 ^ 63 := by
    have small := space.small
    unfold MAXUVA at small
    omega
  have grows := uvmalloc_enlarges twins ok.bare space.rooted space.small space.below le short
  have limit : ((s.procs p).sz + n.toInt).toNat = resized (s.procs p).sz n := by omega
  have notMin : n ≠ BitVec.intMin 32 := by
    intro same
    subst same
    revert positive
    decide
  rw [limit]
  unfold growproc
  apply Paired.read_bind rfl
  dsimp only
  rw [if_pos positive, table]
  apply (Paired.onVm grows (uvmalloc_keepsSlabs _ _ _ _)).bind
  intro r t w' ⟨vm, after, ends, kept⟩
  subst after
  rcases ends with ⟨zero, place', reshaped, same⟩ | ⟨size', bound, place', widened⟩
  · rw [if_pos zero]
    exact .ret ⟨place', ⟨reshaped.left, kept, .inl ⟨rfl, rfl, same⟩⟩, reshaped.changed.twins⟩
  · rw [if_neg (by omega)]
    have bound' : r ≤ MAXUVA := by
      unfold pgRoundUp pgRoundDown PGSIZE MAXUVA at *
      omega
    have reshaped := widened.extended.reshaped space.rooted
    refine .update_bind rfl (.ret ⟨place', ⟨reshaped.left, kept,
      .inr ⟨rfl, notMin, r, bound', by omega, rfl, ?_, ?_, ?_⟩⟩, reshaped.changed.twins⟩)
    · intro v low _
      apply widened.others v
      omega
    · intro v low high
      rw [size'] at high
      obtain ⟨page, leaf, maps, zero⟩ := widened.added v low high
      refine ⟨page, ?_, leaf, maps, zero⟩
      intro slot there
      have kept' := widened.extended.keeps slot page there
      rw [widened.extended.twins.ok.unique kept' leaf, bare_above ok listed table v low] at there
      cases there
    · intro v high
      have above := le_pgRoundUp space.small
      have above' := le_pgRoundUp bound'
      rw [size'] at high above'
      rw [widened.others v (by omega)]
      apply bare_above ok listed table
      have more := pgRoundUp_mono le short
      omega

/-- `growproc` with a negative number. -/
theorem growproc_shrinks {E : Pmap.Panic → Prop} (twins : Twins live place s.vm w)
    (negative : n.toInt < 0) :
    Paired E (growproc p n) s w fun r t w' =>
      ∃ place', Settled p root n live place s r t place' ∧ Twins live place' t.vm w' := by
  have space := (ok.process p listed).space root table
  have stays : Reshaped root live place place s.vm s.vm s.vm s.vm :=
    (Extended.refl ok.twins).reshaped space.rooted
  unfold growproc
  apply Paired.read_bind rfl
  dsimp only
  rw [if_neg (by omega), if_pos negative]
  split
  · exact .ret ⟨place, ⟨stays, .refl _, .inl ⟨rfl, rfl, fun _ => rfl⟩⟩, twins⟩
  · rename_i enough
    have size := resized_shrink negative space.small enough
    have less : resized (s.procs p).sz n < (s.procs p).sz := by omega
    have notMin : n ≠ BitVec.intMin 32 := by
      intro same
      subst same
      exact enough (negated_intMin space.small)
    have shrinks := uvmdealloc_reshapes twins space.rooted space.small space.below less
    rw [table]
    apply (Paired.onVm shrinks.orFails (uvmdealloc_keepsSlabs _ _ _ _)).bind
    intro r t w' ⟨vm, after, ⟨size', place', reshaped, leaves⟩, kept⟩
    subst after size'
    have small : resized (s.procs p).sz n ≤ MAXUVA := by
      have := space.small
      omega
    have order := pgRoundUp_mono (Nat.le_of_lt less) (space.small.trans_lt (by decide))
    refine .update_bind rfl (.ret ⟨place', ⟨reshaped.left, kept,
      .inr ⟨rfl, notMin, _, small, size, rfl, ?_, ?_, ?_⟩⟩, reshaped.changed.twins⟩)
    · intro v _ low
      rw [leaves v, if_neg (by omega)]
    · intro v low high
      omega
    · intro v high
      rw [leaves v, if_pos high]

/-- `growproc` ends, unless it runs past the end of the user addresses. -/
theorem growproc_paired (twins : Twins live place s.vm w) (n : BitVec 32) :
    Paired (PastEnd ((s.procs p).sz + n.toInt).toNat) (growproc p n) s w fun r t w' =>
      ∃ place', Settled p root n live place s r t place' ∧ Twins live place' t.vm w' := by
  have space := (ok.process p listed).space root table
  by_cases positive : 0 < n.toInt
  · exact growproc_grows ok listed table twins positive
  by_cases negative : n.toInt < 0
  · exact growproc_shrinks ok listed table twins negative
  have zero : n.toInt = 0 := by omega
  have stays : Reshaped root live place place s.vm s.vm s.vm s.vm :=
    (Extended.refl ok.twins).reshaped space.rooted
  have notMin : n ≠ BitVec.intMin 32 := by
    intro same
    subst same
    revert zero
    decide
  unfold growproc
  apply Paired.read_bind rfl
  dsimp only
  rw [if_neg positive, if_neg negative]
  refine .update_bind rfl (.ret ⟨place, ⟨stays, .refl _,
    .inr ⟨rfl, notMin, _, space.small, by omega, rfl, fun _ _ _ => rfl, ?_, ?_⟩⟩, twins⟩)
  · intro v low high
    omega
  · exact bare_above ok listed table

/-- A single run of `growproc`. -/
theorem growproc_settles (n : BitVec 32) :
    YieldsOr (PastEnd ((s.procs p).sz + n.toInt).toNat) (growproc p n) s fun r t =>
      ∃ place', Settled p root n live place s r t place' := by
  apply (growproc_paired ok listed table ok.twins n).self.mono
  · exact fun _ => id
  · intro r t ⟨place', settled, _⟩
    exact ⟨place', settled⟩

end

/-- The places of one address space or the other. -/
def OfSpaces (o o' : Option Nat) (slot : Slot) : Prop :=
  ∃ r, (o = some r ∨ o' = some r) ∧ slot.Of r

/-- A process has another address space, or none, and perhaps other registers and another name. -/
structure Reseated (p : Nat) (place place' : Place) (s t : Kernel) : Prop where
  rest : t = { s with
    vm := t.vm, procs := Function.update s.procs p (t.procs p), frames := t.frames }
  kept : (t.procs p).kslot = (s.procs p).kslot ∧ (t.procs p).kstack = (s.procs p).kstack ∧
    (t.procs p).tf = (s.procs p).tf ∧ (t.procs p).pid = (s.procs p).pid ∧
    (t.procs p).parent = (s.procs p).parent ∧ (t.procs p).state = (s.procs p).state
  frames : ∀ a ≠ (s.procs p).tf, t.frames a = s.frames a
  within : Within (OfSpaces (s.procs p).pagetable (t.procs p).pagetable) place place'
    s.vm s.vm t.vm t.vm
  gone : ∀ r, (s.procs p).pagetable = some r → ∀ slot : Slot, slot.Of r → place' slot ≠ none →
    (t.procs p).pagetable = some r

theorem reseated_of_update {q : Proc} {frames : Nat → Exec.Trapframe}
    (kept : q.kslot = (s.procs p).kslot ∧ q.kstack = (s.procs p).kstack ∧
      q.tf = (s.procs p).tf ∧ q.pid = (s.procs p).pid ∧ q.parent = (s.procs p).parent ∧
      q.state = (s.procs p).state)
    (others : ∀ a ≠ (s.procs p).tf, frames a = s.frames a)
    (within : Within (OfSpaces (s.procs p).pagetable q.pagetable) place place' s.vm s.vm vm vm)
    (gone : ∀ r, (s.procs p).pagetable = some r → ∀ slot : Slot, slot.Of r → place' slot ≠ none →
      q.pagetable = some r) :
    Reseated p place place' s { s with vm, procs := Function.update s.procs p q, frames } := by
  have object : Function.update s.procs p q p = q := Function.update_self ..
  constructor
  · dsimp only
    rw [object]
  · dsimp only
    rw [object]
    exact kept
  · exact others
  · dsimp only
    rw [object]
    exact within
  · dsimp only
    rw [object]
    exact gone

theorem Settled.reseated {r : Int} (settled : Settled p root n live place s r t place')
    (table : (s.procs p).pagetable = some root) : Reseated p place place' s t := by
  obtain ⟨reshaped, -, ends⟩ := settled
  have within : Within (OfSpaces (s.procs p).pagetable (s.procs p).pagetable) place place'
      s.vm s.vm t.vm t.vm := by
    apply reshaped.changed.within.mono
    intro slot of
    exact ⟨root, .inl table, of⟩
  rcases ends with ⟨-, after, -⟩ | ⟨-, -, newsz, -, -, after, -⟩
  · have still := @reseated_of_update s place place' p t.vm (s.procs p) s.frames
      ⟨rfl, rfl, rfl, rfl, rfl, rfl⟩ (fun _ _ => rfl) within fun r has _ _ _ => has
    rw [Function.update_eq_self] at still
    rw [after]
    exact still
  · rw [after]
    exact reseated_of_update ⟨rfl, rfl, rfl, rfl, rfl, rfl⟩ (fun _ _ => rfl) within
      fun r has _ _ _ => has

end Sbrk

end Av6
