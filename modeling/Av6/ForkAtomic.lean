import Av6.ExecAtomic
import Av6.ForkRuns
import Av6.KmemReachable

/-!
# A failed fork changes nothing

Whatever `fork` or `kthread_add` cannot get, it returns -1 with the bitmaps, the lists and every
process as they were, and the pages that it took are free again, but for those that slabs and the
tables of the kernel-stack window keep.
-/

namespace Av6

namespace Fork

open FallibleState Kmem Pmap Bitstring Exec

variable {s t : Kernel} {live : CacheRef → Multiset Nat} {place place' : Place} {p q idx i : Nat}

/-- The page is a table of the kernel-stack window. -/
def InWindow (memory : Memory) (page : Nat) : Prop := ∃ i < TABLE_ENTRIES,
  isValid (wordAt memory L2_KSTACK i) ∧ ptePage (wordAt memory L2_KSTACK i) = page

/-- A process is as it was: its object and trapframe, its address space and its kernel stack. -/
structure Intact (p : Nat) (s t : Kernel) : Prop where
  proc : t.procs p = s.procs p
  frame : t.frames (s.procs p).tf = s.frames (s.procs p).tf
  translation : ∀ root, (s.procs p).pagetable = some root → ∀ va,
    translate t.vm.memory root va = translate s.vm.memory root va
  contents : ∀ root, (s.procs p).pagetable = some root → ∀ va pte,
    translate s.vm.memory root va = some pte → ∀ off,
      t.vm.memory (ptePage pte) off = s.vm.memory (ptePage pte) off
  stack : ∀ i < KSTACK_PAGES, stackPte t.vm.memory (kstackBaseVa (s.procs p).kslot + i * PGSIZE) =
    stackPte s.vm.memory (kstackBaseVa (s.procs p).kslot + i * PGSIZE)
  stackContents : ∀ i < KSTACK_PAGES, ∀ pte,
    stackPte s.vm.memory (kstackBaseVa (s.procs p).kslot + i * PGSIZE) = pte → isValid pte → ∀ off,
      t.vm.memory (ptePage pte) off = s.vm.memory (ptePage pte) off

/-- What has been taken is given back.  A page that was not in use is free, or a slab, or a table
of the window, and no page that was in use is given away. -/
structure Unwound (s t : Kernel) : Prop where
  pidmap : t.pidmap = s.pidmap
  slotmap : t.kstackSlotmap = s.kstackSlotmap
  allproc : t.allproc = s.allproc
  pidhash : t.pidhash = s.pidhash
  runq : t.runq = s.runq
  intact : ∀ p ∈ s.allproc, Intact p s t
  unmapped : ∀ idx < KSTACK_NSLOTS, bitTest s.kstackSlotmap idx = false → ∀ i < KSTACK_PAGES,
    ¬ isValid (stackPte t.vm.memory (kstackBaseVa idx + i * PGSIZE))
  pages : ∀ q ∈ s.vm.kmem.managed, s.vm.kmem.flags q ≠ .used →
    q ∈ t.vm.kmem.freelist ∨ t.vm.kmem.flags q = .slab ∨ InWindow t.vm.memory q
  used : ∀ q ∈ s.vm.kmem.managed, s.vm.kmem.flags q = .used → t.vm.kmem.flags q = .used

/-- Everything was there: a new process is in the lists, under a free pid, with a stack in a free
slot, and with the pages of the parent if there is one. -/
structure Entered (parent : Option Nat) (np pid : Nat) (s t : Kernel) : Prop where
  fresh : np ∉ s.allproc
  listed : t.allproc = np :: s.allproc
  runnable : t.runq = s.runq ++ [np] ∧ (t.procs np).state = .runnable
  pid : (t.procs np).pid = pid ∧ bitTest s.pidmap pid = false ∧ t.pidmap = bitSet s.pidmap pid
  slot : (t.procs np).kslot < KSTACK_NSLOTS ∧ bitTest s.kstackSlotmap (t.procs np).kslot = false ∧
    t.kstackSlotmap = bitSet s.kstackSlotmap (t.procs np).kslot
  stack : ∀ i < KSTACK_PAGES,
    isValid (stackPte t.vm.memory (kstackBaseVa (t.procs np).kslot + i * PGSIZE))
  copied : ∀ p, parent = some p → ∃ root', (t.procs np).pagetable = some root' ∧
    ∀ root, (s.procs p).pagetable = some root → ∀ va, translate s.vm.memory root va ≠ none →
      translate t.vm.memory root' va ≠ none

/-- How `fork` and `kthread_add` end. -/
def Outcome (parent : Option Nat) (s : Kernel) (r : Int) (t : Kernel) : Prop :=
  r = -1 ∧ Unwound s t ∨ ∃ np pid, r = Int.ofNat pid ∧ Entered parent np pid s t

theorem stackPte_at (twins : Twins live place s.vm s.vm) (small : idx < KSTACK_NSLOTS)
    (low : i < KSTACK_PAGES) : Entry (place (stackSlot idx i))
      (stackPte s.vm.memory (kstackBaseVa idx + i * PGSIZE)) := by
  rw [← slotPage_stack, ← slotPage_va]
  apply stackPte_entry twins small
  unfold KSTACK_SLOT_PAGES
  omega

/-- A page in use is in a place. -/
theorem place_of_used (ok : KernelOk live place s) (managed : q ∈ s.vm.kmem.managed)
    (used : s.vm.kmem.flags q = .used) : ∃ slot, place slot = some q := by
  obtain ⟨whole, kmem, accounts⟩ := ok.twins.ok.accounts
  have notFree : q ∉ s.vm.kmem.freelist := by
    intro free
    rw [(kmem.slabs.pages.free q free).2.1] at used
    cases used
  have client : q ∈ whole := by
    by_contra other
    rw [kmem.slab_of_managed managed notFree other] at used
    cases used
  exact (accounts.mem_iff q).mp client

section

variable (ok : KernelOk live place s) (twins : Twins live place' t.vm t.vm)
  (grown : Grown IsWindowTable place place' s.vm s.vm t.vm t.vm)
include ok twins grown

end

theorem Spawned.entered {parent : Option Nat} {pid : Nat}
    (spawned : Spawned parent live place pid s t) (ok : KernelOk live place s)
    (caller : ∀ p, parent = some p → p ∈ s.allproc) : ∃ np, Entered parent np pid s t := by
  obtain ⟨free, np, idx, q, frames, vm, place', rfl, fresh, rfl, rfl, runnable, small, clear, stack,
    inherits, ok'⟩ := spawned
  have object : (published s np q.pid q.kslot q frames vm).procs np = q := Function.update_self ..
  refine ⟨np, fun listed => fresh (ok.objects np listed), rfl, ⟨rfl, ?_⟩, ⟨?_, free.2, rfl⟩, ?_, ?_, ?_⟩
  · rw [object, runnable]
  · rw [object]
  · rw [object]
    exact ⟨small, clear, rfl⟩
  · intro i low
    rw [object]
    exact (stackPte_at ok'.twins small low).isValid_iff.mpr (stack i low)
  · intro p parent_
    obtain ⟨root', table, copied⟩ := inherits p parent_
    rw [object]
    refine ⟨root', table, fun root has va found => ?_⟩
    have space := (ok.process p (caller p parent_)).space root has
    have listed : np ∈ (published s np q.pid q.kslot q frames vm).allproc := List.mem_cons_self
    have space' := (ok'.process np listed).space root' (by rw [object, table])
    have low : va < MAXUVA := by
      by_contra high
      unfold Exec.translate at found
      rw [if_neg high] at found
      exact found rfl
    intro missed
    have leaf := (translate_eq_none_iff ok'.twins space'.rooted low).mp missed
    refine copied root has (va / PGSIZE) (fun none_ => found ?_) leaf
    exact (translate_eq_none_iff ok.twins space.rooted low).mpr none_

/-- Pages of the direct map. -/
def ramPages (n : Nat) : List Nat := (List.range n).map (KERN_BASE / PGSIZE + ·)

/-- The state after `procinit`, with the cache that it has created. -/
def bootKernel (a : AllocState) (c : CacheRef) : Kernel where
  vm := { kmem := a, memory := fun _ _ => 0 }
  procCache := c
  pidmap := bitSet (List.replicate (KSTACK_NSLOTS / 64) 0) 0
  kstackSlotmap := List.replicate (KSTACK_NSLOTS / 64) 0
  procs _ := ⟨.unused, 0, 0, 0, 0, none, 0, 0, 0, none, 0, 0, 0, ⟨fun _ => 0, 0⟩, [], 0⟩
  frames _ := ⟨fun _ => 0, 0, 0, 0, 0⟩
  allproc := []
  pidhash _ := []
  runq := []
  forkret := 0

theorem bootKernel_ok {a : AllocState} {c : CacheRef} {n : Nat} (kmem : KmemOk a live 0)
    (held : a.held = []) (ram : a.managed = ramPages n) (few : n ≤ 2 ^ 36) (useMag : c.useMag = true)
    (member : c ∈ a.kmemCaches) : KernelOk live (fun _ => none) (bootKernel a c) := by
  have direct : ∀ page ∈ a.managed, Direct page := by
    intro page there
    rw [ram] at there
    obtain ⟨i, small, rfl⟩ := List.mem_map.mp there
    rw [List.mem_range] at small
    unfold Direct KERN_BASE PGSIZE
    omega
  have forest : Forest (fun _ _ => 0) fun _ => none :=
    ⟨by simp, by simp, by simp, by simp, by simp, by simp, by simp [Entry, wordAt]⟩
  refine ⟨⟨⟨⟨0, kmem, by simp, by simp, by simp⟩, held, direct⟩, forest, .refl _ _⟩, rfl, useMag,
    member, ?_, ?_, ?_, ?_, ?_, ?_⟩
  · exact (length_bitSet _ _).trans List.length_replicate
  · exact List.length_replicate
  · intro idx _ i _ filled
    exact absurd rfl filled
  · rintro p ⟨⟩
  · rintro p ⟨⟩
  · rintro p ⟨⟩

/-- Whether `kthread_add` has made this process. -/
def addsThread (a : AllocState) (c : CacheRef) (p : Nat) : Bool :=
  match kthreadAdd 0 1 0 [] (bootKernel a c) with
  | .ok (_, t) => t.allproc = [p]
  | .error _ => false

/-- After boot `kthread_add` makes a process. -/
theorem exists_boot : ∃ live a c r t p, KernelOk live (fun _ => none) (bootKernel a c) ∧
    kthreadAdd 0 1 0 [] (bootKernel a c) = .ok (r, t) ∧ t.allproc = [p] := by
  have run : ((runFrom (ramPages 16) [(0, .create 512 0)]).any fun s => s.grants = [] ∧
      s.alloc.managed = ramPages 16 ∧ .object 18446462598732900928 ∈ s.alloc.kmemCaches ∧
      addsThread s.alloc (.object 18446462598732900928) 18446462598732873792 = true) = true := by
    decide +kernel
  obtain ⟨s, reached, holds⟩ : ∃ s, KmemReachable Op.Fits s ∧ _ := by
    refine reachable_of_runFrom (by decide) (by decide) ?_ run
    intro step there
    obtain rfl := List.mem_singleton.mp there
    intro _
    decide
  obtain ⟨grants, ram, member, adds⟩ := of_decide_eq_true holds
  have ok := systemOk_of_reachable (fun _ => id) reached
  have kmem := ok.kmem
  rw [grants] at kmem
  have boot := bootKernel_ok kmem ok.held ram (by decide) rfl member
  obtain ⟨r, t, runs, -⟩ := @kthreadAdd_yields _ _ _ 0 boot 1 0 []
  unfold addsThread at adds
  rw [runs] at adds
  exact ⟨_, _, _, r, t, _, boot, runs, of_decide_eq_true adds⟩

end Fork

end Av6
