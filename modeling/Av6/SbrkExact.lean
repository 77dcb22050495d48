import Av6.CopyExact
import Av6.SbrkReachable

/-!
# sbrk is exact

`growproc` of a user process moves its size and the end of its address space together, and new
pages are fresh and zeroed.  Where it returns -1, the sizes and all translations are as before.
-/

namespace Av6

namespace Sbrk

open FallibleState Kmem Pmap Elf Fork Bitstring TransitionSystem
open Exec (UserTree translate translate_leaf translate_eq_none_iff)

variable {s t : Kernel} {live : CacheRef → Multiset Nat} {place place' : Place}
  {programs : List (String × Image)} {p root va : Nat} {n : BitVec 32} {r : Int} {v : VmState}

/-- The size has moved by `n`, and the pages with it. -/
structure Resized (p root : Nat) (n : BitVec 32) (s t : Kernel) : Prop where
  size : ((t.procs p).sz : Int) = (s.procs p).sz + n.toInt
  rest : t = { s with
    vm := t.vm
    procs := Function.update s.procs p { s.procs p with sz := (t.procs p).sz } }
  below : ∀ va, va < pgRoundUp (s.procs p).sz → va < pgRoundUp (t.procs p).sz →
    translate t.vm.memory root va = translate s.vm.memory root va ∧
      ∀ pte, translate s.vm.memory root va = some pte → ∀ off,
        t.vm.memory (ptePage pte) off = s.vm.memory (ptePage pte) off
  added : ∀ va, pgRoundUp (s.procs p).sz ≤ va → va < pgRoundUp (t.procs p).sz → ∃ page,
    translate t.vm.memory root va = some (kvaToPa page ||| PAGE_USER) ∧
      ptePage (kvaToPa page ||| PAGE_USER) = page ∧ s.vm.kmem.flags page ≠ .used ∧
      ∀ off < PGSIZE, t.vm.memory page off = 0
  distinct : ∀ va va' pte pte', translate t.vm.memory root va = some pte →
    translate t.vm.memory root va' = some pte' → ptePage pte = ptePage pte' →
      va / PGSIZE = va' / PGSIZE
  above : ∀ va, pgRoundUp (t.procs p).sz ≤ va → translate t.vm.memory root va = none
  others : ∀ q ∈ s.allproc, q ≠ p → Intact q s t

/-- No process has changed. -/
structure Refused (s t : Kernel) : Prop where
  rest : t = { s with vm := t.vm }
  intact : ∀ q ∈ s.allproc, Intact q s t

/-- How `growproc` ends. -/
def Outcome (p root : Nat) (n : BitVec 32) (s : Kernel) (r : Int) (t : Kernel) : Prop :=
  r = 0 ∧ n ≠ BitVec.intMin 32 ∧ Resized p root n s t ∨ r = -1 ∧ Refused s t

theorem translate_none (tree : UserTree root live place v) (bare : place (leafSlot root va) = none) :
    translate v.memory root va = none := by
  by_cases small : va < MAXUVA
  · exact (translate_eq_none_iff tree.twins tree.rooted small).mpr bare
  · unfold Exec.translate
    rw [if_neg small]

section

variable (ok : KernelOk live place s) (listed : p ∈ s.allproc)
  (table : (s.procs p).pagetable = some root)
include ok listed table

/-- A user process has no page at or above its size, rounded up. -/
theorem translate_above (va : Nat) (high : pgRoundUp (s.procs p).sz ≤ va) :
    translate s.vm.memory root va = none := by
  have space := (ok.process p listed).space root table
  apply translate_none ⟨ok.twins, space.rooted⟩
  apply bare_above ok listed table
  unfold pgRoundUp pgRoundDown PGSIZE at *
  omega

theorem Settled.refused {place' : Place} (settled : Settled p root n live place s r t place')
    (after : t = { s with vm := t.vm })
    (same : ∀ v, place' (.leaf root v) = place (.leaf root v)) : Refused s t := by
  have reshaped := settled.reshaped
  have space := (ok.process p listed).space root table
  have twins := reshaped.changed.twins
  refine ⟨after, ?_⟩
  intro q listed'
  have proc : t.procs q = s.procs q := by rw [after]
  have frames : t.frames = s.frames := by rw [after]
  by_cases here : q = p
  · subst here
    apply intact_of_within ok twins reshaped.changed.within listed proc frames
    · intro r has va
      rw [table] at has
      cases has
      apply reshaped.translate_eq ok.twins space.rooted
      rw [show place' (leafSlot root va) = place (leafSlot root va) from same _]
    · intro r has va pte found off
      rw [table] at has
      cases has
      have leaf := translate_leaf ok.twins space.rooted found
      exact reshaped.pages _ _ off leaf ((same _).trans leaf)
  · apply intact_of_apart ok twins reshaped.changed.within listed' proc frames
    rintro r has rfl
    exact here (ok.apart q listed' p listed r has table)

theorem Settled.resized {newsz : Nat} (settled : Settled p root n live place s r t place')
    (bound : newsz ≤ MAXUVA) (size : (newsz : Int) = (s.procs p).sz + n.toInt)
    (after : t = { s with
      vm := t.vm, procs := Function.update s.procs p { s.procs p with sz := newsz } })
    (moved : Moved root (s.procs p).sz newsz place place' t.vm.memory) : Resized p root n s t := by
  have reshaped := settled.reshaped
  have changed := reshaped.changed
  have space := (ok.process p listed).space root table
  have tree : UserTree root live place' t.vm := ⟨changed.twins, changed.rooted⟩
  have size' : (t.procs p).sz = newsz := by
    rw [after]
    dsimp only
    rw [Function.update_self]
  have page : ∀ {sz va}, va < pgRoundUp sz → va / PGSIZE * PGSIZE < pgRoundUp sz := by
    intro sz va low
    unfold PGSIZE
    omega
  have page' : ∀ {sz va}, pgRoundUp sz ≤ va → pgRoundUp sz ≤ va / PGSIZE * PGSIZE := by
    intro sz va high
    unfold pgRoundUp pgRoundDown PGSIZE at *
    omega
  rw [← size'] at size after moved bound
  refine ⟨size, after, ?_, ?_, ?_, ?_, ?_⟩
  · intro va low low'
    have same : place' (leafSlot root va) = place (leafSlot root va) :=
      moved.below _ (page low) (page low')
    refine ⟨?_, ?_⟩
    · apply reshaped.translate_eq ok.twins space.rooted
      rw [same]
    · intro pte found off
      have leaf := translate_leaf ok.twins space.rooted found
      exact reshaped.pages _ _ off leaf (same.trans leaf)
  · intro va high low
    obtain ⟨page, fresh, leaf, maps, zero⟩ := moved.added _ (page' high) (page low)
    have direct := changed.twins.ok.direct_of_place leaf
    have entry : Entry (some page) (kvaToPa page ||| PAGE_USER) := ⟨PAGE_USER, attributes_user, rfl⟩
    have small : va < MAXUVA := by
      unfold pgRoundUp pgRoundDown PGSIZE MAXUVA at *
      omega
    refine ⟨page, translate_of_maps tree small leaf maps, entry.ptePage_eq direct, ?_, zero⟩
    intro used
    obtain ⟨whole, kmem, accounts⟩ := changed.twins.ok.accounts
    have managed := (kmem.slabs.pages.client page (accounts.mem leaf)).1
    rw [settled.kept.managed] at managed
    obtain ⟨slot, there⟩ := place_of_used ok managed used
    exact fresh slot there
  · intro va va' pte pte' found found' same
    have leaf := translate_leaf tree.twins tree.rooted found
    have leaf' := translate_leaf tree.twins tree.rooted found'
    rw [← same] at leaf'
    exact (Slot.leaf.inj (tree.twins.ok.unique leaf leaf')).2
  · intro va high
    exact translate_none tree (moved.above _ (page' high))
  · intro q listed' other
    apply intact_of_apart ok changed.twins changed.within listed'
    · rw [after]
      exact Function.update_of_ne other _ _
    · rw [after]
    · rintro r has rfl
      exact other (ok.apart q listed' p listed r has table)

theorem Settled.outcome (settled : Settled p root n live place s r t place') :
    Outcome p root n s r t := by
  rcases settled.ends with ⟨failed, after, same⟩ | ⟨done, notMin, newsz, bound, size, after, moved⟩
  · exact .inr ⟨failed, settled.refused ok listed table after same⟩
  · exact .inl ⟨done, notMin, settled.resized ok listed table bound size after moved⟩

end

/-- In every state that is reached, a user process has no page at or above its size, rounded up;
`growproc` never maps an address twice; and where the size stays below `MAXUVA`, it returns, with the
process resized or with nothing changed. -/
theorem sbrk_exact (reached : Reachable Initial (Step programs) s) (listed : p ∈ s.allproc)
    (table : (s.procs p).pagetable = some root) :
    (∀ va, pgRoundUp (s.procs p).sz ≤ va → translate s.vm.memory root va = none) ∧
    ∀ n : BitVec 32, (∀ va, ¬ Fails (growproc p n) s (.remap va)) ∧
      ((s.procs p).sz + n.toInt < MAXUVA → ∃ r t, growproc p n s = .ok (r, t) ∧ Outcome p root n s r t) := by
  obtain ⟨live, place, ok⟩ := reachable_ok reached
  refine ⟨translate_above ok listed table, fun n => ⟨?_, ?_⟩⟩
  · intro va fails
    exact (growproc_settles ok listed table n).allowed fails
  · intro small
    rcases growproc_settles ok listed table n with ⟨e, past, -⟩ | ⟨r, t, runs, place', settled⟩
    · cases e with
      | walkRange va =>
          obtain ⟨high, low⟩ := past
          omega
      | kmem | mapEmpty | remap | imageOutside | kstackRange | nullPte => exact past.elim
    · exact ⟨r, t, runs, settled.outcome ok listed table⟩

/-- The first process grows by a page and a part of one. -/
theorem sbrk_exact_user : ∃ s p root r t, growproc p 5000#32 s = .ok (r, t) ∧
    Outcome p root 5000#32 s r t := by
  obtain ⟨s, p, root, reached, listed, table, size⟩ := @exists_user []
  obtain ⟨r, t, runs, outcome⟩ := ((sbrk_exact reached listed table).2 5000#32).2 (by
    rw [size]
    decide)
  exact ⟨s, p, root, r, t, runs, outcome⟩

end Sbrk

end Av6
