import Av6.PmapWords
import Av6.Placement
import Av6.TwinRuns
import Av6.KmemAlloc

/-!
# Where the pages are

Every page that the page allocator has handed out is in one place: a table or a leaf of a user
page table, a kernel stack or a table of its window, or in the hands of the function that has
just taken it.  Taking a page from the allocator puts it in a free place, and giving it back
empties its place.  The rules are about two runs from states whose free pages may hold
different bytes.
-/

namespace Av6

namespace Pmap

open FallibleState Kmem

/-- The places of pages that are not free and no slabs.  A user page table is named by its
root, a table by its level and the part of the address above it, a leaf by its page number; the
tables of the kernel-stack window and their entries are numbered.  The others are pages that a
function has in its hands, and pages that clients of `kmalloc` hold. -/
inductive Slot where
  | table (root level above : Nat)
  | leaf (root vpn : Nat)
  | stackTable (i : Nat)
  | stack (i j : Nat)
  | hand (i : Nat)
  | client (i : Nat)
  deriving DecidableEq

/-- The places that translation tables lead to. -/
def Slot.Mapped : Slot → Prop
  | .hand _ => False
  | .client _ => False
  | _ => True

/-- The places of pages whose contents are known: all but new stacks and what is in hands. -/
def Slot.Known : Slot → Prop
  | .table .. => True
  | .leaf .. => True
  | .stackTable _ => True
  | _ => False

theorem Slot.Known.mapped {slot : Slot} (known : slot.Known) : slot.Mapped := by
  cases slot with
  | table | leaf | stackTable => trivial
  | stack | hand | client => exact known.elim

abbrev Place := Slot → Option Nat

variable {s s' t t' : VmState} {live : CacheRef → Multiset Nat} {place : Place} {slot : Slot}
  {p n k : Nat} {a b : AllocState}

/-- Take pages from the allocator, one after the other, unless it has no more. -/
def takePages : Nat → AllocState → Option AllocState
  | 0, a => some a
  | n + 1, a =>
      match kpageAlloc a with
      | .ok (some _, b) => takePages n b
      | _ => none

theorem takePages_succ (runs : kpageAlloc a = .ok (some p, b)) :
    takePages (n + 1) a = takePages n b := by
  rw [takePages, runs]

theorem takePages_dry (runs : kpageAlloc a = .ok (none, b)) : takePages (n + 1) a = none := by
  rw [takePages, runs]

theorem takePages_one (runs : kpageAlloc a = .ok (some p, b)) : takePages 1 a = some b :=
  takePages_succ runs

theorem takePages_add (n k : Nat) (a : AllocState) :
    takePages (n + k) a = (takePages n a).bind (takePages k) := by
  induction n generalizing a with
  | zero => rw [Nat.zero_add, takePages, Option.bind_some]
  | succ n ih =>
      rw [Nat.succ_add, takePages, takePages]
      split
      · exact ih _
      · rfl

theorem takePages_mono (le : n ≤ k) (dry : takePages n a = none) : takePages k a = none := by
  obtain ⟨d, rfl⟩ := Nat.exists_eq_add_of_le le
  rw [takePages_add, dry, Option.bind_none]

/-- The pages that are left can be taken after the others. -/
theorem takePages_after (took : takePages k a = some b) (enough : takePages (k + n) a ≠ none) :
    takePages n b ≠ none := by
  rwa [takePages_add, took, Option.bind_some] at enough

theorem kpageAlloc_cons {rest : List Nat} (free : .kmem ∉ a.held) (first : a.freelist = p :: rest) :
    kpageAlloc a = .ok (some (p * PGSIZE), a.popFree p rest) := by
  obtain ⟨r, b, runs, rfl, rfl⟩ : Yields kpageAlloc a fun r b =>
      r = some (p * PGSIZE) ∧ b = a.popFree p rest := by
    refine Yields.bind (freelistPop_cons (Q := fun r b => r = some p ∧ b = a.popFree p rest)
      free first ⟨rfl, rfl⟩) ?_
    rintro _ _ ⟨rfl, rfl⟩
    exact .ret ⟨rfl, rfl⟩
  exact runs

/-- The free pages can all be taken. -/
theorem takePages_ne_none (free : .kmem ∉ a.held) (enough : n ≤ a.freelist.length) :
    takePages n a ≠ none := by
  induction n generalizing a with
  | zero => exact Option.some_ne_none a
  | succ n ih =>
      cases first : a.freelist with
      | nil =>
          rw [first] at enough
          exact absurd enough (by simp)
      | cons p rest =>
          rw [first, List.length_cons] at enough
          rw [takePages_succ (kpageAlloc_cons free first)]
          exact ih free (by simp only [AllocState.popFree]; omega)

/-- The allocators account for all pages, each in one place. -/
structure VmOk (s : VmState) (live : CacheRef → Multiset Nat) (place : Place) : Prop where
  accounts : ∃ whole, KmemOk s.kmem live whole ∧ Accounts place whole
  held : s.kmem.held = []
  direct : ∀ page ∈ s.kmem.managed, Direct page

/-- Two states with the same pages and the same contents of the page tables. -/
structure Agree (place : Place) (s s' : VmState) : Prop where
  kmem : s'.kmem = s.kmem
  contents : ∀ slot p, slot.Known → place slot = some p → ∀ off < PGSIZE,
    s'.memory p off = s.memory p off
  window : ∀ off < PGSIZE, s'.memory L2_KSTACK off = s.memory L2_KSTACK off

theorem Agree.refl (place : Place) (s : VmState) : Agree place s s :=
  ⟨rfl, fun _ _ _ _ _ _ => rfl, fun _ _ => rfl⟩

theorem Agree.word {i : Nat} (agree : Agree place s s') (known : slot.Known)
    (there : place slot = some p) (small : i < TABLE_ENTRIES) :
    wordAt s'.memory p i = wordAt s.memory p i := by
  unfold TABLE_ENTRIES at small
  refine wordAt_congr fun k less => agree.contents slot p known there _ ?_
  unfold PGSIZE
  omega

theorem VmOk.pageLocks (ok : VmOk s live place) : PageLocks s.kmem :=
  ⟨by simp [ok.held], by simp [ok.held]⟩

theorem VmOk.not_stuck (ok : VmOk s live place) : ¬ ReclaimStuck s.kmem := by
  rintro ⟨taken, -⟩
  simp [ok.held] at taken

theorem VmOk.unique (ok : VmOk s live place) {slot' : Slot} (there : place slot = some p)
    (there' : place slot' = some p) : slot = slot' := by
  obtain ⟨whole, -, accounts⟩ := ok.accounts
  exact accounts.unique _ _ _ there there'

theorem VmOk.direct_of_place (ok : VmOk s live place) (there : place slot = some p) : Direct p := by
  obtain ⟨whole, kmem, accounts⟩ := ok.accounts
  exact ok.direct p (kmem.slabs.pages.client p (accounts.mem there)).1

theorem Direct.ne_window {page : Nat} (direct : Direct page) : page ≠ L2_KSTACK := by
  rintro rfl
  exact absurd direct.1 (by decide)

/-- Only the contents of pages have changed. -/
theorem VmOk.setMemory (ok : VmOk s live place) (memory : Memory) :
    VmOk { s with memory } live place :=
  ⟨ok.accounts, ok.held, ok.direct⟩

/-- A page goes from one place to another, empty one. -/
theorem VmOk.move (ok : VmOk s live place) {slot' : Slot} (there : place slot = some p)
    (empty : place slot' = none) :
    VmOk s live (Function.update (Function.update place slot none) slot' (some p)) := by
  obtain ⟨whole, kmem, accounts⟩ := ok.accounts
  exact ⟨⟨whole, kmem, accounts.move there empty⟩, ok.held, ok.direct⟩

/-- The allocator had no page. -/
structure Dry (live : CacheRef → Multiset Nat) (place : Place) (s t : VmState) : Prop where
  runs : kpageAlloc s.kmem = .ok (none, t.kmem)
  ok : VmOk t live place

/-- The allocator gave a page that is in no place; it can be put into any empty one. -/
structure Taken (live : CacheRef → Multiset Nat) (place : Place) (p : Nat) (s t : VmState) :
    Prop where
  runs : kpageAlloc s.kmem = .ok (some (p * PGSIZE), t.kmem)
  fresh : ∀ slot, place slot ≠ some p
  ok : ∀ slot, place slot = none → VmOk t live (Function.update place slot (some p))

theorem allocPage_twin (ok : VmOk s live place) (same : s'.kmem = s.kmem) :
    Twin allocPage s s' fun r t t' =>
      t.memory = s.memory ∧ t'.memory = s'.memory ∧ t'.kmem = t.kmem ∧
      (r = none ∧ Dry live place s t ∨ ∃ p, r = some p ∧ Taken live place p s t) := by
  obtain ⟨whole, kmem, accounts⟩ := ok.accounts
  obtain ⟨r, b, runs, frame, outcome⟩ := kpageAlloc_yields kmem ok.pageLocks fun _ => ok.not_stuck
  have yields : Yields kpageAlloc s.kmem fun r' b' => r' = r ∧ b' = b :=
    ⟨r, b, runs, rfl, rfl⟩
  refine (Twin.of_part yields same).bind ?_
  rintro r _ _ ⟨b, rfl, rfl, rfl, rfl⟩
  have held : b.held = [] := by rw [frame.held, ok.held]
  have direct : ∀ page ∈ b.managed, Direct page := by rw [frame.managed]; exact ok.direct
  refine .ret ⟨rfl, rfl, rfl, ?_⟩
  rcases outcome with ⟨rfl, after⟩ | ⟨p, rfl, after⟩
  · exact .inl ⟨rfl, runs, ⟨whole, after, accounts⟩, held, direct⟩
  · have page : p * PGSIZE / PGSIZE = p := Nat.mul_div_cancel p (by decide)
    have fresh := (Multiset.nodup_cons.mp after.slabs.pages.whole_nodup).1
    refine .inr ⟨p, by simp [page], runs, ?_, ?_⟩
    · intro slot there
      exact fresh (accounts.mem there)
    · intro slot none_
      exact ⟨⟨_, after, accounts.put fresh none_⟩, held, direct⟩

theorem ptalloc_twin (ok : VmOk s live place) (same : s'.kmem = s.kmem) :
    Twin ptalloc s s' fun r t t' => t'.kmem = t.kmem ∧
      (r = none ∧ t.memory = s.memory ∧ t'.memory = s'.memory ∧ Dry live place s t ∨
        ∃ p, r = some p ∧ t.memory = zeroPage s.memory p ∧ t'.memory = zeroPage s'.memory p ∧
          Taken live place p s t) := by
  refine (allocPage_twin ok same).bind ?_
  rintro r t t' ⟨memory, memory', kmem, ⟨rfl, dry⟩ | ⟨p, rfl, taken⟩⟩
  · exact .ret ⟨kmem, .inl ⟨rfl, memory, memory', dry⟩⟩
  · refine .update_bind (.ret ⟨kmem, .inr ⟨p, rfl, ?_, ?_, taken.runs, taken.fresh, ?_⟩⟩)
    · rw [memory]
    · rw [memory']
    · intro slot bare
      exact (taken.ok slot bare).setMemory _

/-- The page is put in front of the free pages. -/
theorem freePage_pushes (ok : VmOk s live place) (same : s'.kmem = s.kmem)
    (there : place slot = some p) :
    Twin (freePage p) s s' fun _ t t' =>
      t.memory = s.memory ∧ t'.memory = s'.memory ∧ t'.kmem = t.kmem ∧
        t.kmem = s.kmem.pushFree p ∧ VmOk t live (Function.update place slot none) := by
  obtain ⟨whole, kmem, accounts⟩ := ok.accounts
  have member := accounts.mem there
  obtain ⟨managed, flag, refcnt⟩ := kmem.slabs.pages.client p member
  have quiet : Quiet s.kmem (s.kmem.pushFree p) := ⟨rfl, rfl, rfl, fun _ => .refl _⟩
  have split : KmemOk s.kmem live (p ::ₘ whole.erase p) := by
    rwa [Multiset.cons_erase member]
  have after := split.quiet quiet rfl split.slabs.pushFree
  refine (Twin.of_part (kpageFree_yields (Q := fun _ b => b = s.kmem.pushFree p) managed
    (.inl flag) refcnt ok.pageLocks.kmem rfl) same).mono ?_
  rintro - _ _ ⟨_, rfl, rfl, rfl⟩
  exact ⟨rfl, rfl, rfl, rfl, ⟨_, after, accounts.take there⟩, ok.held, ok.direct⟩

theorem freePage_twin (ok : VmOk s live place) (same : s'.kmem = s.kmem)
    (there : place slot = some p) :
    Twin (freePage p) s s' fun _ t t' =>
      t.memory = s.memory ∧ t'.memory = s'.memory ∧ t'.kmem = t.kmem ∧
        VmOk t live (Function.update place slot none) := by
  refine (freePage_pushes ok same there).mono ?_
  rintro - t t' ⟨memory, memory', kmem, -, ok'⟩
  exact ⟨memory, memory', kmem, ok'⟩

end Pmap

end Av6
