import Av6.LifeModel
import Av6.SbrkReachable

/-!
# The holders of pages

Every page that is placed has a holder: a listed process, a client of the page allocator, or the
window of kernel stacks.  Of the processes in the list, no two have the same stack.
-/

namespace Av6

namespace Life

open FallibleState Kmem Pmap Elf Fork Sbrk Bitstring

variable {s t u : Kernel} {live : CacheRef → Multiset Nat} {place place' : Place} {pages : List Nat}
  {p np pid idx : Nat} {q : Proc} {w w' : VmState} {slot : Slot}

/-- The places of a process: its stack and its address space. -/
def OfProcess (s : Kernel) (p : Nat) (slot : Slot) : Prop :=
  (∃ k < KSTACK_PAGES, slot = stackSlot (s.procs p).kslot k) ∨
    ∃ r, (s.procs p).pagetable = some r ∧ slot.Of r

/-- A place of a stack or of an address space. -/
def OfProcesses : Slot → Prop
  | .table .. => True
  | .leaf .. => True
  | .stack .. => True
  | _ => False

/-- Between the calls, every page is held by a process, by a client, or by the window. -/
structure Housed (pages : List Nat) (place : Place) (s : Kernel) : Prop where
  hands : ∀ i, place (.hand i) = none
  clients : ∀ i, place (.client i) = pages[i]?
  owned : ∀ slot, OfProcesses slot → place slot ≠ none → ∃ p ∈ s.allproc, OfProcess s p slot
  mapped : ∀ p ∈ s.allproc, ∀ k < KSTACK_PAGES, place (stackSlot (s.procs p).kslot k) ≠ none
  tops : ∀ p ∈ s.allproc, (s.procs p).kstack = kstackTop (s.procs p).kslot ∧
    (s.procs p).tf = kstackTop (s.procs p).kslot - TF_SIZE
  slots : ∀ p ∈ s.allproc, ∀ q ∈ s.allproc, (s.procs p).kslot = (s.procs q).kslot → p = q
  nodup : s.allproc.Nodup

theorem ofProcesses_of {r : Nat} (of : slot.Of r) : OfProcesses slot := by
  cases slot with
  | table | leaf => trivial
  | stackTable | stack | hand | client => exact of.elim

theorem OfProcesses.not_ofStack (of : OfProcesses slot)
    (other : ∀ k < KSTACK_PAGES, slot ≠ stackSlot idx k) : ¬ slot.OfStack idx := by
  rintro (rfl | ⟨k, low, same⟩)
  · exact of
  · exact other k low same

theorem OfProcess.congr (of : OfProcess s p slot)
    (kslot : (t.procs p).kslot = (s.procs p).kslot)
    (table : ∀ r, (s.procs p).pagetable = some r → slot.Of r → (t.procs p).pagetable = some r) :
    OfProcess t p slot := by
  rcases of with ⟨k, low, same⟩ | ⟨r, has, of⟩
  · left
    rw [kslot]
    exact ⟨k, low, same⟩
  · exact .inr ⟨r, table r has of, of⟩

/-- The same pages are held by the same processes. -/
structure SameHolders (s t : Kernel) : Prop where
  allproc : t.allproc = s.allproc
  object : ∀ p ∈ s.allproc, (t.procs p).kslot = (s.procs p).kslot ∧
    (t.procs p).kstack = (s.procs p).kstack ∧ (t.procs p).tf = (s.procs p).tf

/-- Nothing is put into a place of a process but by the process, nor taken from its stack. -/
theorem Housed.keep (housed : Housed pages place s) (same : SameHolders s t)
    (hands : ∀ i, place' (.hand i) = place (.hand i))
    (clients : ∀ i, place' (.client i) = place (.client i))
    (windows : ∀ i j, place' (.stack i j) = place (.stack i j))
    (owned : ∀ slot r, slot.Of r → place' slot ≠ none →
      ∃ p ∈ s.allproc, (t.procs p).pagetable = some r) : Housed pages place' t := by
  constructor
  · intro i
    rw [hands, housed.hands]
  · intro i
    rw [clients, housed.clients]
  · intro slot of filled
    rw [same.allproc]
    have tree : ∀ r, slot.Of r → ∃ p ∈ s.allproc, OfProcess t p slot := by
      intro r ofRoot
      obtain ⟨p, there, has⟩ := owned slot r ofRoot filled
      exact ⟨p, there, .inr ⟨r, has, ofRoot⟩⟩
    cases slot with
    | table r => exact tree r rfl
    | leaf r => exact tree r rfl
    | stack i j =>
        rw [windows] at filled
        obtain ⟨p, there, holds⟩ := housed.owned _ of filled
        exact ⟨p, there, holds.congr (same.object p there).1 fun r _ of => of.elim⟩
    | stackTable | hand | client => exact of.elim
  · intro p there k low
    rw [same.allproc] at there
    rw [(same.object p there).1]
    show place' (.stack _ _) ≠ none
    rw [windows]
    exact housed.mapped p there k low
  · intro p there
    rw [same.allproc] at there
    obtain ⟨kslot, kstack, tf⟩ := same.object p there
    rw [kslot, kstack, tf]
    exact housed.tops p there
  · intro p there q there' alike
    rw [same.allproc] at there there'
    rw [(same.object p there).1, (same.object q there').1] at alike
    exact housed.slots p there q there' alike
  · rw [same.allproc]
    exact housed.nodup

/-- A tree that is placed is that of a process. -/
theorem Housed.tree {r : Nat} (housed : Housed pages place s) (of : slot.Of r)
    (filled : place slot ≠ none) : ∃ p ∈ s.allproc, (s.procs p).pagetable = some r := by
  obtain ⟨p, there, ⟨k, -, same⟩ | ⟨r', has, of'⟩⟩ := housed.owned slot (ofProcesses_of of) filled
  · rw [same] at of
    exact of.elim
  · rw [Exec.root_unique of of']
    exact ⟨p, there, has⟩

/-- After a call that fails. -/
theorem Housed.withdrawn (housed : Housed pages place s) (ok : KernelOk live place s)
    (rest : t = { s with vm := t.vm, procs := t.procs })
    (procs : ∀ p ∈ live s.procCache, t.procs p = s.procs p)
    (grown : Grown IsWindowTable place place' s.vm w t.vm w') : Housed pages place' t := by
  have object : ∀ p ∈ s.allproc, t.procs p = s.procs p := fun p there =>
    procs p (ok.objects p there)
  have same : ∀ {slot : Slot}, (∀ i, slot ≠ .stackTable i) → place' slot = place slot := by
    intro slot other
    apply grown.only
    rintro ⟨i, table⟩
    exact other i table
  apply housed.keep
  · constructor
    · rw [rest]
    · intro p there
      rw [object p there]
      exact ⟨rfl, rfl, rfl⟩
  · exact fun i => same nofun
  · exact fun i => same nofun
  · exact fun i j => same nofun
  · intro slot r of filled
    rw [same (by rintro i rfl; exact of)] at filled
    obtain ⟨p, there, has⟩ := housed.tree of filled
    exact ⟨p, there, by rw [object p there, has]⟩

/-- After a call that has changed the address space of one process. -/
theorem Housed.reseated (housed : Housed pages place s) (listed : p ∈ s.allproc)
    (reseated : Reseated p place place' s t) : Housed pages place' t := by
  obtain ⟨rest, ⟨kslot, kstack, tf, -⟩, -, within, gone⟩ := reseated
  have other : ∀ {p'}, p' ≠ p → t.procs p' = s.procs p' := by
    intro p' apart
    rw [rest]
    exact Function.update_of_ne apart _ _
  have outside : ∀ {slot : Slot}, (∀ r, ¬ slot.Of r) → place' slot = place slot := by
    intro slot notOf
    apply within.only
    rintro ⟨r, -, of⟩
    exact notOf r of
  apply housed.keep
  · constructor
    · rw [rest]
    · intro p' there
      by_cases same : p' = p
      · rw [same]
        exact ⟨kslot, kstack, tf⟩
      · rw [other same]
        exact ⟨rfl, rfl, rfl⟩
  · exact fun i => outside fun _ => id
  · exact fun i => outside fun _ => id
  · exact fun i j => outside fun _ => id
  · intro slot r of filled
    by_cases new : (t.procs p).pagetable = some r
    · exact ⟨p, listed, new⟩
    have notOld : (s.procs p).pagetable ≠ some r := fun has => new (gone r has slot of filled)
    have before : place' slot = place slot := by
      apply within.only
      rintro ⟨r', has, of'⟩
      rw [← Exec.root_unique of of'] at has
      exact has.elim notOld new
    rw [before] at filled
    obtain ⟨p', there, has⟩ := housed.tree of filled
    have apart : p' ≠ p := by
      rintro rfl
      exact notOld has
    exact ⟨p', there, by rw [other apart, has]⟩

/-- After a call that has made a process. -/
theorem Housed.birth {parent : Option Nat} (housed : Housed pages place s)
    (ok : KernelOk live place s) (birth : Birth parent live place place' np pid idx q s w t w') :
    Housed pages place' t := by
  obtain ⟨less, clear⟩ := birth.slot
  have after := birth.after
  have new : t.procs np = q := by
    rw [after]
    exact Function.update_self ..
  have notNew : ∀ {p}, p ∈ s.allproc → p ≠ np := by
    rintro p there rfl
    exact birth.fresh (ok.objects p there)
  have old : ∀ {p}, p ∈ s.allproc → t.procs p = s.procs p := by
    intro p there
    rw [after]
    exact Function.update_of_ne (notNew there) _ _
  have list : t.allproc = np :: s.allproc := by rw [after]; rfl
  have otherSlot : ∀ {p}, p ∈ s.allproc → (s.procs p).kslot ≠ idx := by
    intro p there same
    have used := (ok.process p there).used
    rw [same, clear] at used
    cases used
  have kslot : (t.procs np).kslot = idx := by rw [new, birth.named.2.1]
  have outside : ∀ {slot : Slot}, ¬ OfNew idx q slot → place' slot = place slot :=
    fun notNew => birth.within.only _ notNew
  constructor
  · intro i
    rw [outside, housed.hands]
    rintro ((same | ⟨k, -, same⟩) | ⟨r, -, of⟩)
    · cases same
    · cases same
    · exact of
  · intro i
    rw [outside, housed.clients]
    rintro ((same | ⟨k, -, same⟩) | ⟨r, -, of⟩)
    · cases same
    · cases same
    · exact of
  · intro slot of filled
    rw [list]
    by_cases mine : OfNew idx q slot
    · refine ⟨np, List.mem_cons_self .., ?_⟩
      rcases mine with (same | ⟨k, low, same⟩) | ⟨r, has, ofRoot⟩
      · rw [same] at of
        exact of.elim
      · left
        rw [kslot]
        exact ⟨k, low, same⟩
      · right
        rw [new]
        exact ⟨r, has, ofRoot⟩
    · rw [outside mine] at filled
      obtain ⟨p, there, holds⟩ := housed.owned slot of filled
      refine ⟨p, List.mem_cons_of_mem _ there, holds.congr ?_ ?_⟩
      · rw [old there]
      · intro r has _
        rw [old there, has]
  · intro p there k low
    rw [list] at there
    rcases List.mem_cons.mp there with rfl | there
    · rw [kslot]
      exact birth.stack k low
    · rw [old there, outside]
      · exact housed.mapped p there k low
      · rintro (ofStack | ⟨r, -, of⟩)
        · exact other_stack low (otherSlot there) ofStack
        · exact of
  · intro p there
    rw [list] at there
    rcases List.mem_cons.mp there with rfl | there
    · rw [kslot, new]
      exact birth.top
    · rw [old there]
      exact housed.tops p there
  · intro p there p' there' same
    rw [list] at there there'
    rcases List.mem_cons.mp there with here | listed <;>
      rcases List.mem_cons.mp there' with here' | listed'
    · rw [here, here']
    · rw [here, kslot, old listed'] at same
      exact absurd same.symm (otherSlot listed')
    · rw [here', kslot, old listed] at same
      exact absurd same (otherSlot listed)
    · rw [old listed, old listed'] at same
      exact housed.slots p listed p' listed' same
  · rw [list]
    exact List.nodup_cons.mpr ⟨fun there => notNew there rfl, housed.nodup⟩

end Life

end Av6
