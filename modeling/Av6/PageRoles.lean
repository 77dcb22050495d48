import Av6.LifeReachable
import Av6.PmapFrames

/-!
# The roles of pages

What a page is used for can be read off the freelist, the slab lists and the translation tables in
memory.  In every state of a run each managed page is used for exactly one thing, and no other page
is used.
-/

namespace Av6

namespace Life

open FallibleState Kmem Pmap Elf Fork Sbrk

variable {m m' : Machine} {s : Kernel} {live : CacheRef → Multiset Nat} {place : Place}
  {p page : Nat} {slot : Slot} {programs : List (String × Image)} {clients : System}

/-- What a page is used for: a table or a leaf of the page table of a process, a page of its kernel
stack, a table of the window of stacks, a slab, or the page of a client. -/
inductive Role where
  | free
  | user (p : Nat) (slot : Slot)
  | stack (p k : Nat)
  | window (i : Nat)
  | slab (c : CacheRef)
  | client (i : Nat)

/-- The role as the lists and the tables show it. -/
def Role.Holds (clients : System) (s : Kernel) (page : Nat) : Role → Prop
  | .free => page ∈ s.vm.kmem.freelist
  | .user p slot => p ∈ s.allproc ∧ ∃ root, (s.procs p).pagetable = some root ∧ slot.Of root ∧
      frameAt s.vm.memory slot = some page
  | .stack p k => p ∈ s.allproc ∧ k < KSTACK_PAGES ∧
      frameAt s.vm.memory (stackSlot (s.procs p).kslot k) = some page
  | .window i => frameAt s.vm.memory (.stackTable i) = some page
  | .slab c => c ∈ s.vm.kmem.kmemCaches ∧ page ∈ (s.vm.kmem.caches c).slabPages
  | .client i => (wholePages clients.grants)[i]? = some page

/-- The flag and the reference count of a page in this role. -/
def Role.mark : Role → PageFlag × Int
  | .free => (.free, 0)
  | .slab _ => (.slab, 1)
  | _ => (.used, 1)

/-- The place of a page that is neither free nor a slab. -/
def Role.spot (s : Kernel) : Role → Option Slot
  | .free => none
  | .user _ slot => some slot
  | .stack p k => some (stackSlot (s.procs p).kslot k)
  | .window i => some (.stackTable i)
  | .slab _ => none
  | .client i => some (.client i)

/-- No page that is used is free, and every page is used for one thing. -/
structure OneRole (clients : System) (s : Kernel) : Prop where
  once : s.vm.kmem.freelist.Nodup
  unique : ∀ page ∈ s.vm.kmem.managed, ∃! role : Role, role.Holds clients s page
  marked : ∀ page (role : Role), role.Holds clients s page → page ∈ s.vm.kmem.managed ∧
    (s.vm.kmem.flags page, s.vm.kmem.refcnt page) = role.mark

section

variable (sound : Sound (wholePages clients.grants) live place m)
include sound

theorem Sound.direct (slot : Slot) (page : Nat) (there : place slot = some page) : Direct page :=
  sound.ok.twins.ok.direct_of_place there

/-- The tables in memory show what is placed in a process. -/
theorem Sound.frameAt_process (listed : p ∈ m.kernel.allproc) (of : OfProcess m.kernel p slot) :
    frameAt m.kernel.vm.memory slot = place slot := by
  have forest := sound.ok.twins.forest
  rcases of with ⟨k, -, rfl⟩ | ⟨root, has, of⟩
  · exact forest.frameAt_stack sound.direct
  · exact forest.frameAt_of sound.direct ((sound.ok.process p listed).space root has).rooted of

/-- A page with a role is in the place of the role. -/
theorem Sound.place_of_holds {role : Role} (holds : role.Holds clients m.kernel page)
    (has : role.spot m.kernel = some slot) : place slot = some page := by
  have forest := sound.ok.twins.forest
  cases role with
  | free | slab => cases has
  | user p slot =>
      cases has
      obtain ⟨listed, root, table, of, frame⟩ := holds
      rw [← sound.frameAt_process listed (.inr ⟨root, table, of⟩), frame]
  | stack p k =>
      cases has
      obtain ⟨listed, low, frame⟩ := holds
      rw [← sound.frameAt_process listed (.inl ⟨k, low, rfl⟩), frame]
  | window i =>
      cases has
      rw [← forest.frameAt_stackTable sound.direct]
      exact holds
  | client i =>
      cases has
      rw [sound.housed.clients]
      exact holds

/-- The roles of one place are the same. -/
theorem Sound.role_of_place {role role' : Role} {page' : Nat}
    (holds : role.Holds clients m.kernel page) (holds' : role'.Holds clients m.kernel page')
    (has : role.spot m.kernel = some slot) (has' : role'.spot m.kernel = some slot) :
    role = role' := by
  cases role with
  | free | slab => cases has
  | user p _ =>
      cases has
      obtain ⟨listed, root, table, of, -⟩ := holds
      cases role' with
      | free | slab => cases has'
      | user p' _ =>
          cases has'
          obtain ⟨listed', root', table', of', -⟩ := holds'
          obtain rfl := Exec.root_unique of of'
          rw [sound.ok.apart p listed p' listed' root table table']
      | stack | window | client =>
          cases has'
          exact of.elim
  | stack p k =>
      cases has
      obtain ⟨listed, low, -⟩ := holds
      cases role' with
      | free | slab => cases has'
      | user p' _ =>
          cases has'
          obtain ⟨_, _, _, of, _⟩ := holds'
          exact of.elim
      | stack p' k' =>
          obtain ⟨listed', low', -⟩ := holds'
          have same : stackSlot (m.kernel.procs p').kslot k' = stackSlot (m.kernel.procs p).kslot k :=
            Option.some.inj has'
          have slots : (m.kernel.procs p).kslot = (m.kernel.procs p').kslot := by
            by_contra apart
            exact other_stack low apart (.inr ⟨k', low', same.symm⟩)
          rw [slots] at same
          rw [sound.housed.slots p listed p' listed' slots, stackSlot_inj same]
      | window | client => cases has'
  | window i =>
      cases has
      cases role' with
      | free | slab | stack | client => cases has'
      | user p' _ =>
          cases has'
          obtain ⟨_, _, _, of, _⟩ := holds'
          exact of.elim
      | window => cases has'; rfl
  | client i =>
      cases has
      cases role' with
      | free | slab | stack | window => cases has'
      | user p' _ =>
          cases has'
          obtain ⟨_, _, _, of, _⟩ := holds'
          exact of.elim
      | client => cases has'; rfl

/-- A page that is placed has a role. -/
theorem Sound.exists_role (there : place slot = some page) :
    ∃ role : Role, role.Holds clients m.kernel page ∧ role.spot m.kernel = some slot := by
  have forest := sound.ok.twins.forest
  have owned : OfProcesses slot → ∃ role : Role, role.Holds clients m.kernel page ∧
      role.spot m.kernel = some slot := by
    intro of
    obtain ⟨p, listed, ofProcess⟩ := sound.housed.owned slot of (by simp [there])
    have frame := (sound.frameAt_process listed ofProcess).trans there
    rcases ofProcess with ⟨k, low, rfl⟩ | ⟨root, table, ofRoot⟩
    · exact ⟨.stack p k, ⟨listed, low, frame⟩, rfl⟩
    · exact ⟨.user p slot, ⟨listed, root, table, ofRoot, frame⟩, rfl⟩
  cases slot with
  | table | leaf | stack => exact owned trivial
  | stackTable i => exact ⟨.window i, (forest.frameAt_stackTable sound.direct).trans there, rfl⟩
  | hand i =>
      rw [sound.housed.hands] at there
      cases there
  | client i => exact ⟨.client i, (sound.housed.clients i).symm.trans there, rfl⟩

/-- The allocator has the page under the mark of its role. -/
theorem Sound.marked {role : Role} (holds : role.Holds clients m.kernel page) :
    page ∈ m.kernel.vm.kmem.managed ∧
      (m.kernel.vm.kmem.flags page, m.kernel.vm.kmem.refcnt page) = role.mark := by
  obtain ⟨whole, kmem, accounts⟩ := sound.ok.twins.ok.accounts
  have pages := kmem.slabs.pages
  have placed : ∀ slot, role.spot m.kernel = some slot → page ∈ m.kernel.vm.kmem.managed ∧
      (m.kernel.vm.kmem.flags page, m.kernel.vm.kmem.refcnt page) = (PageFlag.used, 1) := by
    intro slot has
    obtain ⟨managed, flag, count⟩ := pages.client page (accounts.mem (sound.place_of_holds holds has))
    exact ⟨managed, by rw [flag, count]⟩
  cases role with
  | free =>
      obtain ⟨managed, flag, count⟩ := pages.free page holds
      exact ⟨managed, by rw [flag, count]; rfl⟩
  | slab c =>
      have slab := (kmem.slabs.cache c holds.1).page page holds.2
      exact ⟨slab.managed, by rw [slab.flag, slab.refcnt]; rfl⟩
  | user p slot => exact placed _ rfl
  | stack p k => exact placed _ rfl
  | window i => exact placed _ rfl
  | client i => exact placed _ rfl

theorem Sound.oneRole : OneRole clients m.kernel := by
  obtain ⟨whole, kmem, accounts⟩ := sound.ok.twins.ok.accounts
  have pages := kmem.slabs.pages
  refine ⟨pages.free_nodup, ?_, fun page role holds => sound.marked holds⟩
  intro page managed
  have alike : ∀ {role role' : Role}, role.Holds clients m.kernel page →
      role'.Holds clients m.kernel page → role' = role := by
    intro role role' holds holds'
    have mark : role'.mark = role.mark :=
      (sound.marked holds').2.symm.trans (sound.marked holds).2
    have placed : ∀ slot slot', role.spot m.kernel = some slot → role'.spot m.kernel = some slot' →
        role' = role := by
      intro slot slot' has has'
      have there := sound.place_of_holds holds has
      have there' := sound.place_of_holds holds' has'
      rw [accounts.unique _ _ _ there' there] at has'
      exact sound.role_of_place holds' holds has' has
    cases role with
    | free =>
        cases role' with
        | free => rfl
        | user | stack | window | slab | client => cases mark
    | slab c =>
        cases role' with
        | slab d =>
            have ofC := (kmem.slabs.cache c holds.1).page page holds.2
            have ofD := (kmem.slabs.cache d holds'.1).page page holds'.2
            rw [← ofC.cache, ← ofD.cache]
        | free | user | stack | window | client => cases mark
    | user | stack | window | client =>
        cases role' with
        | free | slab => cases mark
        | user | stack | window | client => exact placed _ _ rfl rfl
  have some_ : ∃ role : Role, role.Holds clients m.kernel page := by
    rcases pages.complete page managed with free | whole_ | ⟨c, member, slab⟩
    · exact ⟨.free, free⟩
    · obtain ⟨slot, there⟩ := (accounts.mem_iff page).mp whole_
      obtain ⟨role, holds, -⟩ := sound.exists_role there
      exact ⟨role, holds⟩
    · exact ⟨.slab c, member, slab⟩
  obtain ⟨role, holds⟩ := some_
  exact ⟨role, holds, fun _ => alike holds⟩

end

/-- In every state of a run every page has one role. -/
theorem page_roles (runs : Runs programs clients m) : OneRole clients m.kernel := by
  obtain ⟨live, place, sound⟩ := runs_sound runs
  exact sound.oneRole

theorem page_roles_child : ∃ clients m p c, Runs [] clients m ∧ m.kernel.allproc = [c, p] ∧
    OneRole clients m.kernel := by
  obtain ⟨clients, m, p, c, runs, list, -⟩ := exists_child
  exact ⟨clients, m, p, c, runs, list, page_roles runs⟩

end Life

end Av6
