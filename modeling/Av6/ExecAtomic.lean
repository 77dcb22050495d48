import Av6.ExecRuns
import Av6.ExecSlabs
import Av6.ElfBounds

/-!
# A failed exec changes nothing

Wherever `exec` gives up, the process and TTBR0 are as they were, the caller's address space is
translated as before to pages with the same contents, and the free pages are free again.
-/

namespace Av6

namespace Exec

open FallibleState Kmem Pmap Elf

variable {s t : ExecState} {live : CacheRef → Multiset Nat} {place : Place}
  {programs : List (String × Image)} {path : String} {uargv : Nat}

/-- The page tables of the processes are in memory, that of the caller among them; a place for the
page that `exec` has just taken is empty. -/
structure Caller (live : CacheRef → Multiset Nat) (place : Place) (s : ExecState) : Prop where
  twins : Twins live place s.vm s.vm
  rooted : place (.table s.proc.pagetable 0 0) = some s.proc.pagetable
  bare : place (.hand 0) = none

/-- The process, TTBR0, the address space of the caller and the free pages are as before. -/
structure Unchanged (s t : ExecState) : Prop where
  proc : t.proc = s.proc
  ttbr0 : t.ttbr0 = s.ttbr0
  translation : ∀ va, translate t.vm.memory s.proc.pagetable va =
    translate s.vm.memory s.proc.pagetable va
  contents : ∀ va pte, translate s.vm.memory s.proc.pagetable va = some pte → ∀ off,
    t.vm.memory (ptePage pte) off = s.vm.memory (ptePage pte) off
  freelist : Restored s.vm.kmem t.vm.kmem

/-- `exec` on the memory, with what it does to the places of the pages. -/
theorem exec_twinOr {v v' : VmState} {old : Nat} (programs : List (String × Image)) (path : String)
    (uargv : Nat) (args : List (List UInt8)) (twins : Twins live place v v')
    (bare : place (.hand 0) = none) (caller : place (.table old 0 0) = some old) :
    TwinOr Pmap.Panic.OfMapping (exec programs path old uargv) v v' fun r u u' =>
      Finished old uargv args live place v v' r u u' := by
  unfold exec
  split
  · exact .ret (.failure ⟨twins, .refl _ _ _ _⟩)
  · exact execImage_twinOr _ uargv args twins bare caller

/-- The return value of `exec` for what it did to the memory, and what the process then is. -/
def settle (path : String) (result : Option Loaded) (s : ExecState) : Int × ExecState :=
  match result with
  | none => (-1, s)
  | some loaded => (0, install path loaded s)

/-- What the process does after a run on the memory. -/
theorem execProc_eq {result : Option Loaded} {vm : VmState}
    (runs : exec programs path s.proc.pagetable uargv s.vm = .ok (result, vm)) :
    execProc programs path uargv s = .ok (settle path result { s with vm }) := by
  have part : onPart ExecState.vm (fun s vm => { s with vm }) id
      (exec programs path s.proc.pagetable uargv) s = .ok (result, { s with vm }) := by
    unfold onPart
    rw [runs]
  have read : (get : StateT ExecState (Except Pmap.Panic) ExecState) s = .ok (s, s) := rfl
  unfold execProc
  rw [bind_eq_of_ok read, bind_eq_of_ok part]
  cases result with
  | none => rfl
  | some loaded => rfl

theorem execProc_fails {e : Pmap.Panic}
    (fails : exec programs path s.proc.pagetable uargv s.vm = .error e) :
    execProc programs path uargv s = .error e := by
  refine Fails.read_bind (Fails.bind ?_)
  unfold Fails onPart
  rw [fails]
  rfl

/-- A run of `exec` by the process is a run on the memory, and what is installed then. -/
theorem execProc_cases {r : Int} (runs : execProc programs path uargv s = .ok (r, t)) :
    ∃ result vm, exec programs path s.proc.pagetable uargv s.vm = .ok (result, vm) ∧
      (result = none ∧ r = -1 ∧ t = { s with vm } ∨
        ∃ loaded, result = some loaded ∧ r = 0 ∧ t = install path loaded { s with vm }) := by
  cases outcome : exec programs path s.proc.pagetable uargv s.vm with
  | error e =>
      rw [execProc_fails outcome] at runs
      cases runs
  | ok result =>
      obtain ⟨result, vm⟩ := result
      rw [execProc_eq outcome] at runs
      refine ⟨result, vm, rfl, ?_⟩
      cases result with
      | none =>
          cases runs
          exact .inl ⟨rfl, rfl, rfl⟩
      | some loaded =>
          cases runs
          exact .inr ⟨loaded, rfl, rfl, rfl⟩

/-- The run on the memory, from the state of a caller. -/
theorem Caller.finished {result : Option Loaded} {vm : VmState} (caller : Caller live place s)
    (args : List (List UInt8))
    (runs : exec programs path s.proc.pagetable uargv s.vm = .ok (result, vm)) :
    Finished s.proc.pagetable uargv args live place s.vm s.vm result vm vm := by
  rcases exec_twinOr programs path uargv args caller.twins caller.bare caller.rooted with
    ⟨e, -, fails, -⟩ | twin
  · rw [Fails, runs] at fails
    cases fails
  · exact twin.self.post_of_eq runs

/-- If `exec` returns -1, nothing has changed for the caller, and every page that was taken is
free again. -/
theorem exec_failure_atomic (caller : Caller live place s)
    (fails : execProc programs path uargv s = .ok (-1, t)) :
    Unchanged s t ∧ Caller live place t := by
  obtain ⟨result, vm, runs, ⟨rfl, -, rfl⟩ | ⟨loaded, -, ⟨⟩, -⟩⟩ := execProc_cases fails
  have undone := (caller.finished [] runs).failed rfl
  have same : TreeSame place s.proc.pagetable s.vm.memory vm.memory :=
    fun slot p off _ there => (undone.within.contents slot p off id there).1
  obtain ⟨whole, kmem, accounts⟩ := caller.twins.ok.accounts
  obtain ⟨whole', kmem', accounts'⟩ := undone.twins.ok.accounts
  -- the clients have the same pages: those that are placed
  obtain rfl : whole' = whole := by
    refine (Multiset.Nodup.ext accounts'.nodup accounts.nodup).mpr fun p => ?_
    rw [accounts'.mem_iff, accounts.mem_iff]
  refine ⟨⟨rfl, rfl, ?_, ?_, ?_⟩, undone.twins, caller.rooted, caller.bare⟩
  · exact same.tables.translate_eq caller.twins caller.rooted
  · intro va pte found off
    have leaf := translate_leaf caller.twins caller.rooted found
    exact same (leafSlot s.proc.pagetable va) _ off rfl leaf
  · exact kmem.restored kmem' (exec_keepsSlabs _ _ _ _ _ _ _ runs)

/-- A process that runs on a page table. -/
def runningOn (root : Nat) (vm : VmState) : ExecState where
  vm := vm
  proc := {
    pagetable := root
    sz := 0
    tf := { x := fun _ => 0, sp := 0, elr := 0, spsr := 0, tpidr := 0 }
    name := procName "/init"
    asidCtx := 1 }
  ttbr0 := switchuvm 1 root
  asidNumTotal := 256

/-- The page table that `exec` has just made is empty. -/
theorem created_built {v w : VmState} {root : Nat} (twins : Twins live place v v)
    (bare : place (.hand 0) = none) (created : uvmcreate v = .ok (some root, w)) :
    (∀ slot : Slot, slot.Of root → place slot = none) ∧
      Built root [] live (Function.update place (.table root 0 0) (some root)) w ∧
      Within (Slot.Of root) place (Function.update place (.table root 0 0) (some root)) v v w w := by
  rcases (uvmcreate_twin twins).self.post_of_eq created with
    ⟨none_, -⟩ | ⟨root', same, bareRoot, -, twins', grown⟩
  · cases none_
  cases same
  have fresh := fresh_of_bare twins bareRoot
  refine ⟨fresh, ⟨twins', Function.update_self .., ?_, ?_, ?_⟩, grown.within.mono ?_⟩
  · intro l _ above
    rw [Function.update_of_ne (by simp), fresh (.table root (l + 1) above) rfl]
    simp
  · intro vpn
    rw [Function.update_of_ne (by simp), fresh (.leaf root vpn) rfl]
    simp
  · rw [Function.update_of_ne (by simp), bare]
  · intro slot same
    subst same
    exact rfl

theorem exists_caller {n : Nat} (few : n < 2 ^ 36) : ∃ live place root vm,
    Caller live place (runningOn root vm) ∧ Supplies vm.kmem n := by
  obtain ⟨root, vm, ⟨live, place, built⟩, supplies⟩ := exists_fresh few
  exact ⟨live, place, root, vm, ⟨built.twins, built.rooted, built.hand⟩, supplies⟩

/-- A file that is no image: the new page table is taken and given back. -/
def emptyImage : Image := imageOf [] (by decide)

theorem execProc_emptyImage (caller : Caller live place s) :
    ∃ t, execProc [("/empty", emptyImage)] "/empty" uargv s = .ok (-1, t) := by
  have fails : Yields (exec [("/empty", emptyImage)] "/empty" s.proc.pagetable uargv) s.vm
      fun r _ => r = none := by
    refine (uvmcreate_twin caller.twins).self.bind ?_
    rintro _ v (⟨rfl, -⟩ | ⟨root, rfl, -, -, twins, -⟩)
    · exact .ret rfl
    · have rejected : loadelf emptyImage false root v = .ok (none, v) := rfl
      refine Yields.bind (.of_eq (Q := fun r w => r = none ∧ v = w) rejected ⟨rfl, rfl⟩) ?_
      rintro _ _ ⟨rfl, rfl⟩
      exact (uvmfree_twin twins (Function.update_self ..)).self.bind fun _ _ _ => .ret rfl
  obtain ⟨_, vm, runs, rfl⟩ := fails
  exact ⟨{ s with vm }, execProc_eq runs⟩

theorem exec_failure_atomic_emptyImage : ∃ live place s t, Caller live place s ∧
    execProc [("/empty", emptyImage)] "/empty" 0 s = .ok (-1, t) ∧ Unchanged s t := by
  obtain ⟨live, place, root, vm, caller, -⟩ := @exists_caller 1 (by decide)
  obtain ⟨t, fails⟩ := @execProc_emptyImage (runningOn root vm) live place 0 caller
  exact ⟨live, place, runningOn root vm, t, caller, fails, (exec_failure_atomic caller fails).1⟩

end Exec

end Av6
