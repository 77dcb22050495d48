import Av6.SbrkReachable

/-!
# Stale data

Calls of `exec`, `fork` and `growproc` in two runs, from states that agree but for what the free
pages hold.  The runs have the same results, and their processes read the same bytes.
-/

namespace Av6

namespace Sbrk

open FallibleState Kmem Pmap Elf Fork
open Exec (userByte translate translate_kept translate_leaf)

variable {s s' t u : Kernel} {v v' w w' : VmState} {live : CacheRef → Multiset Nat} {place : Place}
  {programs : List (String × Image)} {path : String} {p root uargv : Nat} {n : BitVec 32} {r : Int}
  {cpu cpu' : Fin NCPU_MAX}

/-- Two states that agree but for what is in the free pages. -/
structure SameButFree (s s' : Kernel) : Prop where
  rest : s' = { s with vm := { s.vm with memory := s'.vm.memory } }
  contents : ∀ p ∉ s.vm.kmem.freelist, ∀ off, s'.vm.memory p off = s.vm.memory p off

/-- A call that changes an address space or makes one. -/
inductive SpaceCall
  | exec (path : String) (uargv : Nat)
  | fork (cpu cpu' : Fin NCPU_MAX)
  | growproc (n : BitVec 32)

/-- The call by the process `p`. -/
def SpaceCall.run (programs : List (String × Image)) (p : Nat) : SpaceCall → Kern Int
  | exec path uargv => Sbrk.exec programs path uargv p
  | fork cpu cpu' => Fork.fork cpu cpu' p
  | growproc n => Sbrk.growproc p n

/-- Calls by processes in the list, one after the other, with their results. -/
inductive Calls (programs : List (String × Image)) : List (Nat × SpaceCall × Int) → Kernel → Kernel →
    Prop
  | nil (s : Kernel) : Calls programs [] s s
  | cons {p call r calls s t u} (listed : p ∈ s.allproc)
      (runs : SpaceCall.run programs p call s = .ok (r, t)) (rest : Calls programs calls t u) :
      Calls programs ((p, call, r) :: calls) s u

/-- A placed page is not free, nor is the table of the window. -/
theorem twins_of_sameButFree (ok : KernelOk live place s) (same : SameButFree s s') :
    Twins live place s.vm s'.vm := by
  obtain ⟨whole, kmem, accounts⟩ := ok.twins.ok.accounts
  have pages := kmem.slabs.pages
  refine ⟨ok.twins.ok, ok.twins.forest, ?_, ?_, ?_⟩
  · rw [same.rest]
  · intro slot p _ there off _
    apply same.contents p
    intro free
    have used := (pages.client p (accounts.mem there)).2.1
    rw [(pages.free p free).2.1] at used
    cases used
  · intro off _
    apply same.contents L2_KSTACK
    intro free
    exact (ok.twins.ok.direct _ (pages.free _ free).1).ne_window rfl

/-- The user reads the same in both runs. -/
theorem userByte_of_twins (twins : Twins live place v w)
    (rooted : place (.table root 0 0) = some root) (va : Nat) :
    userByte w.memory root va = userByte v.memory root va := by
  have same : translate w.memory root va = translate v.memory root va := by
    apply translate_kept twins.left twins.right rooted rooted
    · exact fun _ _ _ => rfl
    · exact fun slot up i page hangs there _ _ => twins.agree.word hangs.known_up there hangs.1
    · exact Iff.rfl
  unfold userByte
  rw [same]
  cases found : translate v.memory root va with
  | none => rfl
  | some pte =>
      have leaf := translate_leaf twins.left rooted found
      dsimp only
      rw [twins.agree.contents (leafSlot root va) _ trivial leaf _ (Nat.mod_lt va (by decide))]

/-- A call in two runs. -/
theorem SpaceCall.paired (call : SpaceCall) (ok : KernelOk live place s)
    (twins : Twins live place s.vm w) (listed : p ∈ s.allproc) :
    Paired (fun _ => True) (call.run programs p) s w
      fun _ t w' => ∃ live place, KernelOk live place t ∧ Twins live place t.vm w' := by
  cases call with
  | exec path uargv =>
      apply (exec_paired ok twins listed).mono
      intro r t w' ⟨place', ok', twins'⟩
      exact ⟨live, place', ok', twins'⟩
  | fork cpu cpu' =>
      apply (fork_paired ok twins listed).mono
      rintro r t w' (⟨-, withdrawn⟩ | ⟨pid, -, spawned⟩)
      · obtain ⟨place', ok', twins'⟩ := withdrawn.ok ok
        exact ⟨live, place', ok', twins'⟩
      · obtain ⟨np, idx, q, frames, vm, place', rfl, -, -, -, -, -, -, -, -, ok', twins'⟩ :=
          spawned.made
        exact ⟨_, place', ok', twins'⟩
  | growproc n =>
      cases table : (s.procs p).pagetable with
      | none =>
          apply ((growproc_thread table).allow fun _ _ => trivial).mono
          rintro r t w' ⟨rfl, rfl⟩
          exact ⟨live, place, ok, twins⟩
      | some root =>
          apply ((growproc_paired ok listed table twins n).allow fun _ _ => trivial).mono
          intro r t w' ⟨place', settled, twins'⟩
          exact ⟨live, place', settled.ok ok listed table, twins'⟩

/-- The calls run in the second state as in the first, with the same results. -/
theorem Calls.paired {calls : List (Nat × SpaceCall × Int)} (runs : Calls programs calls s t)
    (ok : KernelOk live place s) (twins : Twins live place s.vm w) :
    ∃ w' live place, Calls programs calls { s with vm := w } { t with vm := w' } ∧
      KernelOk live place t ∧ Twins live place t.vm w' := by
  induction runs generalizing live place w with
  | nil s => exact ⟨w, live, place, .nil _, ok, twins⟩
  | @cons p call r calls s t u listed runs _ ih =>
      obtain ⟨w₁, runs', live₁, place₁, ok₁, twins₁⟩ := (call.paired ok twins listed).second runs
      obtain ⟨w', live', place', rest', ok', twins'⟩ := ih ok₁ twins₁
      exact ⟨w', live', place', .cons listed runs' rest', ok', twins'⟩

/-- The calls and their results say where they end. -/
theorem Calls.unique {calls : List (Nat × SpaceCall × Int)} (runs : Calls programs calls s t)
    (runs' : Calls programs calls s u) : u = t := by
  induction runs with
  | nil s =>
      cases runs'
      rfl
  | cons _ runs _ ih =>
      cases runs' with
      | cons _ again rest =>
          rw [runs] at again
          cases again
          exact ih rest

/-- The user reads no stale data: what the free pages held makes no difference, neither to the
results of the calls nor to the bytes that a process reads afterwards. -/
theorem reads_no_stale {calls : List (Nat × SpaceCall × Int)} (ok : KernelOk live place s)
    (same : SameButFree s s') (runs : Calls programs calls s t) :
    ∃ t', Calls programs calls s' t' ∧ (∀ u, Calls programs calls s' u → u = t') ∧
      t' = { t with vm := t'.vm } ∧ ∀ p ∈ t.allproc, ∀ root, (t.procs p).pagetable = some root →
        ∀ va, userByte t'.vm.memory root va = userByte t.vm.memory root va := by
  have twins := twins_of_sameButFree ok same
  obtain ⟨w', live', place', runs', ok', twins'⟩ := runs.paired ok twins
  have start : ({ s with vm := s'.vm } : Kernel) = s' := by
    rw [same.rest]
  rw [start] at runs'
  refine ⟨{ t with vm := w' }, runs', fun u again => runs'.unique again, rfl, ?_⟩
  intro p listed root table va
  exact userByte_of_twins twins' ((ok'.process p listed).space root table).rooted va

/-- The state with other bytes in the free pages. -/
def soiled (s : Kernel) : Kernel :=
  let memory p off := if p ∈ s.vm.kmem.freelist then s.vm.memory p off + 1 else s.vm.memory p off
  { s with vm := { s.vm with memory } }

/-- The first process forks. -/
theorem reads_no_stale_fork : ∃ s p root r t, (s.procs p).pagetable = some root ∧
    Calls [] [(p, .fork 0 0, r)] s t ∧ ∃ t', Calls [] [(p, .fork 0 0, r)] (soiled s) t' ∧
      (∀ u, Calls [] [(p, .fork 0 0, r)] (soiled s) u → u = t') ∧ t' = { t with vm := t'.vm } ∧
      ∀ p ∈ t.allproc, ∀ root, (t.procs p).pagetable = some root →
        ∀ va, userByte t'.vm.memory root va = userByte t.vm.memory root va := by
  obtain ⟨s, p, root, reached, listed, table, -⟩ := @exists_user []
  obtain ⟨live, place, ok⟩ := reachable_ok reached
  obtain ⟨r, t, runs, -⟩ : Yields (fork 0 0 p) s _ := fork_yields ok listed
  have calls : Calls [] [(p, .fork 0 0, r)] s t := .cons listed runs (.nil t)
  have same : SameButFree s (soiled s) := ⟨rfl, fun p used off => if_neg used⟩
  exact ⟨s, p, root, r, t, table, calls, reads_no_stale ok same calls⟩

end Sbrk

end Av6
