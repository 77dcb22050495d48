import Av6.ExecLimits
import Av6.SbrkReachable

/-!
# Addresses out of range

The loader checks that a segment ends at or below `MAXUVA`, but `exec` maps the stack page above
the last segment, and `growproc` checks nothing.  An image that ends in the last page below
`MAXUVA`, or a break that is moved past it, reaches the assertion of `walk`.
-/

namespace Av6

namespace Sbrk

open FallibleState Kmem Pmap Elf Fork TransitionSystem
open Exec hiding Proc

/-- The segments end at least a page below `MAXUVA`: the stack page has room above them. -/
def LeavesPage (image : Image) : Prop := lastStop image.segments 0 + PGSIZE ≤ MAXUVA

instance (image : Image) : Decidable (LeavesPage image) := inferInstanceAs (Decidable (_ ≤ _))

/-- What a user process can do to its address space. -/
inductive Resize where
  | exec (path : String) (uargv : Nat)
  | growproc (n : BitVec 32)

def Resize.run (programs : List (String × Image)) (p : Nat) : Resize → Kern Int
  | exec path uargv => Sbrk.exec programs path uargv p
  | growproc n => Sbrk.growproc p n

def runAll (programs : List (String × Image)) (p : Nat) : List Resize → Kern Unit
  | [] => return ()
  | resize :: rest => do
      let _ ← resize.run programs p
      runAll programs p rest

/-- The image leaves a page for the stack; the break stays at or below `MAXUVA`. -/
def Resize.InRange (programs : List (String × Image)) (p : Nat) (s : Kernel) : Resize → Prop
  | exec path _ => ∀ program, programs.find? (fun program => program.1 = path) = some program →
      LeavesPage program.2
  | growproc n => (s.procs p).sz + n.toInt ≤ MAXUVA

/-- Every step of a run is in range, in the state in which it is taken. -/
def StaysInRange (programs : List (String × Image)) (p : Nat) : List Resize → Kernel → Prop
  | [], _ => True
  | resize :: rest, s => resize.InRange programs p s ∧
      ∀ r t, resize.run programs p s = .ok (r, t) → StaysInRange programs p rest t

variable {s t : Kernel} {live : CacheRef → Multiset Nat} {place : Place}
  {programs : List (String × Image)} {path : String} {image : Image}
  {p root old uargv : Nat} {r : Int} {v w : VmState} {resize : Resize}

theorem run_of_call {α : Type} {m : Kern α} {a : α} (runs : m s = .ok (a, t)) :
    (do let _ ← onKern m : StateT Kernel (Except InitPanic) Unit) s = .ok ((), t) := by
  have whole : onKern m s = .ok (a, t) := by
    unfold onKern onPart
    rw [id, runs]
  exact bind_eq_of_ok whole

/-- The loader itself passes no address out of range to `walk`. -/
theorem loadelf_in_range (fresh : Fresh root v) (va : Nat) :
    ¬ Fails (loadelf image false root) v (.walkRange va) := by
  obtain ⟨live, place, built⟩ := fresh
  have ends := @loadelf_ends image false v live place root built
  intro fails
  cases outcome : fate image false v.kmem image.plan [] 0 with
  | built pages taken =>
      rw [outcome] at ends
      exact ends.not_fails fails
  | dry =>
      rw [outcome] at ends
      exact ends.not_fails fails
  | outside => exact absurd outcome fate_ne_outside
  | remap =>
      rw [outcome] at ends
      obtain ⟨va', fails'⟩ := ends
      rw [Fails, fails] at fails'
      cases fails'

/-- `exec` of an image that leaves a page passes no address out of range to `walk`. -/
theorem execImage_in_range (twins : Twins live place v v) (bare : place (.hand 0) = none)
    (caller : place (.table old 0 0) = some old) (room : LeavesPage image) (va : Nat) :
    ¬ Fails (execImage image old uargv) v (.walkRange va) := by
  intro fails
  rw [execImage_eq] at fails
  rcases fails_of_bind fails with fails | ⟨created, w, creates, fails⟩
  · exact (uvmcreate_twin twins).self.not_fails fails
  cases created with
  | none => cases fails
  | some root =>
  obtain ⟨fresh, built, within⟩ := created_built twins bare creates
  rcases fails_of_bind fails with fails | ⟨loaded, x, loads, fails⟩
  · exact loadelf_in_range ⟨live, _, built⟩ va fails
  obtain ⟨place', extended, mapped⟩ :=
    (loadelf_twinOr built.twins built.hand built.rooted).self.post_of_eq loads
  have changed : Changed root live place place' v v x x :=
    ⟨extended.twins, within.trans extended.within, extended.keeps _ _ built.rooted⟩
  cases loaded with
  | none =>
      have gone : Yields (do
          uvmfree root
          return none : Vm (Option Loaded)) x fun _ _ => True :=
        (discard_twin changed fresh).self.bind fun _ _ _ => .ret trivial
      exact gone.not_fails fails
  | some loaded =>
      obtain ⟨entry, newSz⟩ := loaded
      obtain ⟨aligned, positive, -, inUser, size, loadedAt⟩ := mapped entry newSz rfl
      have empty : ∀ v,
          Function.update place (.table root 0 0) (some root) (.leaf root v) = none := by
        intro v
        rw [Function.update_of_ne (by simp), fresh (.leaf root v) rfl]
      have small : newSz < MAXUVA := by
        unfold LeavesPage at room
        rw [size]
        unfold pgRoundUp pgRoundDown PGSIZE MAXUVA at *
        omega
      exact (mountStack_twinOr (E := fun _ => False) uargv [] twins caller fresh changed
        (extended.hand built.hand) aligned positive (fun v => loadedAt.below size inUser empty)
        fun high => high small).self.allowed fails

/-- `exec` enters no image that does not leave a page. -/
theorem leavesPage_of_entered {loaded : Loaded} (twins : Twins live place v v)
    (bare : place (.hand 0) = none)
    (entered : execImage image old uargv v = .ok (some loaded, w)) : LeavesPage image := by
  rw [execImage_eq] at entered
  obtain ⟨created, x, creates, entered⟩ := exists_of_bind entered
  cases created with
  | none => cases entered
  | some root =>
  obtain ⟨fresh, built, -⟩ := created_built twins bare creates
  obtain ⟨loaded', y, loads, entered⟩ := exists_of_bind entered
  obtain ⟨place', extended, mapped⟩ :=
    (loadelf_twinOr built.twins built.hand built.rooted).self.post_of_eq loads
  cases loaded' with
  | none =>
      obtain ⟨_, _, -, entered⟩ := exists_of_bind entered
      cases entered
  | some loaded' =>
  obtain ⟨entry, newSz⟩ := loaded'
  obtain ⟨aligned, -, -, inUser, size, -⟩ := mapped entry newSz rfl
  obtain ⟨page, z, -, entered⟩ := exists_of_bind entered
  cases page with
  | none =>
      obtain ⟨_, _, -, entered⟩ := exists_of_bind entered
      cases entered
  | some stack =>
  obtain ⟨_, z', -, entered⟩ := exists_of_bind entered
  obtain ⟨_, _, maps, -⟩ := exists_of_bind entered
  have small : newSz < MAXUVA := by
    by_contra high
    have fails : Fails (mappages root newSz (kvaToPa stack) PGSIZE PAGE_USER) z' (.walkRange newSz) :=
      mappages_fails aligned high
    rw [Fails, maps] at fails
    cases fails
  unfold LeavesPage
  rw [size] at small
  unfold pgRoundUp pgRoundDown PGSIZE MAXUVA at *
  omega

section

variable (ok : KernelOk live place s) (listed : p ∈ s.allproc)
  (table : (s.procs p).pagetable = some root)
include ok listed table

theorem resize_in_range (inRange : resize.InRange programs p s) (va : Nat) :
    ¬ Fails (resize.run programs p) s (.walkRange va) := by
  intro fails
  cases resize with
  | exec path uargv =>
      rcases fails_of_bind fails with fails | ⟨_, _, read, fails⟩
      · cases fails
      cases read
      rcases fails_of_bind fails with fails | ⟨result, t, -, fails⟩
      · obtain ⟨e, fails, same⟩ := fails_of_onPart fails
        cases same
        have space := (ok.process p listed).space root table
        rw [table] at fails
        replace fails : Fails (Exec.exec programs path root uargv) s.vm (.walkRange va) := fails
        unfold Exec.exec at fails
        split at fails
        · cases fails
        · rename_i program found
          exact execImage_in_range ok.twins ok.bare space.rooted (inRange _ found) va fails
      · cases result with
        | none => cases fails
        | some loaded => cases fails
  | growproc n =>
      have past := (growproc_settles ok listed table n).allowed fails
      obtain ⟨high, low⟩ := past
      replace inRange : (s.procs p).sz + n.toInt ≤ MAXUVA := inRange
      omega

/-- A step that succeeds has been in range. -/
theorem inRange_of_success (done : resize.run programs p s = .ok (0, t)) :
    resize.InRange programs p s := by
  cases resize with
  | exec path uargv =>
      obtain ⟨_, _, read, done⟩ := exists_of_bind done
      cases read
      obtain ⟨result, _, part, done⟩ := exists_of_bind done
      obtain ⟨vm, executes, rfl⟩ := exists_of_onPart part
      rw [table] at executes
      replace executes : Exec.exec programs path root uargv s.vm = .ok (result, vm) := executes
      cases result with
      | none => cases done
      | some loaded =>
          intro program found
          rw [exec_of_find found] at executes
          exact leavesPage_of_entered ok.twins ok.bare executes
  | growproc n =>
      obtain ⟨place', -, -, ends⟩ := (growproc_settles ok listed table n).post_of_eq done
      rcases ends with ⟨failed, -⟩ | ⟨-, -, newsz, small, size, -⟩
      · cases failed
      · show ((s.procs p).sz : Int) + n.toInt ≤ MAXUVA
        omega

/-- A step is one of the system, and the process is still there. -/
theorem resize_steps (runs : resize.run programs p s = .ok (r, t)) :
    Step programs s t ∧ p ∈ t.allproc ∧ ∃ root', (t.procs p).pagetable = some root' := by
  cases resize with
  | exec path uargv =>
      refine ⟨⟨.exec path uargv p, listed, run_of_call runs⟩, ?_⟩
      obtain ⟨_, _, read, runs⟩ := exists_of_bind runs
      cases read
      obtain ⟨result, _, part, runs⟩ := exists_of_bind runs
      obtain ⟨vm, -, rfl⟩ := exists_of_onPart part
      cases result with
      | none =>
          cases runs
          exact ⟨listed, root, table⟩
      | some loaded =>
          cases runs
          refine ⟨listed, loaded.pagetable, ?_⟩
          unfold install
          dsimp only
          rw [Function.update_self]
  | growproc n =>
      refine ⟨⟨.growproc p n, listed, run_of_call runs⟩, ?_⟩
      obtain ⟨place', -, -, ends⟩ := (growproc_settles ok listed table n).post_of_eq runs
      rcases ends with ⟨-, after, -⟩ | ⟨-, -, newsz, -, -, after, -⟩
      · rw [after]
        exact ⟨listed, root, table⟩
      · rw [after]
        refine ⟨listed, root, ?_⟩
        dsimp only
        rw [Function.update_self, table]

end

/-- In a run of `exec` and `growproc` by a user process whose steps are all in range, `walk` gets no
address at or above `MAXUVA`; and a step that is not in range does not succeed. -/
theorem walks_in_range (reached : Reachable Initial (Step programs) s) (listed : p ∈ s.allproc)
    (table : (s.procs p).pagetable = some root) :
    (∀ steps, StaysInRange programs p steps s →
      ∀ va, ¬ Fails (runAll programs p steps) s (.walkRange va)) ∧
    ∀ (resize : Resize) (t : Kernel), resize.run programs p s = .ok (0, t) →
      resize.InRange programs p s := by
  constructor
  · intro steps inRange va fails
    induction steps generalizing s root with
    | nil => cases fails
    | cons resize steps ih =>
        obtain ⟨live, place, ok⟩ := reachable_ok reached
        rcases fails_of_bind fails with fails | ⟨r, t, runs, fails⟩
        · exact resize_in_range ok listed table inRange.1 va fails
        · obtain ⟨step, listed', root', table'⟩ := resize_steps ok listed table runs
          exact ih (.next reached step) listed' table' (inRange.2 r t runs) fails
  · intro resize t done
    obtain ⟨live, place, ok⟩ := reachable_ok reached
    exact inRange_of_success ok listed table done

/-- The first process grows, and enters another image. -/
theorem walks_in_range_user : ∃ s p root, (s.procs p).pagetable = some root ∧
    ∀ va, ¬ Fails (runAll [("/plain", plainImage)] p [.growproc 5000#32, .exec "/plain" 0]) s
      (.walkRange va) := by
  obtain ⟨s, p, root, reached, listed, table, size⟩ := @exists_user [("/plain", plainImage)]
  have grows : Resize.InRange [("/plain", plainImage)] p s (.growproc 5000#32) := by
    show ((s.procs p).sz : Int) + (5000#32).toInt ≤ MAXUVA
    rw [size]
    decide
  have enters : ∀ t, Resize.InRange [("/plain", plainImage)] p t (.exec "/plain" 0) := by
    intro t program found
    cases found
    decide +kernel
  have inRange : StaysInRange [("/plain", plainImage)] p [.growproc 5000#32, .exec "/plain" 0] s :=
    ⟨grows, fun _ t _ => ⟨enters t, fun _ _ _ => trivial⟩⟩
  exact ⟨s, p, root, table, (walks_in_range reached listed table).1 _ inRange⟩

/-- A `PT_LOAD` header of the last page below `MAXUVA`, with nothing in the file. -/
def topSegmentBytes : List UInt8 :=
  [1, 0, 0, 0] ++ List.replicate 13 0 ++ [0xF0, 0xFF, 0xFF, 0xFF, 0xFF] ++ List.replicate 19 0
    ++ [0x10] ++ List.replicate 14 0

/-- One segment, that ends at `MAXUVA`. -/
def topImage : Image :=
  imageOf (headerBytes [64, 0, 0, 0, 0, 0, 0, 0] 1 ++ topSegmentBytes) (by decide)

/-- Whether the first process stops at an address out of range when it enters this image. -/
def stopsAtTop (a : AllocState) (c : CacheRef) (p : Nat) : Bool :=
  match userinit 0 plainImage (bootKernel a c) with
  | .ok (_, t) => t.allproc = [p] ∧ (t.procs p).pagetable ≠ none ∧
      (match exec [("/top", topImage)] "/top" 0 p t with
      | .error (.walkRange va) => va = MAXUVA
      | _ => false) = true
  | .error _ => false

/-- The stack page of an image that ends at `MAXUVA` is mapped at `MAXUVA`. -/
theorem exec_walks_out_of_range : ∃ s p root, Reachable Initial (Step [("/top", topImage)]) s ∧
    p ∈ s.allproc ∧ (s.procs p).pagetable = some root ∧
    Fails (runAll [("/top", topImage)] p [.exec "/top" 0]) s (.walkRange MAXUVA) := by
  have run : ((runFrom (ramPages 32) [(0, .create 512 0)]).any fun clients =>
      clients.alloc.managed = ramPages 32 ∧
      .object 18446462598732966464 ∈ clients.alloc.kmemCaches ∧
      stopsAtTop clients.alloc (.object 18446462598732966464) 18446462598732939328 = true) =
      true := by
    decide +kernel
  obtain ⟨clients, reached, holds⟩ : ∃ clients, KmemReachable Op.Fits clients ∧ _ := by
    refine reachable_of_runFrom (by decide) (by decide) ?_ run
    intro step there
    obtain rfl := List.mem_singleton.mp there
    intro _
    decide
  obtain ⟨ram, member, stops⟩ := of_decide_eq_true holds
  have initial := bootKernel_initial reached ram (by decide) member rfl
  unfold stopsAtTop at stops
  split at stops
  · rename_i t runs
    obtain ⟨listed, table, stops⟩ := of_decide_eq_true stops
    obtain ⟨root, table⟩ := Option.ne_none_iff_exists'.mp table
    have started : Reachable Initial (Step [("/top", topImage)]) t :=
      .next (.start initial) ⟨.userinit 0 plainImage, trivial, runs⟩
    refine ⟨t, _, root, started, ?_, table, ?_⟩
    · rw [listed]
      exact List.mem_singleton_self _
    · split at stops
      · rename_i va fails
        rw [of_decide_eq_true stops] at fails
        exact Fails.bind fails
      · cases stops
  · cases stops

end Sbrk

end Av6
