import Av6.ForkRuns
import Av6.PtableModel

/-!
# The calls are runs of the process table

`allocproc`, `freeproc`, `kthread_add` and `fork`, as they run when nobody else does, take the steps
of the interleaving one after the other.
-/

namespace Av6

namespace Ptable

open Fork FallibleState Kmem Pmap

variable {T : Type} [DecidableEq T] {s : Table T} {t : T} {a b : Task} {k k' : Kernel}
  {cpu cpu' : Fin NCPU_MAX} {np p : Nat} {r : Int} {α : Type}
  {live : CacheRef → Multiset Nat} {place : Place}

abbrev Run (s u : Table T) : Prop := Relation.ReflTransGen Step s u

/-- The thread can be here, with this kernel. -/
def Gets (s : Table T) (t : T) (a : Task) (k : Kernel) : Prop := Run s (s.put t a k)

theorem put_put : (s.put t a k).put t b k' = s.put t b k' := by
  simp [Table.put, Function.update_idem]

theorem put_self (at_ : s.tasks t = a) : s.put t a s.kernel = s := by
  subst at_
  simp [Table.put]

theorem Gets.start (at_ : s.tasks t = a) : Gets s t a s.kernel := by
  unfold Gets
  rw [put_self at_]

theorem at_put : (s.put t a k).tasks t = a := Function.update_self ..

theorem Gets.step (gets : Gets s t a k)
    (step : Step (s.put t a k) ((s.put t a k).put t b k')) : Gets s t b k' := by
  rw [put_put] at step
  exact gets.tail step

/-- Only the memory changes. -/
theorem onVm_memory {m : Vm α} {x : α} (runs : onVm m k = .ok (x, k')) :
    ∃ vm, k' = { k with vm } := by
  unfold onVm onPart at runs
  split at runs
  · cases runs
    exact ⟨_, rfl⟩
  · cases runs

theorem Gets.onVm (gets : Gets s t a k) {m : Vm α} {x : α} (runs : onVm m k = .ok (x, k')) :
    Gets s t a k' := by
  obtain ⟨vm, rfl⟩ := onVm_memory runs
  have step : Step (s.put t a k) (s.put t a { k with vm }) := .memory
  exact gets.tail step

theorem Gets.object (gets : Gets s t a k) {f : Fork.Proc → Fork.Proc}
    (runs : setProc p f k = .ok ((), k')) (same : SameIds (k.procs p) (f (k.procs p))) :
    Gets s t a k' := by
  cases runs
  exact gets.tail (.object same)

/-- `fork` copies from the parent to the child. -/
theorem Gets.inherit (gets : Gets s t a k) (p np : Nat) : Gets s t a (inherit p np k) := by
  have first : Step (s.put t a k) (s.put t a { k with
      procs := Function.update k.procs np { k.procs np with
        sz := (k.procs p).sz
        name := copyName (k.procs p).name } }) := .object ⟨rfl, rfl, rfl⟩
  exact (gets.tail first).tail .memory

/-- Where `allocproc` leaves the thread. -/
def Table.created (s : Table T) (t : T) (k : Kernel) : Option Nat → Table T
  | none => s.put t .idle k
  | some np => { s.put t (.built np) k with objects := insert np s.objects }

/-- `allocproc` returns an object that nobody has, and takes the steps of a creation. -/
theorem allocproc_run (idle : s.tasks t = .idle) {r : Option Nat}
    (runs : allocproc cpu s.kernel = .ok (r, k)) (unused : ∀ np ∈ r, np ∉ s.objects) :
    Run s (s.created t k r) := by
  unfold allocproc at runs
  obtain ⟨pid, k₁, gotPid, runs⟩ := exists_of_bind runs
  have first := Gets.start idle
  split at runs
  case isTrue none_ =>
    cases runs
    exact first.step (.pidNone at_put gotPid none_)
  case isFalse some_ =>
    obtain ⟨pid, rfl⟩ := Int.eq_ofNat_of_zero_le (not_lt.mp some_)
    have second := first.step (.pidAlloc at_put gotPid)
    obtain ⟨slot, k₂, gotSlot, runs⟩ := exists_of_bind runs
    split at runs
    case isTrue none_ =>
      have third := second.step (.slotNone at_put gotSlot none_)
      obtain ⟨_, k₃, back, runs⟩ := exists_of_bind runs
      cases runs
      exact third.step (.pidBack at_put back)
    case isFalse some_ =>
      obtain ⟨slot, rfl⟩ := Int.eq_ofNat_of_zero_le (not_lt.mp some_)
      have third := second.step (.slotAlloc at_put gotSlot)
      obtain ⟨kstack, k₃, gotStack, runs⟩ := exists_of_bind runs
      have fourth := third.onVm gotStack
      split at runs
      case isTrue none_ =>
        have fifth := fourth.step (.kstackNone at_put)
        obtain ⟨_, k₄, slotBack, runs⟩ := exists_of_bind runs
        obtain ⟨_, k₅, pidBack, runs⟩ := exists_of_bind runs
        cases runs
        exact (fifth.step (.slotBack at_put slotBack)).step (.pidBack at_put pidBack)
      case isFalse some_ =>
        have fifth : Gets s t (.stack pid slot ⟨kstack, some_⟩) k₃ :=
          fourth.step (.kstackAlloc at_put)
        obtain ⟨_, _, ⟨⟩, runs⟩ := exists_of_bind runs
        obtain ⟨object, k₄, gotObject, runs⟩ := exists_of_bind runs
        have sixth := fifth.onVm gotObject
        obtain ⟨vm, rfl⟩ := onVm_memory gotObject
        cases object with
        | none =>
            have seventh := sixth.step (.objectNone at_put)
            obtain ⟨_, k₅, stackBack, runs⟩ := exists_of_bind runs
            have eighth := seventh.onVm stackBack
            obtain ⟨_, k₆, slotBack, runs⟩ := exists_of_bind runs
            obtain ⟨_, k₇, pidBack, runs⟩ := exists_of_bind runs
            cases runs
            exact (eighth.step (.slotBack at_put slotBack)).step (.pidBack at_put pidBack)
        | some np =>
            obtain ⟨_, k₅, written, runs⟩ := exists_of_bind runs
            cases runs
            have last := Step.objectAlloc (s := s.put t (.stack pid slot ⟨kstack, some_⟩) _)
              at_put (unused np rfl) written
            rw [put_put] at last
            exact sixth.tail last

omit [DecidableEq T] in
/-- The slab hands out an object that is not out. -/
theorem allocproc_unused (ok : KernelOk live place s.kernel)
    (out : ∀ np ∈ s.objects, np ∈ live s.kernel.procCache)
    (made : allocproc cpu s.kernel = .ok (some np, k)) : np ∉ s.objects := by
  rcases (allocproc_yields ok).post_of_eq made with ⟨none_, -⟩ | ⟨_, _, _, _, _, some_, built⟩
  · cases none_
  · cases some_
    exact fun there => built.fresh (out np there)

/-- The page table goes first. -/
theorem Gets.freePagetable (gets : Gets s t a k) (runs : freePagetable p k = .ok ((), k')) :
    Gets s t a k' := by
  unfold Fork.freePagetable at runs
  obtain ⟨_, _, ⟨⟩, runs⟩ := exists_of_bind runs
  cases root : (k.procs p).pagetable with
  | none =>
      rw [root] at runs
      cases runs
      exact gets
  | some root =>
      rw [root] at runs
      obtain ⟨_, k₁, freed, runs⟩ := exists_of_bind runs
      exact (gets.onVm freed).object runs ⟨rfl, rfl, rfl⟩

/-- Then the kernel stack, and its slot. -/
theorem Gets.freeKstack (gets : Gets s t (.release np) k) (runs : freeKstack np k = .ok ((), k')) :
    Gets s t (.slotFreed np) k' := by
  unfold Fork.freeKstack at runs
  obtain ⟨_, _, ⟨⟩, runs⟩ := exists_of_bind runs
  split at runs
  case isTrue none_ =>
    cases runs
    exact gets.step (.slotSkip at_put none_)
  case isFalse some_ =>
    obtain ⟨_, k₁, freed, runs⟩ := exists_of_bind runs
    have first := gets.onVm freed
    obtain ⟨vm, rfl⟩ := onVm_memory freed
    obtain ⟨_, k₂, back, cleared⟩ := exists_of_bind runs
    exact first.step (.slotFree at_put some_ back cleared)

/-- `freeproc` takes the steps of a release. -/
theorem freeproc_run (at_ : s.tasks t = .release np)
    (runs : freeproc cpu np s.kernel = .ok ((), k)) :
    Run s { s.put t .idle k with objects := s.objects \ {np} } := by
  unfold freeproc at runs
  obtain ⟨_, k₁, pagetable, runs⟩ := exists_of_bind runs
  obtain ⟨_, k₂, kstack, runs⟩ := exists_of_bind runs
  obtain ⟨_, _, ⟨⟩, runs⟩ := exists_of_bind runs
  obtain ⟨_, k₃, pid, object⟩ := exists_of_bind runs
  have third := ((Gets.start at_).freePagetable pagetable).freeKstack kstack
  have fourth := (third.step (.pidFree at_put pid)).onVm object
  have last := Step.objectFree (s := s.put t (.pidFreed np) k) at_put
  rw [put_put] at last
  exact fourth.tail last

/-- `proc_activate` of the object that the thread has made. -/
theorem Gets.activate (gets : Gets s t (.built np) k) {parent : Option Nat}
    (runs : procActivate np parent k = .ok ((), k')) : Gets s t .idle k' :=
  gets.step (.activate at_put runs)

/-- A thread is back where it was. -/
def Returns (s : Table T) (k : Kernel) : Prop :=
  ∃ u, Run s u ∧ u.kernel = k ∧ u.tasks = s.tasks

theorem Returns.of_created {r : Option Nat} {u : Table T} (idle : s.tasks t = .idle)
    (created : Run s (s.created t k r)) (run : Run (s.created t k r) u)
    (back : u.tasks = Function.update s.tasks t .idle) : Returns s u.kernel := by
  refine ⟨u, created.trans run, rfl, ?_⟩
  rw [back, ← idle, Function.update_eq_self]

/-- The thread that has made an object goes on. -/
theorem Gets.created (s : Table T) (t : T) (k : Kernel) (np : Nat) :
    Gets (s.created t k (some np)) t (.built np) k :=
  .start (s := s.created t k (some np)) (Function.update_self ..)

/-- The thread that has made an object gives it back. -/
theorem Gets.freeproc {u : Table T} (gets : Gets u t (.built np) k)
    (runs : Fork.freeproc cpu np k = .ok ((), k')) :
    Run u { u.put t .idle k' with objects := u.objects \ {np} } := by
  have left := gets.step (.abandon at_put)
  have freed := freeproc_run (s := u.put t (.release np) k) at_put runs
  rw [put_put] at freed
  exact left.trans freed

/-- `kthread_add` -/
theorem kthreadAdd_run {fn isrc : Nat} {name : List Char} (idle : s.tasks t = .idle)
    (runs : kthreadAdd cpu fn isrc name s.kernel = .ok (r, k))
    (ok : KernelOk live place s.kernel) (out : ∀ np ∈ s.objects, np ∈ live s.kernel.procCache) :
    Returns s k := by
  unfold kthreadAdd at runs
  obtain ⟨object, k₁, made, runs⟩ := exists_of_bind runs
  have first := allocproc_run idle made fun np new => allocproc_unused ok out (new ▸ made)
  cases object with
  | none =>
      cases runs
      exact .of_created idle first .refl rfl
  | some np =>
      obtain ⟨_, k₂, written, runs⟩ := exists_of_bind runs
      obtain ⟨_, _, ⟨⟩, runs⟩ := exists_of_bind runs
      obtain ⟨_, k₃, active, runs⟩ := exists_of_bind runs
      cases runs
      have second := (Gets.created s t k₁ np).object written ⟨rfl, rfl, rfl⟩
      exact .of_created idle first (second.activate active) (Function.update_idem ..)

/-- `fork` -/
theorem fork_run (idle : s.tasks t = .idle) (runs : fork cpu cpu' p s.kernel = .ok (r, k))
    (ok : KernelOk live place s.kernel) (out : ∀ np ∈ s.objects, np ∈ live s.kernel.procCache) :
    Returns s k := by
  unfold fork at runs
  obtain ⟨object, k₁, made, runs⟩ := exists_of_bind runs
  have first := allocproc_run idle made fun np new => allocproc_unused ok out (new ▸ made)
  cases object with
  | none =>
      cases runs
      exact .of_created idle first .refl rfl
  | some np =>
      obtain ⟨table, k₂, create, runs⟩ := exists_of_bind runs
      have second := (Gets.created s t k₁ np).onVm create
      cases table with
      | none =>
          obtain ⟨_, k₃, freed, runs⟩ := exists_of_bind runs
          cases runs
          exact .of_created idle first (second.freeproc freed) (Function.update_idem ..)
      | some root =>
          obtain ⟨_, k₃, written, runs⟩ := exists_of_bind runs
          have third := second.object written ⟨rfl, rfl, rfl⟩
          obtain ⟨_, _, ⟨⟩, runs⟩ := exists_of_bind runs
          obtain ⟨done, k₄, copy, runs⟩ := exists_of_bind runs
          have fourth := third.onVm copy
          cases done with
          | false =>
              obtain ⟨_, k₅, freed, runs⟩ := exists_of_bind runs
              cases runs
              exact .of_created idle first (fourth.freeproc freed) (Function.update_idem ..)
          | true =>
              obtain ⟨_, k₅, ⟨⟩, runs⟩ := exists_of_bind runs
              obtain ⟨_, _, ⟨⟩, runs⟩ := exists_of_bind runs
              obtain ⟨_, k₆, active, runs⟩ := exists_of_bind runs
              cases runs
              have fifth := (fourth.inherit p np).activate active
              exact .of_created idle first fifth (Function.update_idem ..)

end Ptable

end Av6
