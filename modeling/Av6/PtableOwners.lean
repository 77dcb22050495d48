import Av6.Owners
import Av6.PtableModel

/-!
# Who has which pid, slot and object

A pid, a slot and an object each belong to a published process or to a thread that creates or
releases one.
-/

namespace Av6

namespace Bitstring

/-- The bits that are set. -/
def bits (map : Bitstr) : Set Nat := {n | bitTest map n = true}

variable {map : Bitstr} {n nbits : Nat}

/-- A set bit is in the bitmap. -/
theorem lt_of_mem_bits (set : n ∈ bits map) : n < map.length * 64 := by
  by_contra beyond
  have outside : map.length ≤ n / 64 := by omega
  replace set : bitTest map n = true := set
  unfold bitTest at set
  rw [List.getD_eq_getElem?_getD, List.getElem?_eq_none outside] at set
  simp at set

theorem bits_bitSet (inside : n < map.length * 64) : bits (bitSet map n) = insert n (bits map) := by
  ext m
  rw [Set.mem_insert_iff, bits, Set.mem_ofPred_eq, bitTest_bitSet_eq inside]
  by_cases same : m = n
  · simp [same]
  · simp [same, bits]

theorem bits_bitClear (inside : n < map.length * 64) :
    bits (bitClear map n) = bits map \ {n} := by
  ext m
  rw [Set.mem_sdiff, Set.mem_singleton_iff, bits, Set.mem_ofPred_eq, bitTest_bitClear_eq inside]
  by_cases same : m = n
  · simp [same]
  · simp [same, bits]

/-- The allocator returns a number that was not in use. -/
theorem bits_bitAlloc (covered : nbits ≤ map.length * 64)
    (found : (bitAlloc nbits map).1 = Int.ofNat n) :
    n ∉ bits map ∧ bits (bitAlloc nbits map).2 = insert n (bits map) := by
  obtain ⟨below, clear, after⟩ := bitAlloc_found covered found
  rw [after, bits_bitSet (by omega)]
  exact ⟨by simp [bits, clear], rfl⟩

/-- The allocator returns no number, and takes none. -/
theorem bitAlloc_none (covered : nbits ≤ map.length * 64) (none_ : (bitAlloc nbits map).1 < 0) :
    (bitAlloc nbits map).2 = map := by
  rcases bitAlloc_cases covered with fails | ⟨b, -, finds, -⟩
  · rw [fails]
  · rw [finds] at none_
    exact absurd none_ (not_lt.mpr (Int.natCast_nonneg b))

theorem length_bitAlloc (covered : nbits ≤ map.length * 64) :
    (bitAlloc nbits map).2.length = map.length := by
  rcases bitAlloc_cases covered with none_ | ⟨b, -, some_, -⟩
  · rw [none_]
  · rw [some_]
    exact length_bitSet _ _

end Bitstring

namespace Ptable

open Fork Bitstring Pmap

/-- A published process, or a thread. -/
inductive Owner (T : Type)
  | published (p : Nat)
  | task (t : T)
  deriving DecidableEq

/-- What a process has. -/
inductive Resource
  | pid
  | slot
  | object

/-- That of the process `p` with these fields. -/
def Resource.field (p : Nat) (q : Fork.Proc) : Resource → Nat
  | .pid => q.pid
  | .slot => q.kslot
  | .object => p

/-- Pid 0 is nobody's. -/
def Resource.reserved : Resource → Set Nat
  | .pid => {0}
  | _ => ∅

/-- What a thread has taken and not yet given back. -/
def Task.has (task : Task) (procs : Nat → Fork.Proc) (r : Resource) : Option Nat :=
  match task, r with
  | .pid n, .pid => some n
  | .slot n _, .pid => some n
  | .slot _ n, .slot => some n
  | .stack n _ _, .pid => some n
  | .stack _ n _, .slot => some n
  | .noStack n _, .pid => some n
  | .noStack _ n, .slot => some n
  | .noSlot n, .pid => some n
  | .built p, r => some (r.field p (procs p))
  | .release p, r => some (r.field p (procs p))
  | .slotFreed p, .pid => some (procs p).pid
  | .slotFreed p, .object => some p
  | .pidFreed p, .object => some p
  | _, _ => none

/-- The object of a thread, where it has its kernel stack. -/
def Task.stacked : Task → Option Nat
  | .built p => some p
  | .release p => some p
  | _ => none

theorem Resource.field_congr {q q' : Fork.Proc} (same : SameIds q q') (r : Resource) (p : Nat) :
    r.field p q' = r.field p q := by
  cases r with
  | pid => exact same.1
  | slot => exact same.2.1
  | object => rfl

variable {T : Type} {s u : Table T} {t : T} {task : Task} {k : Kernel} {r : Resource} {n p : Nat}

/-- The pids and the slots whose bits are set, and the objects that are handed out. -/
def Table.inUse (s : Table T) : Resource → Set Nat
  | .pid => bits s.kernel.pidmap
  | .slot => bits s.kernel.kstackSlotmap
  | .object => s.objects

def Table.has (s : Table T) (r : Resource) : Owner T → Option Nat
  | .published p =>
      if p ∈ s.kernel.allproc then some (r.field p (s.kernel.procs p)) else none
  | .task t => (s.tasks t).has s.kernel.procs r

theorem Table.has_published (listed : p ∈ s.kernel.allproc) :
    s.has r (.published p) = some (r.field p (s.kernel.procs p)) := if_pos listed

theorem Table.has_unpublished (unlisted : p ∉ s.kernel.allproc) :
    s.has r (.published p) = none := if_neg unlisted

/-- A thread has the numbers of an object only where it has the object. -/
theorem Task.has_congr {procs procs' : Nat → Fork.Proc}
    (same : ∀ p, task.has procs .object = some p →
      r.field p (procs' p) = r.field p (procs p)) : task.has procs' r = task.has procs r := by
  cases task with
  | built p => exact congrArg some (same p rfl)
  | release p => exact congrArg some (same p rfl)
  | slotFreed p =>
      cases r with
      | pid => exact congrArg some (same p rfl)
      | slot => rfl
      | object => rfl
  | _ => cases r <;> rfl

theorem Task.has_of_stacked {procs : Nat → Fork.Proc} (stack : task.stacked = some p) :
    task.has procs r = some (r.field p (procs p)) := by
  cases task with
  | built _ =>
      cases stack
      rfl
  | release _ =>
      cases stack
      rfl
  | _ => cases stack

/-- The fields that identify the objects that are handed out are as they were. -/
def SameFields (s u : Table T) : Prop :=
  ∀ r : Resource, ∀ p ∈ s.objects, r.field p (u.kernel.procs p) = r.field p (s.kernel.procs p)

/-- What has not moved on has what it had. -/
theorem Table.has_congr {h : Owner T} (owned : Owned s.objects ∅ (s.has .object))
    (lists : u.kernel.allproc = s.kernel.allproc) (same : SameFields s u)
    (still : ∀ t, h = .task t → u.tasks t = s.tasks t) : u.has r h = s.has r h := by
  cases h with
  | published p =>
      simp only [Table.has, lists]
      by_cases listed : p ∈ s.kernel.allproc
      · rw [same r p (owned.mem_used (Table.has_published listed))]
      · rw [if_neg listed, if_neg listed]
  | task t =>
      rw [Table.has, still t rfl]
      apply Task.has_congr
      intro p own
      have held : s.has .object (.task t) = some p := own
      exact same r p (owned.mem_used held)

variable [DecidableEq T]

/-- Where the threads are, once one has moved on. -/
theorem Table.tasks_put (t' : T) :
    (s.put t task k).tasks t' = if t' = t then task else s.tasks t' :=
  Function.update_apply ..

/-- A thread that moves on has other things; nobody else has. -/
theorem Table.has_update (owned : Owned s.objects ∅ (s.has .object))
    (tasks : u.tasks = Function.update s.tasks t task)
    (lists : u.kernel.allproc = s.kernel.allproc) (same : SameFields s u) :
    u.has r = Function.update (s.has r) (.task t) (task.has u.kernel.procs r) := by
  ext1 h
  by_cases this : h = .task t
  · rw [this, Function.update_self, Table.has, tasks, Function.update_self]
  · rw [Function.update_of_ne this]
    apply Table.has_congr owned lists same
    rintro t' rfl
    rw [tasks, Function.update_of_ne (by simpa using this)]

end Ptable

end Av6
