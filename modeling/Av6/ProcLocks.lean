import Av6.ProcModel

/-!
# Which locks the code holds where

`Code.held` lists the locks held at a position of the code.  Acquiring and releasing
change the list by exactly the lock named, calls and decisions leave it alone, and
wherever an interrupt can be taken it is empty.
-/

namespace Av6

namespace Proc

variable {ncpus : Nat} {P : Type*}

/-- `p->lock` of the process that executes the code. -/
def ownLock (self : Option P) : List (Lock P) :=
  self.toList.map .proc

@[simp]
theorem ownLock_some (p : P) : ownLock (some p) = [.proc p] :=
  rfl

/-- The locks held at a position. -/
def Code.held (self : Option P) : Code P → List (Lock P)
  | body | dead => []
  | forkret | yieldLocked _ | yielded _ | sleepReleased _ _ | slept _ => ownLock self
  | sleepLocked _ _ => .wait :: ownLock self
  | wakeEnter _ k => k.held self
  | wakeScan _ _ k => .ptable :: k.held self
  | wakeLocked _ q _ k | wakeDone _ q _ k => .proc q :: .ptable :: k.held self
  | exitEnter _ => []
  | exitLocked _ | exitWoke _ | exitReady _ => [.wait]
  | exitScan _ | exitReparented _ => [.ptable, .wait]
  | exitOwn _ | exitZombie => .wait :: ownLock self
  | exitSched => ownLock self
  | waitEnter _ => []
  | waitLoop _ | waitDecide _ _ | waitSleep _ | waitError => [.wait]
  | waitFree _ _ | waitFreed _ => [.wait]
  | waitScan _ _ _ | waitFailed _ | waitUnlocked _ _ => [.ptable, .wait]
  | waitLocked _ np _ | waitCopyFailed np | waitUnlinked np _ => [.proc np, .ptable, .wait]
  | waitKilled _ => .wait :: ownLock self
  | killEnter _ => []
  | killFind _ | killMiss | killDone => [.ptable]
  | killLocked q | killMarked q => [.proc q, .ptable]
  | build _ | forkPublish _ => []
  | activate _ _ k => k.held self
  | activatePtable _ _ k | activateDone k => .ptable :: k.held self
  | activateLocked np _ k | activated np k => .proc np :: .ptable :: k.held self
  | forkDone _ => [.wait]

/-- The positions where `wakeup` can return to. -/
def Code.CallsWakeup (k : Code P) : Prop :=
  k.interruptible = true ∨ (∃ st, k = .exitWoke st) ∨ ∃ st, k = .exitReady st

/-- The positions where `proc_activate` can return to. -/
def Code.CallsActivate (k : Code P) : Prop :=
  k = .body ∨ ∃ pid, k = .forkDone pid

/-- Calls nest only as the source nests them. -/
def Code.Nested : Code P → Prop
  | yieldLocked k | yielded k => k.interruptible = true
  | sleepLocked _ k | sleepReleased _ k | slept k => k = .body ∨ ∃ x, k = .waitEnter x
  | wakeEnter _ k | wakeScan _ _ k | wakeLocked _ _ _ k | wakeDone _ _ _ k => k.CallsWakeup
  | activate _ _ k | activatePtable _ _ k | activateLocked _ _ k => k.CallsActivate
  | activated _ k | activateDone k => k.CallsActivate
  | _ => True

theorem Code.held_of_interruptible {k : Code P} (self : Option P)
    (open_ : k.interruptible = true) : k.held self = [] := by
  fun_induction Code.interruptible k with
  | case7 chan k ih => exact ih open_
  | case9 => cases open_
  | _ => rfl

theorem Code.nested_of_interruptible {k : Code P} (open_ : k.interruptible = true) :
    k.Nested := by
  fun_cases Code.interruptible k with
  | case7 chan k => exact Or.inl open_
  | case8 => exact Or.inl rfl
  | case9 =>
      simp only [Code.interruptible] at open_
      cases open_
  | _ => trivial

/-- At most `wait_lock` is held where `wakeup` returns to. -/
theorem Code.CallsWakeup.held {k : Code P} (self : Option P) (back : k.CallsWakeup) :
    k.held self = [] ∨ k.held self = [.wait] := by
  rcases back with open_ | ⟨st, rfl⟩ | ⟨st, rfl⟩
  · exact Or.inl (Code.held_of_interruptible self open_)
  · exact Or.inr rfl
  · exact Or.inr rfl

theorem Code.CallsActivate.held {k : Code P} (self : Option P) (back : k.CallsActivate) :
    k.held self = [] ∨ k.held self = [.wait] := by
  rcases back with rfl | ⟨pid, rfl⟩
  · exact Or.inl rfl
  · exact Or.inr rfl

variable {s : SchedState ncpus P} {self : Option P} {k k' : Code P} {l : Lock P}

theorem Acquires.held (next : Acquires s self k l k') (l' : Lock P) :
    l' ∈ k'.held self ↔ l' = l ∨ l' ∈ k.held self := by
  cases next with
  | yield mine open_ =>
      subst mine
      simp [Code.held, Code.held_of_interruptible _ open_]
  | sleep addr mine => subst mine; simp [Code.held]
  | waitSleep mine => subst mine; simp [Code.held, or_comm]
  | exitReady mine => subst mine; simp [Code.held, or_comm]
  | waitDecide mine => subst mine; simp [Code.held, or_comm]
  | _ => simp [Code.held]

theorem Acquires.nested (next : Acquires s self k l k') (nested : k.Nested) : k'.Nested := by
  cases next with
  | yield mine open_ => exact open_
  | sleep addr mine => exact Or.inl rfl
  | waitSleep mine => exact Or.inr ⟨_, rfl⟩
  | forkPublish mine => exact Or.inr ⟨_, rfl⟩
  | wakeEnter => exact nested
  | wakeScan => exact nested
  | activate => exact nested
  | activatePtable => exact nested
  | _ => trivial

theorem Releases.held (next : Releases s self k l k') (nested : k.Nested) (l' : Lock P) :
    l' ∈ k'.held self ↔ l' ∈ k.held self ∧ l' ≠ l := by
  cases next with
  | forkret mine => subst mine; simp [Code.held]
  | yielded mine =>
      subst mine
      simp [Code.held, Code.held_of_interruptible _ nested]
  | sleepLocked => cases self <;> simp [Code.held, ownLock] <;> grind
  | wakeDone =>
      rcases Code.CallsWakeup.held self nested with none_ | one <;> simp_all [Code.held] <;> grind
  | wakeScan =>
      rcases Code.CallsWakeup.held self nested with none_ | one <;> simp_all [Code.held] <;> grind
  | activated =>
      rcases Code.CallsActivate.held self nested with none_ | one <;> simp_all [Code.held] <;> grind
  | activateDone =>
      rcases Code.CallsActivate.held self nested with none_ | one <;> simp_all [Code.held] <;> grind
  | exitZombie => cases self <;> simp [Code.held, ownLock] <;> grind
  | waitKilled mine =>
      subst mine
      split <;> simp [Code.held] <;> grind
  | _ => simp [Code.held] <;> grind

theorem Releases.mem_held (next : Releases s self k l k') : l ∈ k.held self := by
  cases next with
  | forkret mine => subst mine; simp [Code.held]
  | yielded mine => subst mine; simp [Code.held]
  | waitKilled mine => subst mine; simp [Code.held]
  | _ => simp [Code.held]

theorem Releases.nested (next : Releases s self k l k') (nested : k.Nested) : k'.Nested := by
  cases next with
  | yielded mine => exact Code.nested_of_interruptible nested
  | sleepLocked => exact nested
  | wakeDone => exact nested
  | wakeScan =>
      rcases nested with open_ | ⟨st, rfl⟩ | ⟨st, rfl⟩
      · exact Code.nested_of_interruptible open_
      · trivial
      · trivial
  | exitReparented => exact Or.inr (Or.inl ⟨_, rfl⟩)
  | waitKilled => split <;> trivial
  | activated => exact nested
  | activateDone =>
      rcases nested with rfl | ⟨pid, rfl⟩
      · trivial
      · trivial
  | _ => trivial

theorem Jumps.held (next : Jumps s self k k') : k'.held self = k.held self := by
  cases next <;> rfl

theorem Jumps.nested (next : Jumps s self k k') (nested : k.Nested) : k'.Nested := by
  cases next with
  | callWakeup addr open_ => exact Or.inl open_
  | wakeSelf => exact nested
  | exitParent => exact Or.inr (Or.inr ⟨_, rfl⟩)
  | kthreadBuilt => exact Or.inl rfl
  | _ => trivial

theorem Returns.held {value : Int} (next : Returns k l value) (self : Option P) : k.held self = [l] := by
  cases next <;> rfl

end Proc

end Av6
