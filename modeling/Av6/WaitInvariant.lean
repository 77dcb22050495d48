import Av6.ProcSteps

/-!
# What keeps a waiting parent from missing a zombie

`exit` wakes the parent before it becomes a zombie, but holds `wait_lock` over both, and
`wait` holds it from the scan of its children until it is committed to sleep.  The
invariant says, for every position inside these two sections, who has been woken and who
has been scanned so far.
-/

namespace Av6

namespace Proc

variable {ncpus : Nat} {P : Type*}

/-- In `wait`, committed to sleep and not marked as sleeping yet. -/
def Code.dozes : Code P → Bool
  | sleepReleased _ (waitEnter _) => true
  | _ => false

/-- In `wait`, switched away by `sleep`. -/
def Code.waits : Code P → Bool
  | slept (waitEnter _) => true
  | _ => false

/-- The channel on which `wait` is going to sleep. -/
def Code.dozeChan : Code P → Option (Chan P)
  | sleepLocked chan (waitEnter _) | sleepReleased chan (waitEnter _) => some chan
  | _ => none

/-- Inside `wait`, from the scan to the commitment to sleep: the processes that have not
been looked at. -/
def Code.unseen : Code P → Option (List P)
  | waitScan _ todo _ => some todo
  | waitLocked _ np todo => some (np :: todo)
  | waitDecide _ _ | waitKilled _ | waitSleep _ => some []
  | sleepLocked _ (waitEnter _) => some []
  | _ => none

/-- Inside `exit`, after the reparenting: the processes that `wakeup(initproc)` has yet
to visit, where `none` stands for all. -/
def Code.toInit : Code P → Option (Option (List P))
  | exitReparented _ => some none
  | wakeEnter _ (exitWoke _) => some none
  | wakeScan _ todo (exitWoke _) => some (some todo)
  | wakeLocked _ q todo (exitWoke _) => some (some (q :: todo))
  | wakeDone _ _ todo (exitWoke _) => some (some todo)
  | exitWoke _ => some (some [])
  | _ => none

/-- The same for `wakeup(p->parent)`. -/
def Code.toParent : Code P → Option (Option (List P))
  | wakeEnter _ (exitReady _) => some none
  | wakeScan _ todo (exitReady _) => some (some todo)
  | wakeLocked _ q todo (exitReady _) => some (some (q :: todo))
  | wakeDone _ _ todo (exitReady _) => some (some todo)
  | exitReady _ | exitOwn _ => some (some [])
  | _ => none

/-- The channel of `wakeup(initproc)`. -/
def Code.initChan : Code P → Option (Chan P)
  | wakeEnter chan (exitWoke _) | wakeScan chan _ (exitWoke _) => some chan
  | wakeLocked chan _ _ (exitWoke _) | wakeDone chan _ _ (exitWoke _) => some chan
  | _ => none

/-- The channel of `wakeup(p->parent)`. -/
def Code.parentChan : Code P → Option (Chan P)
  | wakeEnter chan (exitReady _) | wakeScan chan _ (exitReady _) => some chan
  | wakeLocked chan _ _ (exitReady _) | wakeDone chan _ _ (exitReady _) => some chan
  | _ => none

/-- Inside `exit`. -/
def Code.exiting : Code P → Bool
  | yieldLocked k | yielded k => k.exiting
  | wakeEnter _ k | wakeScan _ _ k | wakeLocked _ _ _ k | wakeDone _ _ _ k => k.exiting
  | exitEnter _ | exitLocked _ | exitScan _ | exitReparented _ | exitWoke _ => true
  | exitReady _ | exitOwn _ | exitZombie | exitSched => true
  | _ => false

/-- Inside `exit`, with all children handed over. -/
def Code.childless (k : Code P) : Bool :=
  k.toInit.isSome || k.toParent.isSome || k.zombied

/-- The parent that `proc_activate` is going to set. -/
def Code.parentToBe : Code P → Option P
  | activate _ parent _ | activatePtable _ parent _ | activateLocked _ parent _ => parent
  | _ => none

/-- The list of processes to visit does not rule `p` out. -/
def Pending (todo : Option (List P)) (p : P) : Prop :=
  ∀ l, todo = some l → p ∈ l

/-- Sleeping in `wait`, or committed to it. -/
def Asleep (s : SchedState ncpus P) (p : P) : Prop :=
  (s.code (.thread p)).dozes = true ∨
    ((s.code (.thread p)).waits = true ∧ (s.proc p).state = .sleeping)

def ZombieChild (s : SchedState ncpus P) (p q : P) : Prop :=
  q ∈ s.allproc ∧ (s.proc q).parent = some p ∧ (s.proc q).state = .zombie

/-- What holds of the context `x` at the position `k`. -/
structure ContextOk (s : SchedState ncpus P) (x : Context ncpus P) (k : Code P) : Prop where
  dozeChan : ∀ chan, k.dozeChan = some chan → ∃ p, x = .thread p ∧ chan = .proc p
  initChan : ∀ chan, k.initChan = some chan → ∃ i, s.initproc = some i ∧ chan = .proc i
  parentChan : ∀ chan, k.parentChan = some chan →
    ∃ p r, x = .thread p ∧ (s.proc p).parent = some r ∧ chan = .proc r
  /-- If `initproc` is asleep, it is still to be woken. -/
  toInit : ∀ todo i, k.toInit = some todo → s.initproc = some i → Asleep s i → Pending todo i
  /-- If the parent is asleep, it is still to be woken. -/
  toParent : ∀ todo p r, k.toParent = some todo → x = .thread p →
    (s.proc p).parent = some r → Asleep s r → Pending todo r
  /-- A zombie child is still to be looked at. -/
  unseen : ∀ l p q, k.unseen = some l → x = .thread p → ZombieChild s p q → q ∈ l
  childless : ∀ p q, k.childless = true → x = .thread p → q ∈ s.allproc →
    (s.proc q).parent ≠ some p
  exiting : ∀ i, k.exiting = true → s.initproc = some i → x ≠ .thread i
  orphan : ∀ np, k.owns = some np → (s.proc np).parent = none
  parentToBe : ∀ p, k.parentToBe = some p → x = .thread p

structure WaitOk (s : SchedState ncpus P) : Prop where
  context : ∀ x, ContextOk s x (s.code x)
  chan : ∀ p, (s.code (.thread p)).waits = true → (s.proc p).state = .sleeping →
    (s.proc p).chan = some (.proc p)
  /-- A sleeping parent has a zombie only while `initproc` is being woken. -/
  missed : ∀ p q, Asleep s p → ZombieChild s p q → s.initproc = some p ∧
    ∃ x, (s.code x).toInit.isSome = true
  parents : ∀ p q, q ∈ s.allproc → (s.proc q).parent = some p →
    (s.proc p).state ≠ .zombie ∧ (p ∈ s.allproc ∨ s.initproc = some p)
  init : ∀ i, s.initproc = some i → (s.proc i).state ≠ .zombie ∧ s.allocated i = true ∧
    ∀ p, (s.code (.thread p)).owns ≠ some i

/-- The invariant cannot tell the two positions apart, or asks less of the second. -/
structure Silent (k k' : Code P) : Prop where
  dozes : k'.dozes = true → k.dozes = true
  waits : k'.waits = true → k.waits = true
  dozeChan : ∀ chan, k'.dozeChan = some chan → k.dozeChan = some chan
  unseen : ∀ l, k'.unseen = some l → k.unseen = some l
  toInit : k'.toInit = k.toInit
  toParent : ∀ l, k'.toParent = some l → k.toParent = some l
  initChan : ∀ chan, k'.initChan = some chan → k.initChan = some chan
  parentChan : ∀ chan, k'.parentChan = some chan → k.parentChan = some chan
  exiting : k'.exiting = true → k.exiting = true
  zombied : k'.zombied = k.zombied
  owns : k'.owns = k.owns
  parentToBe : ∀ p, k'.parentToBe = some p → k.parentToBe = some p

theorem Code.plain_of_interruptible {k : Code P} (open_ : k.interruptible = true) :
    k.dozes = false ∧ k.waits = false ∧ k.dozeChan = none ∧ k.unseen = none ∧
      k.toInit = none ∧ k.toParent = none ∧ k.initChan = none ∧ k.parentChan = none ∧
        k.zombied = false ∧ k.parentToBe = none := by
  fun_cases Code.interruptible k with
  | case7 chan k =>
      have inner : k.interruptible = true := open_
      cases k <;>
        first
          | exact ⟨rfl, rfl, rfl, rfl, rfl, rfl, rfl, rfl, rfl, rfl⟩
          | cases inner
  | case9 =>
      simp only [Code.interruptible] at open_
      cases open_
  | _ => exact ⟨rfl, rfl, rfl, rfl, rfl, rfl, rfl, rfl, rfl, rfl⟩

/-- Outside the functions there is nothing to say. -/
theorem ContextOk.body (s : SchedState ncpus P) (x : Context ncpus P) :
    ContextOk s x .body where
  dozeChan := by rintro chan ⟨⟩
  initChan := by rintro chan ⟨⟩
  parentChan := by rintro chan ⟨⟩
  toInit := by rintro todo i ⟨⟩
  toParent := by rintro todo p r ⟨⟩
  unseen := by rintro l p q ⟨⟩
  childless := by rintro p q ⟨⟩
  exiting := by rintro i ⟨⟩
  orphan := by rintro np ⟨⟩
  parentToBe := by rintro p ⟨⟩

theorem ContextOk.silent {s : SchedState ncpus P} {x : Context ncpus P} {k k' : Code P}
    (ok : ContextOk s x k) (silent : Silent k k') : ContextOk s x k' where
  dozeChan chan after := ok.dozeChan chan (silent.dozeChan chan after)
  initChan chan after := ok.initChan chan (silent.initChan chan after)
  parentChan chan after := ok.parentChan chan (silent.parentChan chan after)
  toInit todo i after := ok.toInit todo i (silent.toInit ▸ after)
  toParent todo p r after := ok.toParent todo p r (silent.toParent todo after)
  unseen l p q after := ok.unseen l p q (silent.unseen l after)
  childless p q after := by
    refine ok.childless p q ?_
    unfold Code.childless at after ⊢
    rw [silent.toInit, silent.zombied] at after
    cases toParent : k'.toParent with
    | none =>
        simp only [toParent, Option.isSome_none, Bool.or_false, Bool.or_eq_true] at after ⊢
        tauto
    | some l => simp [silent.toParent l toParent]
  exiting i after := ok.exiting i (silent.exiting after)
  orphan np after := ok.orphan np (silent.owns ▸ after)
  parentToBe p after := ok.parentToBe p (silent.parentToBe p after)

theorem Code.held_of_toInit {k : Code P} {todo : Option (List P)} (self : Option P)
    (waking : k.toInit = some todo) : .wait ∈ k.held self := by
  fun_cases Code.toInit k <;> simp_all [Code.toInit, Code.held]

theorem Code.held_of_toParent {k : Code P} {todo : Option (List P)} (self : Option P)
    (waking : k.toParent = some todo) : .wait ∈ k.held self := by
  fun_cases Code.toParent k <;> simp_all [Code.toParent, Code.held]

theorem Code.held_of_unseen {k : Code P} {l : List P} (self : Option P)
    (scanning : k.unseen = some l) : .wait ∈ k.held self := by
  fun_cases Code.unseen k <;> simp_all [Code.unseen, Code.held]

theorem Code.held_of_parentChan {k : Code P} {chan : Chan P} (self : Option P)
    (waking : k.parentChan = some chan) : .wait ∈ k.held self := by
  fun_cases Code.parentChan k <;> simp_all [Code.parentChan, Code.held]

theorem Code.exiting_of_childless {k : Code P} (done : k.childless = true) :
    k.exiting = true := by
  simp only [Code.childless, Bool.or_eq_true, Option.isSome_iff_exists] at done
  rcases done with (⟨todo, waking⟩ | ⟨todo, waking⟩) | zombied
  · fun_cases Code.toInit k <;> simp_all [Code.toInit, Code.exiting]
  · fun_cases Code.toParent k <;> simp_all [Code.toParent, Code.exiting]
  · fun_cases Code.zombied k <;> simp_all [Code.zombied, Code.exiting]

/-- What a context may rely on when another one moves.  Only the holder of `wait_lock`
relies on who sleeps, who is a zombie, and who is whose parent. -/
theorem ContextOk.rely {s t : SchedState ncpus P} {x : Context ncpus P} {k : Code P}
    (ok : ContextOk s x k) (initproc : t.initproc = s.initproc)
    (asleep : .wait ∈ k.held x.self → ∀ p, Asleep t p → Asleep s p)
    (zombie : .wait ∈ k.held x.self → ∀ p q, ZombieChild t p q → ZombieChild s p q)
    (parent : .wait ∈ k.held x.self → ∀ p, x = .thread p →
      (t.proc p).parent = (s.proc p).parent)
    (children : ∀ p q, k.childless = true → x = .thread p → q ∈ t.allproc →
      (t.proc q).parent = some p → q ∈ s.allproc ∧ (s.proc q).parent = some p)
    (orphan : ∀ np, k.owns = some np → (t.proc np).parent = (s.proc np).parent) :
    ContextOk t x k where
  dozeChan := ok.dozeChan
  initChan := by
    rw [initproc]
    exact ok.initChan
  parentChan chan waking := by
    obtain ⟨p, r, rfl, known, rfl⟩ := ok.parentChan chan waking
    refine ⟨p, r, rfl, ?_, rfl⟩
    rw [parent (Code.held_of_parentChan _ waking) p rfl]
    exact known
  toInit todo i waking known sleeps := by
    rw [initproc] at known
    exact ok.toInit todo i waking known (asleep (Code.held_of_toInit _ waking) i sleeps)
  toParent todo p r waking here known sleeps := by
    have held := Code.held_of_toParent x.self waking
    rw [parent held p here] at known
    exact ok.toParent todo p r waking here known (asleep held r sleeps)
  unseen l p q scanning here child :=
    ok.unseen l p q scanning here (zombie (Code.held_of_unseen _ scanning) p q child)
  childless p q done here listed child := by
    obtain ⟨listed', child'⟩ := children p q done here listed child
    exact ok.childless p q done here listed' child'
  exiting := by
    rw [initproc]
    exact ok.exiting
  orphan np owns := by
    rw [orphan np owns]
    exact ok.orphan np owns
  parentToBe := ok.parentToBe

end Proc

end Av6
