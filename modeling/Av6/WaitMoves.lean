import Av6.WaitInvariant

/-!
# Lock operations and decisions inside `exit` and `wait`
-/

namespace Av6

namespace Proc

variable {ncpus : Nat} {P : Type*} {s : SchedState ncpus P} {self : Option P}
  {k k' : Code P} {l : Lock P}

/-- Where an interrupt can be taken the invariant asks for nothing, but that the process
may be on its way into `exit`. -/
theorem Silent.of_interruptible (open_ : k.interruptible = true) (quiet : k'.dozes = false)
    (waits : k'.waits = false) (dozeChan : k'.dozeChan = none) (unseen : k'.unseen = none)
    (toInit : k'.toInit = none) (toParent : k'.toParent = none) (initChan : k'.initChan = none)
    (parentChan : k'.parentChan = none) (zombied : k'.zombied = false)
    (parentToBe : k'.parentToBe = none) (exiting : k'.exiting = k.exiting)
    (owns : k'.owns = k.owns) : Silent k k' := by
  obtain ⟨-, -, -, -, toInit', -, -, -, zombied', -⟩ := Code.plain_of_interruptible open_
  constructor <;> simp_all

theorem Acquires.silent (next : Acquires s self k l k') :
    Silent k k' ∨ (∃ x p, k = .waitSleep x ∧ self = some p ∧
        k' = .sleepLocked (.proc p) (.waitEnter x)) ∨
      (∃ chan k₀, k = .wakeEnter chan k₀ ∧ k' = .wakeScan chan s.allproc k₀) ∨
      (∃ x, k = .waitLoop x ∧ k' = .waitScan x s.allproc false) ∨
      (∃ np p pid, k = .forkPublish np ∧ self = some p ∧
        k' = .activate np (some p) (.forkDone pid)) := by
  cases next with
  | yield mine open_ =>
      exact Or.inl (Silent.of_interruptible open_ rfl rfl rfl rfl rfl rfl rfl rfl rfl rfl rfl rfl)
  | waitSleep mine => exact Or.inr (Or.inl ⟨_, _, rfl, mine, rfl⟩)
  | wakeEnter => exact Or.inr (Or.inr (Or.inl ⟨_, _, rfl, rfl⟩))
  | waitLoop => exact Or.inr (Or.inr (Or.inr (Or.inl ⟨_, rfl, rfl⟩)))
  | forkPublish mine => exact Or.inr (Or.inr (Or.inr (Or.inr ⟨_, _, _, rfl, mine, rfl⟩)))
  | @wakeScan chan q todo k other =>
      refine Or.inl ?_
      cases k <;> constructor <;> first | rfl | (intros; assumption)
  | _ =>
      refine Or.inl ?_
      constructor <;> first | rfl | (intros; assumption)

theorem Releases.silent (next : Releases s self k l k') (nested : k.Nested) :
    Silent k k' ∨ (∃ chan x, k = .sleepLocked chan (.waitEnter x) ∧
        k' = .sleepReleased chan (.waitEnter x)) ∨
      (∃ st i, k = .exitReparented st ∧ s.initproc = some i ∧
        k' = .wakeEnter (.proc i) (.exitWoke st)) ∨
      (∃ x np todo, k = .waitLocked x np todo ∧ (s.proc np).state ≠ .zombie ∧
        k' = .waitScan x todo true) := by
  cases next with
  | yielded mine =>
      obtain ⟨dozes, waits, dozeChan, unseen, toInit, toParent, initChan, parentChan, zombied,
        parentToBe⟩ := Code.plain_of_interruptible nested
      refine Or.inl ?_
      constructor <;> simp_all [Code.toInit, Code.exiting, Code.zombied, Code.owns]
  | @sleepLocked chan k =>
      rcases nested with rfl | ⟨x, rfl⟩
      · refine Or.inl ?_
        constructor <;> first | rfl | (intros; assumption)
      · exact Or.inr (Or.inl ⟨chan, x, rfl, rfl⟩)
  | exitReparented known => exact Or.inr (Or.inr (Or.inl ⟨_, _, rfl, known, rfl⟩))
  | waitLocked alive => exact Or.inr (Or.inr (Or.inr ⟨_, _, _, rfl, alive, rfl⟩))
  | @wakeDone chan q todo k =>
      refine Or.inl ?_
      cases k <;> constructor <;> first | rfl | (intros; assumption)
  | wakeScan =>
      refine Or.inl ?_
      rcases nested with open_ | ⟨st, rfl⟩ | ⟨st, rfl⟩
      · obtain ⟨dozes, waits, dozeChan, unseen, toInit, toParent, initChan, parentChan, zombied,
          parentToBe⟩ := Code.plain_of_interruptible open_
        cases k' <;> constructor <;>
          simp_all [Code.toInit, Code.exiting, Code.zombied, Code.owns, Code.interruptible]
      · constructor <;> first | rfl | (intros; assumption) | (rintro chan ⟨⟩)
      · constructor <;> first | rfl | (intros; assumption) | (rintro chan ⟨⟩)
  | activateDone =>
      refine Or.inl ?_
      rcases nested with rfl | ⟨pid, rfl⟩ <;> constructor <;>
        first | rfl | (intros; assumption)
  | waitKilled mine =>
      refine Or.inl ?_
      split <;> constructor <;> first | rfl | (intros; assumption) | (rintro l ⟨⟩)
  | _ =>
      refine Or.inl ?_
      constructor <;> first | rfl | (intros; assumption)

theorem Jumps.silent (next : Jumps s self k k') :
    Silent k k' ∨ (∃ st p i, k = .body ∧ k' = .exitEnter st ∧ self = some p ∧
        s.initproc = some i ∧ p ≠ i) ∨
      (∃ chan q todo k₀, k = .wakeScan chan (q :: todo) k₀ ∧ self = some q ∧
        k' = .wakeScan chan todo k₀) ∨
      (∃ st p, k = .exitWoke st ∧ k' = .exitReady st ∧ self = some p ∧
        ((s.proc p).parent = none ∨ (s.proc p).parent = s.initproc)) ∨
      (∃ st p r, k = .exitWoke st ∧ self = some p ∧ (s.proc p).parent = some r ∧
        k' = .wakeEnter (.proc r) (.exitReady st)) ∨
      (∃ x np todo havekids, k = .waitScan x (np :: todo) havekids ∧
        (s.proc np).parent ≠ self ∧ k' = .waitScan x todo havekids) := by
  cases next with
  | @callWakeup k addr open_ =>
      refine Or.inl ?_
      cases k <;>
        first
          | exact Silent.of_interruptible open_ rfl rfl rfl rfl rfl rfl rfl rfl rfl rfl rfl rfl
          | cases open_
  | callExit st mine known mortal =>
      exact Or.inr (Or.inl ⟨st, _, _, rfl, rfl, mine, known, mortal⟩)
  | wakeSelf mine => exact Or.inr (Or.inr (Or.inl ⟨_, _, _, _, rfl, mine, rfl⟩))
  | exitNoParent mine woken =>
      exact Or.inr (Or.inr (Or.inr (Or.inl ⟨_, _, rfl, rfl, mine, woken⟩)))
  | exitParent mine other notInit =>
      exact Or.inr (Or.inr (Or.inr (Or.inr (Or.inl ⟨_, _, _, rfl, mine, other, rfl⟩))))
  | waitSkip other =>
      exact Or.inr (Or.inr (Or.inr (Or.inr (Or.inr ⟨_, _, _, _, rfl, other, rfl⟩))))
  | _ =>
      refine Or.inl ?_
      constructor <;> first | rfl | (intros; assumption) | (rintro l ⟨⟩)

end Proc

end Av6
