import Av6.IntrThreads

/-!
# The phases of an interrupt source

The GIC, the CPUs in `trap_irq` and the thread of a source have each a part in its state.  Put
together these are the phases of `HandoffCycle`, and every step that changes one of them is the
event that the automaton expects.
-/

namespace Av6

namespace Intr

open HandoffCycle Proc

variable {ncpus nslots : Nat} {P I : Type*} {addr : I → Nat}

/-- The CPU has acknowledged the interrupt and has neither handed it over nor deactivated it. -/
def IrqPc.raw (i : I) : IrqPc P I → Prop
  | .acked j | .filtered j _ | .locked j => j = i
  | .dispatched j res => j = i ∧ res ≠ .scheduleThread
  | _ => False

/-- What the thread of a source has to do with the phase of the source. -/
inductive Stage
  | free
  | claimed
  | handling
  | handled
  deriving DecidableEq

def LoopPc.stage : LoopPc → Stage
  | .claimed | .released => .claimed
  | .handling => .handling
  | .handled => .handled
  | _ => .free

/-- The thread of the source is at the given stage. -/
def ThreadAt (s : IntrState ncpus P I) (i : I) (stage : Stage) : Prop :=
  ∃ p, s.isrc p = some i ∧ (s.loop p).stage = stage

def Unclaimed (s : IntrState ncpus P I) (i : I) : Prop :=
  ∀ p, s.isrc p = some i → (s.loop p).stage = .free

def NotRaw (s : IntrState ncpus P I) (i : I) : Prop :=
  ∀ c, ¬ (s.irq c).raw i

/-- The state of a source in a phase. -/
def Holds (s : IntrState ncpus P I) (i : I) : Phase → Prop
  | .idle => (s.src i).active = false ∧ (s.src i).pending = false ∧ NotRaw s i ∧ Unclaimed s i
  | .dispatched => (s.src i).active = true ∧ (s.src i).pending = false ∧
      (∃ c, ∀ d, (s.irq d).raw i ↔ d = c) ∧ Unclaimed s i
  | .scheduled => (s.src i).active = true ∧ NotRaw s i ∧
      ((s.src i).pending = true ∧ Unclaimed s i ∨
        (s.src i).pending = false ∧ ThreadAt s i .claimed)
  | .handling => (s.src i).active = true ∧ (s.src i).pending = false ∧ NotRaw s i ∧
      ThreadAt s i .handling
  | .handled => (s.src i).active = true ∧ (s.src i).pending = false ∧ NotRaw s i ∧
      ThreadAt s i .handled

/-- The history of a source leads to the phase that it is in. -/
def PhaseOk (s : IntrState ncpus P I) (i : I) : Prop :=
  ∃ phase, run .idle (s.src i).trace = some phase ∧ Holds s i phase

section Frame

variable {s t : IntrState ncpus P I} {i : I}

/-- Nothing that the phase of the source depends on has changed. -/
theorem PhaseOk.frame (ok : PhaseOk s i) (active : (t.src i).active = (s.src i).active)
    (pending : (t.src i).pending = (s.src i).pending) (trace : (t.src i).trace = (s.src i).trace)
    (irq : ∀ c, (t.irq c).raw i ↔ (s.irq c).raw i)
    (isrc : t.isrc = s.isrc)
    (stage : ∀ p, s.isrc p = some i → (t.loop p).stage = (s.loop p).stage) : PhaseOk t i := by
  obtain ⟨phase, ran, holds⟩ := ok
  have notRaw : NotRaw s i → NotRaw t i := fun none c raw => none c ((irq c).mp raw)
  have unclaimed : Unclaimed s i → Unclaimed t i := by
    intro free p own
    rw [isrc] at own
    rw [stage p own, free p own]
  have threadAt : ∀ {st}, ThreadAt s i st → ThreadAt t i st := by
    rintro st ⟨p, own, here⟩
    exact ⟨p, by rw [isrc, own], by rw [stage p own, here]⟩
  refine ⟨phase, by rw [trace, ran], ?_⟩
  cases phase with
  | idle =>
      obtain ⟨inactive, idle, none, free⟩ := holds
      exact ⟨active.trans inactive, pending.trans idle, notRaw none, unclaimed free⟩
  | dispatched =>
      obtain ⟨on, idle, ⟨c, only⟩, free⟩ := holds
      exact ⟨active.trans on, pending.trans idle, ⟨c, fun d => (irq d).trans (only d)⟩,
        unclaimed free⟩
  | scheduled =>
      obtain ⟨on, none, ⟨waiting, free⟩ | ⟨idle, here⟩⟩ := holds
      · exact ⟨active.trans on, notRaw none, Or.inl ⟨pending.trans waiting, unclaimed free⟩⟩
      · exact ⟨active.trans on, notRaw none, Or.inr ⟨pending.trans idle, threadAt here⟩⟩
  | handling =>
      obtain ⟨on, idle, none, here⟩ := holds
      exact ⟨active.trans on, pending.trans idle, notRaw none, threadAt here⟩
  | handled =>
      obtain ⟨on, idle, none, here⟩ := holds
      exact ⟨active.trans on, pending.trans idle, notRaw none, threadAt here⟩

/-- The phase of a source whose interrupt some CPU still has. -/
theorem PhaseOk.of_raw (ok : PhaseOk s i) {c : Fin ncpus} (raw : (s.irq c).raw i) :
    run .idle (s.src i).trace = some .dispatched ∧ (s.src i).active = true ∧
      (s.src i).pending = false ∧ (∀ d, (s.irq d).raw i ↔ d = c) ∧ Unclaimed s i := by
  obtain ⟨phase, ran, holds⟩ := ok
  cases phase with
  | dispatched =>
      obtain ⟨on, idle, ⟨d, only⟩, free⟩ := holds
      cases (only c).mp raw
      exact ⟨ran, on, idle, only, free⟩
  | idle => exact (holds.2.2.1 c raw).elim
  | scheduled => exact (holds.2.1 c raw).elim
  | handling => exact (holds.2.2.1 c raw).elim
  | handled => exact (holds.2.2.1 c raw).elim

/-- The phase of a source whose thread is at work. -/
theorem PhaseOk.of_stage (ok : PhaseOk s i) (unique : ∀ p q, s.isrc p = some i → s.isrc q = some i →
    p = q) {p : P} (own : s.isrc p = some i) (busy : (s.loop p).stage ≠ .free) :
    (s.src i).active = true ∧ (s.src i).pending = false ∧ NotRaw s i ∧
      run .idle (s.src i).trace = some (match (s.loop p).stage with
        | .free => .idle
        | .claimed => .scheduled
        | .handling => .handling
        | .handled => .handled) := by
  obtain ⟨phase, ran, holds⟩ := ok
  have here : ∀ {st}, ThreadAt s i st → (s.loop p).stage = st := by
    rintro st ⟨q, own', here⟩
    rw [unique p q own own', here]
  cases phase with
  | idle => exact (busy (holds.2.2.2 p own)).elim
  | dispatched => exact (busy (holds.2.2.2 p own)).elim
  | scheduled =>
      obtain ⟨on, none, ⟨waiting, free⟩ | ⟨idle, thread⟩⟩ := holds
      · exact (busy (free p own)).elim
      · exact ⟨on, idle, none, by rw [ran, here thread]⟩
  | handling =>
      obtain ⟨on, idle, none, thread⟩ := holds
      exact ⟨on, idle, none, by rw [ran, here thread]⟩
  | handled =>
      obtain ⟨on, idle, none, thread⟩ := holds
      exact ⟨on, idle, none, by rw [ran, here thread]⟩

end Frame

section Steps

variable {s t : IntrState ncpus P I} {c : Fin ncpus} {p : P} {i j : I}

theorem raw_setIrq (pc : IrqPc P I) (same : pc.raw j ↔ (s.irq c).raw j) (d : Fin ncpus) :
    (Function.update s.irq c pc d).raw j ↔ (s.irq d).raw j := by
  by_cases here : d = c
  · subst here
    rw [Function.update_self]
    exact same
  · rw [Function.update_of_ne here]

/-- Nothing has happened to the source `j`. -/
theorem PhaseOk.other (ok : PhaseOk s j) (src : t.src j = s.src j)
    (irq : ∀ d, (t.irq d).raw j ↔ (s.irq d).raw j) (isrc : t.isrc = s.isrc)
    (loop : ∀ q, s.isrc q = some j → (t.loop q).stage = (s.loop q).stage) : PhaseOk t j :=
  ok.frame (by rw [src]) (by rw [src]) (by rw [src]) irq isrc loop

variable [DecidableEq P]

theorem update_stage {pc : LoopPc} (q : P) (same : q = p → pc.stage = (s.loop q).stage) :
    (Function.update s.loop p pc q).stage = (s.loop q).stage := by
  by_cases here : q = p
  · subst here
    rw [Function.update_self, same rfl]
  · rw [Function.update_of_ne here]

/-- The thread of a source moves, and its source is another one. -/
theorem stage_of_ne {pc : LoopPc} (own : s.isrc p = some i) (other : j ≠ i) (q : P)
    (mine : s.isrc q = some j) : (Function.update s.loop p pc q).stage = (s.loop q).stage := by
  refine update_stage q ?_
  rintro rfl
  rw [own] at mine
  cases mine
  exact (other rfl).elim

variable [DecidableEq I]

theorem PhaseOk.step (unique : ∀ p q i, s.isrc p = some i → s.isrc q = some i → p = q)
    (ok : ∀ j, PhaseOk s j) (step : IntrStep nslots addr s c t) (j : I) : PhaseOk t j := by
  have ok' := ok j
  cases step with
  | proc | waking => exact ok'.other rfl (fun _ => Iff.rfl) rfl fun _ _ => rfl
  | wakeup on at_ =>
      exact ok'.other rfl (raw_setIrq _ (by rw [at_]; exact Iff.rfl)) rfl fun _ _ => rfl
  | unexpected at_ unknown =>
      refine ok'.other rfl (raw_setIrq _ ?_) rfl fun _ _ => rfl
      rw [at_]
      simp [IrqPc.raw]
  | handled at_ =>
      refine ok'.other rfl (raw_setIrq _ ?_) rfl fun _ _ => rfl
      rw [at_]
      simp [IrqPc.raw]
  | lock at_ free =>
      refine ok'.other rfl (raw_setIrq _ ?_) rfl fun _ _ => rfl
      rw [at_]
      exact Iff.rfl
  | woken on at_ back =>
      refine ok'.other rfl (raw_setIrq _ ?_) rfl fun _ _ => rfl
      rw [at_]
      simp [IrqPc.raw]
  | handedOver at_ =>
      refine ok'.other rfl (raw_setIrq _ ?_) rfl fun _ _ => rfl
      rw [at_]
      simp [IrqPc.raw]
  | irqReturn at_ | yield at_ =>
      refine ok'.other rfl (raw_setIrq _ ?_) rfl fun _ _ => rfl
      rw [at_]
      exact Iff.rfl
  | @filter i res at_ registered =>
      refine ok'.frame ?_ ?_ ?_ (raw_setIrq (s := s) _ (by rw [at_]; exact Iff.rfl)) rfl
        fun _ _ => rfl <;>
        by_cases same : j = i <;> simp [IntrState.setIrq, IntrState.setSrc, same]
  | @stray i at_ =>
      refine ok'.frame ?_ ?_ ?_ (raw_setIrq (s := s) _ (by rw [at_]; simp [IrqPc.raw])) rfl
        fun _ _ => rfl <;>
        by_cases same : j = i <;> simp [IntrState.setIrq, IntrState.setSrc, same]
  | @ack x i on open_ clear unlocked inactive =>
      by_cases same : j = i
      · subst same
        obtain ⟨phase, ran, holds⟩ := ok'
        cases phase with
        | idle =>
            obtain ⟨-, idle, none, free⟩ := holds
            refine ⟨.dispatched, ?_, ?_⟩
            · simpa [IntrState.setIrq, IntrState.setSrc, Source.log] using
          run_snoc ran .dispatch rfl
            · refine ⟨by simp [IntrState.setIrq, IntrState.setSrc, Source.log], ?_, ⟨c, ?_⟩, free⟩
              · simpa [IntrState.setIrq, IntrState.setSrc, Source.log] using idle
              · intro d
                by_cases here : d = c
                · simp [IntrState.setIrq, here, IrqPc.raw]
                · simpa [IntrState.setIrq, IntrState.setSrc, here] using none d
        | dispatched | scheduled | handling | handled =>
            rw [holds.1] at inactive
            cases inactive
      · refine ok'.other ?_ (raw_setIrq (s := s) _ ?_) rfl fun _ _ => rfl
        · simp [IntrState.setIrq, IntrState.setSrc, same]
        · simp [clear, IrqPc.raw, Ne.symm same]
  | @mark i at_ =>
      by_cases same : j = i
      · subst same
        obtain ⟨ran, active, -, only, free⟩ := ok'.of_raw (c := c) (by rw [at_]; rfl)
        refine ⟨.scheduled, ?_, ?_, ?_, Or.inl ⟨?_, free⟩⟩
        · simpa [IntrState.setIrq, IntrState.setSrc, Source.log] using
          run_snoc ran .schedule rfl
        · simpa [IntrState.setIrq, IntrState.setSrc, Source.log] using active
        · intro d
          by_cases here : d = c
          · simp [IntrState.setIrq, here, IrqPc.raw]
          · simpa [IntrState.setIrq, IntrState.setSrc, here] using (only d).not.mpr here
        · simp [IntrState.setIrq, IntrState.setSrc, Source.log]
      · refine ok'.other ?_ (raw_setIrq (s := s) _ ?_) rfl fun _ _ => rfl
        · simp [IntrState.setIrq, IntrState.setSrc, same]
        · simp [at_, IrqPc.raw, Ne.symm same]
  | @deactivate i res at_ own =>
      by_cases same : j = i
      · subst same
        obtain ⟨ran, -, idle, only, free⟩ := ok'.of_raw (c := c) (by rw [at_]; exact ⟨rfl, own⟩)
        refine ⟨.idle, ?_, ?_, ?_, ?_, free⟩
        · simpa [IntrState.setIrq, IntrState.setSrc, Source.log] using
          run_snoc ran .deactivate rfl
        · simp [IntrState.setIrq, IntrState.setSrc, Source.log]
        · simpa [IntrState.setIrq, IntrState.setSrc, Source.log] using idle
        · intro d
          by_cases here : d = c
          · simp [IntrState.setIrq, here, IrqPc.raw]
          · simpa [IntrState.setIrq, IntrState.setSrc, here] using (only d).not.mpr here
      · refine ok'.other ?_ (raw_setIrq (s := s) _ ?_) rfl fun _ _ => rfl
        · simp [IntrState.setIrq, IntrState.setSrc, same]
        · simp [at_, IrqPc.raw, Ne.symm same]
  | @loopLock p i at_ free =>
      refine ok'.other rfl (fun _ => Iff.rfl) rfl fun q mine => update_stage q ?_
      rintro rfl
      rcases at_ with at_ | at_ <;> rw [at_.loop] <;> rfl
  | @sleep p i at_ nothing free =>
      refine ok'.other rfl (fun _ => Iff.rfl) rfl fun q mine => update_stage q ?_
      rintro rfl
      rw [at_.loop]
      rfl
  | @sleepUnlock p i on clear isrc at_ =>
      refine ok'.other rfl (fun _ => Iff.rfl) rfl fun q mine => update_stage q ?_
      rintro rfl
      rw [at_]
      rfl
  | @loopUnlock p i at_ =>
      refine ok'.other rfl (fun _ => Iff.rfl) rfl fun q mine => update_stage q ?_
      rintro rfl
      rw [at_.loop]
      rfl
  | @claim p i at_ work =>
      by_cases same : j = i
      · subst same
        obtain ⟨phase, ran, holds⟩ := ok'
        cases phase with
        | scheduled =>
            obtain ⟨active, none, -⟩ := holds
            refine ⟨.scheduled, ?_, ?_, none, Or.inr ⟨?_, p, at_.isrc, ?_⟩⟩
            · simpa [IntrState.goto, IntrState.setSrc] using ran
            · simpa [IntrState.goto, IntrState.setSrc] using active
            · simp [IntrState.goto, IntrState.setSrc]
            · simp [IntrState.goto, LoopPc.stage]
        | idle | dispatched | handling | handled =>
            rw [holds.2.1] at work
            cases work
      · refine ok'.other ?_ (fun _ => Iff.rfl) rfl (stage_of_ne at_.isrc same)
        simp [IntrState.goto, IntrState.setSrc, same]
  | @start p i at_ =>
      by_cases same : j = i
      · subst same
        obtain ⟨active, idle, none, ran⟩ := ok'.of_stage (fun p q => unique p q j) at_.isrc
          (by rw [at_.loop]; rintro ⟨⟩)
        rw [at_.loop] at ran
        refine ⟨.handling, ?_, ?_, ?_, none, p, at_.isrc, ?_⟩
        · simpa [IntrState.goto, IntrState.setSrc, Source.log] using
          run_snoc ran .start rfl
        · simpa [IntrState.goto, IntrState.setSrc, Source.log] using active
        · simpa [IntrState.goto, IntrState.setSrc, Source.log] using idle
        · simp [IntrState.goto, LoopPc.stage]
      · refine ok'.other ?_ (fun _ => Iff.rfl) rfl (stage_of_ne at_.isrc same)
        simp [IntrState.goto, IntrState.setSrc, same]
  | @finish p i at_ =>
      by_cases same : j = i
      · subst same
        obtain ⟨active, idle, none, ran⟩ := ok'.of_stage (fun p q => unique p q j) at_.isrc
          (by rw [at_.loop]; rintro ⟨⟩)
        rw [at_.loop] at ran
        refine ⟨.handled, ?_, ?_, ?_, none, p, at_.isrc, ?_⟩
        · simpa [IntrState.goto, IntrState.setSrc, Source.log] using
          run_snoc ran .finish rfl
        · simpa [IntrState.goto, IntrState.setSrc, Source.log] using active
        · simpa [IntrState.goto, IntrState.setSrc, Source.log] using idle
        · simp [IntrState.goto, LoopPc.stage]
      · refine ok'.other ?_ (fun _ => Iff.rfl) rfl (stage_of_ne at_.isrc same)
        simp [IntrState.goto, IntrState.setSrc, same]
  | @gicDeactivate p i at_ =>
      by_cases same : j = i
      · subst same
        obtain ⟨-, idle, none, ran⟩ := ok'.of_stage (fun p q => unique p q j) at_.isrc
          (by rw [at_.loop]; rintro ⟨⟩)
        rw [at_.loop] at ran
        refine ⟨.idle, ?_, ?_, ?_, none, ?_⟩
        · simpa [IntrState.goto, IntrState.setSrc, Source.log] using
          run_snoc ran .deactivate rfl
        · simp [IntrState.goto, IntrState.setSrc, Source.log]
        · simpa [IntrState.goto, IntrState.setSrc, Source.log] using idle
        · intro q mine
          rw [unique q p j mine at_.isrc]
          simp [IntrState.goto, LoopPc.stage]
      · refine ok'.other ?_ (fun _ => Iff.rfl) rfl (stage_of_ne at_.isrc same)
        simp [IntrState.goto, IntrState.setSrc, same]

end Steps

end Intr

end Av6
