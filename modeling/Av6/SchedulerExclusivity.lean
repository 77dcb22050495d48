import Av6.ProcSteps

/-!
# A process is in one place, and a runnable one is never lost

Whatever the order in which the CPUs take their steps, a process is on the run queue
once, or current on one CPU, and not both; a runnable process that nobody has locked is
on the queue or in the hands of one scheduler.
-/

namespace Av6

namespace Proc

variable {ncpus nslots : Nat} {P : Type*} [DecidableEq P] {s : SchedState ncpus P}

/-- The process is `c->proc`, or the scheduler of `c` is about to dispatch it. -/
def CurrentOn (s : SchedState ncpus P) (c : Fin ncpus) (p : P) : Prop :=
  s.current c = some p ∨ s.cpu c = .dequeued p ∨ s.cpu c = .dispatching p

omit [DecidableEq P] in
theorem SchedOk.token_of_currentOn (ok : SchedOk s) {c : Fin ncpus} {p : P}
    (current : CurrentOn s c p) : (s.cpu c).token = some p := by
  rcases current with current | on | on
  · rcases (ok.control.current c p).mp current with on | on <;> rw [on] <;> rfl
  · rw [on]
    rfl
  · rw [on]
    rfl

omit [DecidableEq P] in
/-- With its lock free, a runnable process can only be waiting to be locked. -/
theorem SchedOk.dequeued_of_token (ok : SchedOk s) {c : Fin ncpus} {p : P}
    (unlocked : s.locks (.proc p) = none) (state : (s.proc p).state = .runnable)
    (taken : (s.cpu c).token = some p) : s.cpu c = .dequeued p := by
  have free : .proc p ∉ s.heldBy c := by
    intro held
    rw [(ok.control.locks c (.proc p)).mpr held] at unlocked
    cases unlocked
  cases at_ : s.cpu c with
  | dequeued q =>
      rw [at_] at taken
      cases taken
      rfl
  | dispatching q =>
      rw [at_] at taken
      cases taken
      exact (free (by simp [SchedState.heldBy, at_])).elim
  | running q =>
      rw [at_] at taken
      cases taken
      rw [ok.token.running c p at_] at state
      split at state <;> cases state
  | switchedBack q =>
      rw [at_] at taken
      cases taken
      exact (free (by simp [SchedState.heldBy, at_])).elim
  | _ => rw [at_] at taken; cases taken

/-- Scheduler exclusivity, and no process is lost. -/
theorem scheduler_exclusive (reached : SchedReachable nslots s) :
    s.runq.Nodup ∧
      (∀ p c d, CurrentOn s c p → CurrentOn s d p → c = d) ∧
      (∀ p c, CurrentOn s c p → p ∉ s.runq) ∧
      (∀ p, s.locks (.proc p) = none → (s.proc p).state = .runnable →
        p ∈ s.runq ∨ ∃! c, s.cpu c = .dequeued p) ∧
      ∀ c p, s.cpu c = .dispatching p → (s.proc p).state = .runnable := by
  have ok := schedOk_of_reachable reached
  refine ⟨ok.token.runq_nodup, ?_, ?_, ?_, ?_⟩
  · intro p c d first second
    exact ok.token.token_inj c d p (ok.token_of_currentOn first) (ok.token_of_currentOn second)
  · intro p c current queued
    exact (ok.token.runq_ok p queued).2 c (ok.token_of_currentOn current)
  · intro p unlocked state
    rcases ok.token.runnable p state with queued | ⟨c, taken⟩
    · exact Or.inl queued
    · have here := ok.dequeued_of_token unlocked state taken
      refine Or.inr ⟨c, here, ?_⟩
      intro d there
      exact ok.token.token_inj d c p (by rw [there]; rfl) taken
  · intro c p on
    exact ok.token.ready c p (Or.inr on)

/-- The first process, published by `userinit` and dequeued by the second CPU. -/
theorem exists_dequeued : ∃ s : SchedState 2 Bool, SchedReachable 8 s ∧
    s.locks (.proc true) = none ∧ (s.proc true).state = .runnable ∧
      s.cpu 1 = .dequeued true ∧ true ∉ s.runq := by
  have boot : SchedReachable 8 (procInit 2 Bool) := .start rfl
  have built : SchedReachable 8
      ((allocproc (procInit 2 Bool) true 1).goto (.sched 0) (.build true)) :=
    boot.next ⟨0, .allocproc rfl rfl (Or.inl rfl) rfl rfl⟩
  have named := built.next ⟨0, .userinit rfl rfl rfl⟩
  have listing := named.next ⟨0, .acquire rfl rfl .activate rfl⟩
  have locked := listing.next ⟨0, .acquire rfl rfl .activatePtable rfl⟩
  have published := locked.next ⟨0, .procActivate rfl rfl⟩
  have released := published.next ⟨0, .release rfl rfl .activated⟩
  have dequeued := released.next ⟨1, .dequeue rfl rfl rfl⟩
  exact ⟨_, dequeued, rfl, rfl, rfl, by decide⟩

theorem scheduler_exclusive_dequeued : ∃ s : SchedState 2 Bool, SchedReachable 8 s ∧
    s.locks (.proc true) = none ∧ (s.proc true).state = .runnable ∧
      ∃! c, s.cpu c = .dequeued true := by
  obtain ⟨s, reached, unlocked, state, -, away⟩ := exists_dequeued
  have exclusive := scheduler_exclusive reached
  refine ⟨s, reached, unlocked, state, ?_⟩
  exact (exclusive.2.2.2.1 true unlocked state).resolve_left away

end Proc

end Av6
