import Av6.WaitLedgerSteps

/-!
# The history holds in every reachable state
-/

namespace Av6

namespace Proc

variable {ncpus nslots : Nat} {P : Type*} [DecidableEq P] {s t : SchedState ncpus P}
  {c : Fin ncpus} {x : Context ncpus P} {p q np : P} {k k' : Code P}

omit [DecidableEq P] in
theorem LedgerOk.goto (ok : LedgerOk s) (same : SameRecords s t) (proc : t.proc = s.proc)
    (other : ∀ y, y ≠ x → t.code y = s.code y)
    (move : LedgerMove s x.self (s.code x) (t.code x)) : LedgerOk t :=
  ok.moved (x := x) same other move fun np _ => by rw [proc]

/-- Every step keeps the ledger. -/
theorem LedgerOk.step (ok : LedgerOk s) (sched : SchedOk s) (step : SchedStep nslots s c t) :
    LedgerOk t := by
  cases step with
  | @acquire x _ _ _ on at_ next free =>
      rw [sched.control.self_of_context on] at next
      refine ok.goto (x := x) (.of_proc rfl rfl rfl rfl rfl rfl) rfl
        (fun y distinct => Function.update_of_ne distinct ..) ?_
      simp only [SchedState.goto, Function.update_self, at_]
      exact next.ledger
  | @release x _ _ _ on at_ next =>
      rw [sched.control.self_of_context on] at next
      have nested := sched.control.nested x
      rw [at_] at nested
      refine ok.goto (x := x) (.of_proc rfl rfl rfl rfl rfl rfl) rfl
        (fun y distinct => Function.update_of_ne distinct ..) ?_
      simp only [SchedState.goto, Function.update_self, at_]
      exact next.ledger nested
  | @jump x _ _ on at_ next =>
      rw [sched.control.self_of_context on] at next
      refine ok.goto (x := x) (.of_proc rfl rfl rfl rfl rfl rfl) rfl
        (fun y distinct => Function.update_of_ne distinct ..) ?_
      simp only [SchedState.goto, Function.update_self, at_]
      exact next.ledger
  | @finish p _ _ _ on at_ next =>
      refine ok.goto (x := .thread p) (.of_proc rfl rfl rfl rfl rfl rfl) rfl
        (fun y distinct => Function.update_of_ne distinct ..) ?_
      simp only [SchedState.goto, Function.update_self, at_]
      cases next <;> exact .of_quiet ⟨rfl, rfl⟩ rfl rfl rfl
  | enterScheduler on at_ => exact ok.congr (.of_proc rfl rfl rfl rfl rfl rfl) rfl rfl
  | dequeue on at_ first => exact ok.congr (.of_proc rfl rfl rfl rfl rfl rfl) rfl rfl
  | lockProc on at_ free => exact ok.congr (.of_proc rfl rfl rfl rfl rfl rfl) rfl rfl
  | refuse on state => exact ok.congr (.of_proc rfl rfl rfl rfl rfl rfl) rfl rfl
  | @dispatch p on state =>
      exact ok.setProc { s.proc p with state := .running } (x := .sched c) ⟨rfl, rfl, rfl⟩
        (by simp [state]) rfl rfl rfl rfl rfl rfl rfl (fun _ _ => rfl) (.refl ..)
  | @swtchYield p k on at_ =>
      have state := sched.token.running c p on
      rw [at_] at state
      refine ok.setProc { s.proc p with state := .runnable } (x := .thread p) ⟨rfl, rfl, rfl⟩
        (by simp [state, Code.zombied]) rfl rfl rfl rfl rfl rfl rfl
        (fun y distinct => Function.update_of_ne distinct ..) ?_
      simp only [SchedState.setCpu, SchedState.goto, SchedState.setProc, Function.update_self, at_]
      exact .of_quiet ⟨rfl, rfl⟩ rfl rfl rfl
  | @swtchSleep p chan k on at_ =>
      have state := sched.token.running c p on
      rw [at_] at state
      refine ok.setProc { s.proc p with chan := some chan, state := .sleeping } (x := .thread p)
        ⟨rfl, rfl, rfl⟩ (by simp [state, Code.zombied]) rfl rfl rfl rfl rfl rfl rfl
        (fun y distinct => Function.update_of_ne distinct ..) ?_
      simp only [SchedState.setCpu, SchedState.goto, SchedState.setProc, Function.update_self, at_]
      exact .of_quiet ⟨rfl, rfl⟩ rfl rfl rfl
  | @swtchExit p on at_ =>
      refine ok.goto (x := .thread p) (.of_proc rfl rfl rfl rfl rfl rfl) rfl
        (fun y distinct => Function.update_of_ne distinct ..) ?_
      simp only [SchedState.setCpu, SchedState.goto, Function.update_self, at_]
      exact .of_quiet ⟨rfl, rfl⟩ rfl rfl rfl
  | requeue on => split <;> exact ok.congr (.of_proc rfl rfl rfl rfl rfl rfl) rfl rfl
  | unlockProc on => exact ok.congr (.of_proc rfl rfl rfl rfl rfl rfl) rfl rfl
  | @awake p k on at_ =>
      have nested := sched.control.nested (.thread p)
      rw [at_] at nested
      refine ok.setProc { s.proc p with chan := none } (x := .thread p) ⟨rfl, rfl, rfl⟩
        Iff.rfl rfl rfl rfl rfl rfl rfl rfl
        (fun y distinct => Function.update_of_ne distinct ..) ?_
      simp only [SchedState.goto, SchedState.setLock, SchedState.setProc, Function.update_self,
        at_]
      rcases nested with rfl | ⟨xs, rfl⟩ <;> exact .of_quiet ⟨rfl, rfl⟩ rfl rfl rfl
  | @rouse x chan q todo k on at_ asleep =>
      refine ok.setProc { s.proc q with state := .runnable } (x := x) ⟨rfl, rfl, rfl⟩
        (by simp [asleep.1]) rfl rfl rfl rfl rfl rfl rfl
        (fun y distinct => Function.update_of_ne distinct ..) ?_
      simp only [SchedState.goto, Function.update_self, at_]
      exact .of_quiet ⟨rfl, rfl⟩ rfl rfl rfl
  | @passOver x _ _ _ _ on at_ awake =>
      refine ok.goto (x := x) (.of_proc rfl rfl rfl rfl rfl rfl) rfl
        (fun y distinct => Function.update_of_ne distinct ..) ?_
      simp only [SchedState.goto, Function.update_self, at_]
      exact .of_quiet ⟨rfl, rfl⟩ rfl rfl rfl
  | @kill p q on at_ =>
      have here : LedgerMove s (some p) (s.code (.thread p)) (.killMarked q) := by
        rw [at_]
        exact .of_quiet ⟨rfl, rfl⟩ rfl rfl rfl
      split
      · rename_i asleep
        refine ok.setProc (x := .thread p) (q := q)
          { s.proc q with state := .runnable, killed := true } ⟨rfl, rfl, rfl⟩
          (by simp [asleep]) rfl ?_ rfl rfl rfl rfl rfl
          (fun y distinct => Function.update_of_ne distinct ..) ?_
        · simp [SchedState.goto, SchedState.rouse, SchedState.setProc, SchedState.enqueue]
        · simpa [SchedState.goto, Context.self] using here
      · refine ok.setProc (x := .thread p) (q := q)
          { s.proc q with killed := true } ⟨rfl, rfl, rfl⟩ Iff.rfl rfl rfl rfl rfl rfl rfl rfl
          (fun y distinct => Function.update_of_ne distinct ..) ?_
        simpa [SchedState.goto, Context.self] using here
  | reparent on at_ => exact ok.reparent sched on at_
  | becomeZombie on at_ => exact ok.becomeZombie sched on at_
  | unlink on at_ exited => exact ok.unlink sched at_ exited
  | freeproc on at_ => exact ok.freeproc sched on at_
  | waitReturn on at_ => exact ok.waitReturn sched on at_
  | allocproc on at_ notScheduler object number => exact ok.allocproc sched on at_ object
  | abandon on at_ => exact ok.abandon at_
  | @userinit np on at_ first =>
      refine ok.goto (x := .sched c) (.of_proc rfl rfl rfl rfl rfl rfl) rfl
        (fun y distinct => Function.update_of_ne distinct ..) ?_
      simp only [SchedState.goto, Function.update_self, at_]
      exact .of_quiet ⟨rfl, rfl⟩ rfl rfl rfl
  | procActivate on at_ => exact ok.procActivate sched at_

omit [DecidableEq P] in
theorem procInit_ledgerOk : LedgerOk (procInit ncpus P) where
  birth_lt := by rintro p ⟨⟩
  birth_inj := by rintro p q ⟨⟩
  exits_lt := by rintro e ⟨⟩
  exits_nodup := List.nodup_nil
  alive := by rintro p ⟨⟩
  zombie := by rintro p ⟨⟩
  found := by rintro p np ⟨⟩
  failed := by rintro (c | p) np ⟨⟩
  result := by rintro (c | p) r ⟨⟩
  reaping := by rintro (c | p) r np ⟨⟩
  freed := by rintro (c | p) r ⟨⟩
  returns := by rintro r ⟨⟩
  returns_nodup := List.nodup_nil
  accounted := by rintro e ⟨⟩

theorem ledgerOk_of_reachable (reached : SchedReachable nslots s) : LedgerOk s := by
  refine TransitionSystem.Reachable.invariant ?_ ?_ reached
  · rintro start rfl
    exact procInit_ledgerOk
  · rintro state after before ok ⟨c, step⟩
    exact ok.step (schedOk_of_reachable before) step

end Proc

end Av6
