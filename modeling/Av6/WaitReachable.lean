import Av6.WaitFork

/-!
# The invariant of `exit` and `wait` holds in every reachable state
-/

namespace Av6

namespace Proc

variable {ncpus nslots : Nat} {P : Type*} [DecidableEq P] {s t : SchedState ncpus P}
  {c : Fin ncpus} {x : Context ncpus P} {p q np : P} {k k' : Code P}

omit [DecidableEq P] in
theorem WaitOk.congr (ok : WaitOk s) (data : SameWait s t) (code : t.code = s.code) :
    WaitOk t := by
  have same : ∀ p, Asleep t p → Asleep s p := by
    intro p sleeps
    unfold Asleep at sleeps ⊢
    rwa [data.proc, code] at sleeps
  obtain ⟨context, chan, missed, parents, init⟩ := ok
  refine ⟨fun x => ?_, ?_, fun p q sleeps child => ?_, ?_, ?_⟩
  · rw [code]
    exact (context x).congr data fun _ => same
  · rwa [data.proc, code]
  · rw [code, data.initproc]
    exact missed p q (same p sleeps) (data.calm.zombieChild p q child)
  · rwa [data.proc, data.allproc, data.initproc]
  · rwa [data.proc, data.initproc, data.allocated, code]

section Steps

variable (ok : WaitOk s) (sched : SchedOk s)
include ok sched

omit sched in
theorem WaitOk.unlink {xstatus : Nat} {todo : List P} (result : WaitRecord P)
    (at_ : s.code (.thread p) = .waitLocked xstatus np todo)
    (exited : (s.proc np).state = .zombie) :
    WaitOk ((unlink s np).goto (.thread p) (.waitUnlinked np result)) := by
  have calm : Calm s ((Proc.unlink s np).goto (.thread p) (.waitUnlinked np result)) :=
    { initproc := rfl
      allproc := fun q listed => List.mem_of_mem_erase listed
      parent := fun _ => rfl
      zombie := fun _ => id
      unlisted := by
        intro q listed
        by_cases same : q = np
        · exact Or.inr (same ▸ exited)
        · exact Or.inl ((List.mem_erase_of_ne same).mpr listed)
      allocated := fun _ _ used _ => used }
  have self : ((Proc.unlink s np).goto (.thread p) (.waitUnlinked np result)).code (.thread p) =
      .waitUnlinked np result := Function.update_self ..
  have other : ∀ y, y ≠ .thread p →
      ((Proc.unlink s np).goto (.thread p) (.waitUnlinked np result)).code y = s.code y :=
    fun y distinct => Function.update_of_ne distinct ..
  refine ok.frame (x := .thread p) calm other ?_ ?_ ?_ ?_ ?_
  · rw [self]
    exact { ContextOk.body s (.thread p) with }
  · intro q sleeps
    unfold Asleep at sleeps ⊢
    by_cases same : q = p
    · rw [same, self] at sleeps
      simp [Code.dozes, Code.waits] at sleeps
    · rwa [other _ (by simpa using same)] at sleeps
  · intro q waits sleeping
    by_cases same : q = p
    · rw [same, self] at waits
      cases waits
    · rw [other _ (by simpa using same)] at waits
      exact ok.chan q waits sleeping
  · rw [at_]
    rintro ⟨⟩
  · rw [self]
    rintro i ⟨⟩

omit sched in
/-- An object other than that of `initproc` is given back. -/
theorem WaitOk.giveBack (notInit : s.initproc ≠ some np)
    (moved : Moved s (.thread p) (s.code (.thread p)) k') :
    WaitOk ((Proc.freeproc s np).goto (.thread p) k') := by
  have before := ok.moved (t := s.goto (.thread p) k') ⟨rfl, rfl, rfl, rfl⟩ rfl moved
  obtain ⟨context, chan, missed, parents, init⟩ := before
  refine ⟨?_, chan, missed, parents, ?_⟩
  · intro y
    exact { context y with }
  · intro i known
    obtain ⟨alive, used, unowned⟩ := init i known
    refine ⟨alive, ?_, unowned⟩
    have distinct : i ≠ np := by
      rintro rfl
      exact notInit known
    simpa [Proc.freeproc, SchedState.goto, distinct] using used

/-- Every step keeps the invariant. -/
theorem WaitOk.step (step : SchedStep nslots s c t) : WaitOk t := by
  have moved : ∀ {x k}, s.code x = k → ContextOk s x k := by
    rintro x _ rfl
    exact ok.context x
  cases step with
  | @acquire x _ _ _ on at_ next free =>
      rw [sched.control.self_of_context on] at next
      have nested := sched.control.nested x
      rw [at_] at nested
      refine ok.moved ⟨rfl, rfl, rfl, rfl⟩ rfl ?_
      rw [at_]
      exact next.moved (moved at_) sched nested
  | @release x k _ _ on at_ next =>
      rw [sched.control.self_of_context on] at next
      have nested := sched.control.nested x
      rw [at_] at nested
      by_cases dozing : ∃ chan xs, k = .sleepLocked chan (.waitEnter xs)
      · obtain ⟨chan, xs, rfl⟩ := dozing
        cases next
        exact ok.fallAsleep sched ⟨rfl, rfl, rfl, rfl⟩ on at_ rfl
      · refine ok.moved ⟨rfl, rfl, rfl, rfl⟩ rfl ?_
        rw [at_]
        exact next.moved (moved at_) nested fun chan xs same => dozing ⟨chan, xs, same⟩
  | @jump x _ _ on at_ next =>
      rw [sched.control.self_of_context on] at next
      have nested := sched.control.nested x
      rw [at_] at nested
      refine ok.moved ⟨rfl, rfl, rfl, rfl⟩ rfl ?_
      rw [at_]
      exact next.moved (moved at_) at_ nested
  | finish on at_ next =>
      refine ok.moved ⟨rfl, rfl, rfl, rfl⟩ rfl ?_
      rw [at_]
      cases next <;> exact ⟨ContextOk.body s _, by rintro ⟨⟩, by rintro ⟨⟩, by rintro np ⟨⟩, by rintro ⟨⟩⟩
  | enterScheduler on at_ => exact ok.congr ⟨rfl, rfl, rfl, rfl⟩ rfl
  | dequeue on at_ first => exact ok.congr ⟨rfl, rfl, rfl, rfl⟩ rfl
  | lockProc on at_ free => exact ok.congr ⟨rfl, rfl, rfl, rfl⟩ rfl
  | refuse on state => exact ok.congr ⟨rfl, rfl, rfl, rfl⟩ rfl
  | @dispatch p on state =>
      exact ok.setProc { s.proc p with state := .running } (x := .sched c) rfl (by rintro ⟨⟩) (Or.inl (by rintro ⟨⟩)) rfl rfl rfl rfl
        (fun _ _ => rfl) ⟨ok.context _, id, id, fun _ => id, Or.inl⟩
  | @swtchYield p k on at_ =>
      refine ok.setProc { s.proc p with state := .runnable } (x := .thread p) rfl
        (by rintro ⟨⟩) (Or.inl (by rintro ⟨⟩)) rfl rfl rfl rfl
        (fun y distinct => Function.update_of_ne distinct ..) ?_
      simp only [SchedState.setCpu, SchedState.goto, SchedState.setProc, Function.update_self, at_]
      exact ⟨{ moved at_ with }, by rintro ⟨⟩, by rintro ⟨⟩, fun _ => id, Or.inl⟩
  | @swtchSleep p chan k on at_ =>
      exact ok.sleep { s.proc p with chan := some chan, state := .sleeping } sched at_ rfl rfl
        rfl rfl rfl rfl rfl rfl
  | swtchExit on at_ =>
      refine ok.moved ⟨rfl, rfl, rfl, rfl⟩ rfl ?_
      rw [at_]
      exact ⟨{ ContextOk.body s _ with }, by rintro ⟨⟩, by rintro ⟨⟩, by rintro np ⟨⟩, by rintro ⟨⟩⟩
  | requeue on => split <;> exact ok.congr ⟨rfl, rfl, rfl, rfl⟩ rfl
  | unlockProc on => exact ok.congr ⟨rfl, rfl, rfl, rfl⟩ rfl
  | @awake p k on at_ =>
      have nested := sched.control.nested (.thread p)
      have running := sched.token.running c p on
      rw [at_] at nested running
      refine ok.setProc { s.proc p with chan := none } (x := .thread p) rfl id (Or.inl ?_)
        rfl rfl rfl rfl
        (fun y distinct => Function.update_of_ne distinct ..) ?_
      · simp [running, Code.zombied]
      · simp only [SchedState.goto, SchedState.setLock, SchedState.setProc, Function.update_self,
          at_]
        rcases nested with rfl | ⟨xs, rfl⟩
        · exact ⟨ContextOk.body s _, by rintro ⟨⟩, by rintro ⟨⟩, by rintro np ⟨⟩, by rintro ⟨⟩⟩
        · exact ⟨{ ContextOk.body s _ with }, by rintro ⟨⟩, by rintro ⟨⟩, by rintro np ⟨⟩, by rintro ⟨⟩⟩
  | rouse on at_ asleep => exact ok.rouse sched at_ asleep.1
  | passOver on at_ awake => exact ok.passOver sched on at_ awake
  | @kill p q on at_ =>
      have here : Moved s (.thread p) (s.code (.thread p)) (.killMarked q) := by
        rw [at_]
        exact ⟨{ ContextOk.body s _ with }, by rintro ⟨⟩, by rintro ⟨⟩, by rintro np ⟨⟩, by rintro ⟨⟩⟩
      split
      · refine ok.setProc (x := .thread p) (p := q)
          { s.proc q with state := .runnable, killed := true } rfl (by rintro ⟨⟩)
          (Or.inl (by rintro ⟨⟩)) ?_ rfl rfl rfl
          (fun y distinct => Function.update_of_ne distinct ..) ?_
        · simp [SchedState.goto, SchedState.rouse, SchedState.setProc, SchedState.enqueue]
        · simpa [SchedState.goto] using here
      · refine ok.setProc (x := .thread p) (p := q)
          { s.proc q with killed := true } rfl id (Or.inr ⟨rfl, rfl⟩) rfl rfl rfl rfl
          (fun y distinct => Function.update_of_ne distinct ..) ?_
        simpa [SchedState.goto] using here
  | reparent on at_ => exact ok.reparent sched on at_
  | becomeZombie on at_ => exact ok.becomeZombie sched on at_
  | unlink on at_ exited => exact ok.unlink _ at_ exited
  | @freeproc p np _ on at_ =>
      refine ok.giveBack ?_ ?_
      · intro known
        have exited := (sched.token.reaps (.thread p) np (by rw [at_]; rfl)).2.1
        exact (ok.init np known).1 exited
      · rw [at_]
        exact ⟨{ ContextOk.body s _ with }, by rintro ⟨⟩, by rintro ⟨⟩, by rintro np ⟨⟩, by rintro ⟨⟩⟩
  | waitReturn on at_ =>
      refine ok.moved ⟨rfl, rfl, rfl, rfl⟩ rfl ?_
      rw [at_]
      exact ⟨ContextOk.body s _, by rintro ⟨⟩, by rintro ⟨⟩, by rintro np ⟨⟩, by rintro ⟨⟩⟩
  | allocproc on at_ notScheduler object number => exact ok.allocproc sched on at_ object
  | @abandon p np on at_ =>
      have given : WaitOk ((Proc.freeproc s np).goto (.thread p) .body) := by
        refine ok.giveBack ?_ ?_
        · intro known
          exact (ok.init np known).2.2 p (by rw [at_]; rfl)
        · rw [at_]
          exact ⟨ContextOk.body s _, by rintro ⟨⟩, by rintro ⟨⟩, by rintro np ⟨⟩, by rintro ⟨⟩⟩
      exact given.congr ⟨rfl, rfl, rfl, rfl⟩ rfl
  | userinit on at_ first => exact ok.userinit sched at_ first
  | procActivate on at_ => exact ok.procActivate sched on at_

end Steps

omit [DecidableEq P] in
theorem procInit_waitOk : WaitOk (procInit ncpus P) where
  context := by
    rintro (c | p)
    · exact ContextOk.body _ _
    · exact { ContextOk.body _ _ with }
  chan := by rintro p ⟨⟩
  missed := by rintro p q - ⟨⟨⟩, -⟩
  parents := by rintro p q ⟨⟩
  init := by rintro i ⟨⟩

theorem waitOk_of_reachable (reached : SchedReachable nslots s) : WaitOk s := by
  refine TransitionSystem.Reachable.invariant ?_ ?_ reached
  · rintro start rfl
    exact procInit_waitOk
  · rintro state after before ok ⟨c, step⟩
    exact ok.step (schedOk_of_reachable before) step

end Proc

end Av6
