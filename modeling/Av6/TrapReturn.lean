import Av6.TrapModel

/-!
# Which killed processes return to user mode

`usertrap_sync` tests the flag on its way out, so that a killed process that comes in by a
synchronous exception leaves the kernel only through `exit`.  The handlers of IRQs and SErrors
return to user mode without looking at it.
-/

namespace Av6

namespace Trap

open Proc

variable {ncpus nslots : Nat} {ras : Bool} {P : Type*}

/-- Inside `usertrap_sync`. -/
def Mode.handling : Mode → Bool
  | .sync _ | .syscall | .check | .exiting => true
  | _ => false

/-- Neither in user mode nor stopped. -/
def Mode.inKernel : Mode → Bool
  | .user | .panicked => false
  | _ => true

/-- Where `proc.c` stands for a thread in the mode. -/
def Mode.Fits : Mode → Code P → Prop
  | .user, k | .sync _, k | .check, k | .serror _, k => k = .body
  | .forked, k | .irq, k => k.atBody = true
  | _, _ => True

structure TrapOk (s : TrapState ncpus P) : Prop where
  sched : SchedOk s.sched
  fits : ∀ p, (s.mode p).Fits (s.sched.code (.thread p))
  alive : ∀ p, (s.sched.code (.thread p)).atBody = true → Alive (s.sched.proc p).state

section Steps

variable {s : TrapState ncpus P} {t : SchedState ncpus P} {c : Fin ncpus} {p : P}

theorem TrapState.At.context {mode : Mode} (at_ : s.At c p mode) :
    s.sched.context c = some (.thread p) := by
  simp [SchedState.context, at_.on]

/-- The mode of a process across a step of `proc.c`. -/
theorem fits_effect (ok : TrapOk s) (effect : Effect s.sched t c p)
    (lets : s.sched.cpu c = .running p →
      (s.mode p).Lets (s.sched.code (.thread p)) (t.code (.thread p))) :
    (s.mode p).Fits (t.code (.thread p)) := by
  have fits := ok.fits p
  have alive := ok.alive p
  cases mode : s.mode p with
  | user | sync | check | serror =>
      rw [mode] at fits lets
      have body : s.sched.code (.thread p) = .body := fits
      exact (effect.code_same ok.sched (alive (by rw [body]; rfl)) lets).trans body
  | forked | irq =>
      rw [mode] at fits lets
      exact (effect.atBody ok.sched (alive fits) fits fun on => (lets on).2).2
  | _ => trivial

variable [DecidableEq P]

theorem forkret_step (nslots : Nat) (ok : SchedOk s.sched) (on : s.sched.cpu c = .running p)
    (at_ : s.sched.code (.thread p) = .forkret) :
    SchedStep nslots s.sched c ((s.sched.setLock (.proc p) none).goto (.thread p) .body) := by
  have context : s.sched.context c = some (.thread p) := by simp [SchedState.context, on]
  refine .release context at_ ?_
  rw [ok.control.self_of_context context]
  exact .forkret rfl

theorem exit_step {mode : Mode} {init : P} (nslots : Nat) (ok : SchedOk s.sched) (at_ : s.At c p mode)
    (known : s.sched.initproc = some init) (mortal : p ≠ init) :
    SchedStep nslots s.sched c (s.sched.goto (.thread p) (.exitEnter (-1))) := by
  refine .jump at_.context at_.body ?_
  rw [ok.control.self_of_context at_.context]
  exact .callExit (-1) rfl known mortal

/-- The processes of a run of the whole system run as `proc.c` says. -/
theorem TrapStep.sched {t : TrapState ncpus P} (step : TrapStep nslots ras s c t)
    (ok : SchedOk s.sched) : t.sched = s.sched ∨ SchedStep nslots s.sched c t.sched := by
  cases step with
  | proc stepped lets => exact Or.inr stepped
  | forkret on at_ mode starts => exact Or.inr (forkret_step _ ok on at_)
  | exit at_ known mortal => exact Or.inr (exit_step _ ok at_ known mortal)
  | _ => exact Or.inl rfl

theorem TrapOk.step {t : TrapState ncpus P} (ok : TrapOk s) (step : TrapStep nslots ras s c t)
    (sched : SchedOk t.sched) : TrapOk t := by
  have alive : ∀ p, (t.sched.code (.thread p)).atBody = true → Alive (t.sched.proc p).state := by
    intro p
    rcases step.sched ok.sched with same | stepped
    · rw [same]
      exact ok.alive p
    · exact (stepped.effect ok.sched p).alive_of_atBody ok.sched (ok.alive p)
  refine ⟨sched, ?_, alive⟩
  intro q
  -- All but the first move one process that is outside `proc.c`.
  have other : ∀ {p mode}, s.At c p mode → ∀ mode', mode'.Fits (.body : Code P) →
      ((s.enter p mode').mode q).Fits (s.sched.code (.thread q)) := by
    intro p mode at_ mode' fits
    by_cases same : q = p
    · subst same
      simpa [TrapState.enter, at_.body] using fits
    · simpa [TrapState.enter, same] using ok.fits q
  cases step with
  | proc stepped lets => exact fits_effect (s := s) ok (stepped.effect ok.sched q) (lets q)
  | @forkret p on at_ mode starts =>
      by_cases same : q = p
      · subst same
        rcases starts with rfl | rfl <;> simp [TrapState.enter, SchedState.goto, Mode.Fits,
          Code.atBody]
      · have kept := fits_effect (s := s) ok ((forkret_step nslots ok.sched on at_).effect
          ok.sched q) (by
            intro on'
            rw [on] at on'
            cases on'
            exact (same rfl).elim)
        simpa [TrapState.enter, same] using kept
  | @exit p init at_ known mortal =>
      by_cases same : q = p
      · subst same
        simp [at_.mode, Mode.Fits]
      · exact fits_effect (s := s) ok ((exit_step nslots ok.sched at_ known mortal).effect
          ok.sched q) (by
            intro on'
            rw [at_.on] at on'
            cases on'
            exact (same rfl).elim)
  | usertrapret at_ => exact other at_ _ rfl
  | el0Sync esr at_ => exact other at_ _ rfl
  | el0Irq at_ => exact other at_ _ rfl
  | el0Error esr at_ => exact other at_ _ rfl
  | el0Fiq at_ => exact other at_ _ trivial
  | svc at_ class_ => exact other at_ _ trivial
  | fault at_ class_ => exact other at_ _ trivial
  | sysret at_ => exact other at_ _ rfl
  | killed at_ free =>
      refine other at_ _ ?_
      split
      · trivial
      · rfl
  | initExit at_ init =>
      rcases at_ with at_ | at_
      · exact other at_ _ trivial
      · exact other at_ _ trivial
  | irqReturn at_ => exact other at_ _ rfl
  | serrorReturn at_ contained => exact other at_ _ rfl
  | serrorPanic at_ fatal => exact other at_ _ trivial

end Steps

section Doomed

variable {s : TrapState ncpus P} {c : Fin ncpus} {p : P} {birth : Nat}

/-- A killed process inside `usertrap_sync`, as long as the object is this process. -/
structure Held (s : TrapState ncpus P) (p : P) (birth : Nat) : Prop where
  killed : (s.sched.proc p).killed = true
  started : s.sched.code (.thread p) ≠ .forkret
  handling : (s.mode p).handling = true
  living : Alive (s.sched.proc p).state ∨ (s.sched.proc p).state = .zombie ∧ Exited s birth
  mortal : s.sched.initproc ≠ some p

structure Doomed (s : TrapState ncpus P) (p : P) (birth : Nat) : Prop where
  old : birth < s.sched.births
  held : (s.sched.proc p).birth = birth → Held s p birth
  gone : (s.sched.proc p).birth = birth ∨ Exited s birth

/-- A thread comes to `forkret` only when it is made. -/
theorem follows_started {s : SchedState ncpus P} {k k' : Code P} (next : Follows s p k k')
    (nested : k.Nested) : k' ≠ .forkret := by
  have open_ : ∀ {k : Code P}, k.interruptible = true → k ≠ .forkret := by
    rintro _ open_ rfl
    cases open_
  cases next with
  | acquires next => cases next <;> rintro ⟨⟩
  | releases next =>
      cases next with
      | yielded => exact open_ nested
      | wakeScan =>
          rcases nested with nested | ⟨st, rfl⟩ | ⟨st, rfl⟩
          · exact open_ nested
          · rintro ⟨⟩
          · rintro ⟨⟩
      | activateDone => rcases nested with rfl | ⟨pid, rfl⟩ <;> rintro ⟨⟩
      | waitKilled => split <;> rintro ⟨⟩
      | _ => rintro ⟨⟩
  | jumps next => cases next <;> rintro ⟨⟩
  | returns next => rintro ⟨⟩
  | acts next => cases next <;> rintro ⟨⟩

variable [DecidableEq P]

/-- `exit`, `kill` and the scheduler, seen from a killed process. -/
theorem Doomed.proc {t : TrapState ncpus P} (doomed : Doomed s p birth) (ok : SchedOk s.sched)
    (stepped : SchedStep nslots s.sched c t.sched)
    (handling : (s.mode p).handling = true → s.sched.code (.thread p) ≠ .forkret →
      (t.mode p).handling = true) : Doomed t p birth := by
  obtain ⟨exits, births, initproc⟩ := stepped.history ok
  have exited : Exited s birth → Exited t birth := fun ⟨e, listed, same⟩ => ⟨e, exits listed, same⟩
  have old : birth < t.sched.births := Nat.lt_of_lt_of_le doomed.old births
  -- The object is the same process, with the same flag.
  have keeps : ∀ {data : ProcData P}, Agree (t.sched.proc p) data →
      data.birth = (s.sched.proc p).birth →
      (data.killed = (s.sched.proc p).killed ∨ data.killed = true) →
      (s.sched.code (.thread p) ≠ .forkret → t.sched.code (.thread p) ≠ .forkret) →
      (Alive (s.sched.proc p).state → Alive data.state ∨ data.state = .zombie ∧ Exited t birth) →
      ((s.sched.proc p).state = .zombie → data.state = .zombie) → Doomed t p birth := by
    intro data agree sameBirth killed started alive zombie
    refine ⟨old, fun same => ?_, ?_⟩
    · have held := doomed.held (by rw [← sameBirth, ← agree.birth, same])
      refine ⟨?_, started held.started, handling held.handling held.started, ?_, ?_⟩
      · rw [agree.killed]
        rcases killed with killed | killed
        · rw [killed, held.killed]
        · exact killed
      · rw [agree.state]
        rcases held.living with living | ⟨dead, record⟩
        · exact alive living
        · exact Or.inr ⟨zombie dead, exited record⟩
      · rcases initproc with same | ⟨np, named, private_⟩
        · rw [same]
          exact held.mortal
        · rw [named]
          rintro ⟨⟩
          rcases held.living with living | ⟨dead, -⟩
          · rw [private_] at living
            rcases living with same | same | same <;> cases same
          · rw [private_] at dead
            cases dead
    · rw [agree.birth, sameBirth]
      exact doomed.gone.imp_right exited
  cases stepped.effect ok p with
  | none code data =>
      exact keeps data rfl (Or.inl rfl) (fun before => by rwa [code]) Or.inl id
  | follows on code data =>
      exact keeps data rfl (Or.inl rfl)
        (fun _ => follows_started code (ok.control.nested _)) Or.inl id
  | switches on off code =>
      rcases code.elim with ⟨k, before, after, data⟩ | ⟨chan, k, before, after, data⟩ |
        ⟨before, after, data⟩
      · have running := ok.running_state on (by rw [before]; rfl)
        refine keeps (.refl _) (by rw [data]) (Or.inl (by rw [data]))
          (fun _ => by rw [after]; rintro ⟨⟩) (fun _ => Or.inl (Or.inr (Or.inl (by rw [data])))) ?_
        rw [running]
        rintro ⟨⟩
      · have running := ok.running_state on (by rw [before]; rfl)
        refine keeps (.refl _) (by rw [data]) (Or.inl (by rw [data]))
          (fun _ => by rw [after]; rintro ⟨⟩) (fun _ => Or.inl (Or.inr (Or.inr (by rw [data])))) ?_
        rw [running]
        rintro ⟨⟩
      · exact keeps (.refl _) (by rw [data]) (Or.inl (by rw [data]))
          (fun _ => by rw [after]; rintro ⟨⟩) (fun alive => Or.inl (by rwa [data]))
          (fun dead => by rwa [data])
  | awakes on code data =>
      refine keeps data rfl (Or.inl rfl) (fun _ => ?_) Or.inl id
      have nested := ok.control.nested (.thread p)
      rw [code] at nested
      rcases nested with back | ⟨x, back⟩ <;> rw [back] <;> rintro ⟨⟩
  | zombie on code code' data record =>
      refine ⟨old, fun same => ?_, ?_⟩
      · have same' : (s.sched.proc p).birth = birth := data.birth.symm.trans same
        refine (keeps data rfl (Or.inl rfl) (fun _ => by rw [code']; rintro ⟨⟩) (fun _ => ?_)
          (fun _ => rfl)).held same
        exact Or.inr ⟨rfl, _, by rw [record]; exact List.mem_cons_self, same'⟩
      · rw [data.birth]
        exact doomed.gone.imp_right exited
  | dispatched on on' code ready data =>
      refine keeps data rfl (Or.inl rfl) (fun before => by rwa [code])
        (fun _ => Or.inl (Or.inl rfl)) ?_
      rw [ready]
      rintro ⟨⟩
  | roused on at_ code asleep onChan data =>
      refine keeps data rfl (Or.inl rfl) (fun before => by rwa [code])
        (fun _ => Or.inl (Or.inr (Or.inl rfl))) ?_
      rw [asleep]
      rintro ⟨⟩
  | marked on at_ code data =>
      refine keeps data rfl (Or.inr rfl) ?_ ?_ ?_
      · rcases code with code | ⟨-, code⟩ <;> rw [code]
        · exact id
        · rintro - ⟨⟩
      · intro alive
        dsimp only
        split
        · exact Or.inl (Or.inr (Or.inl rfl))
        · exact Or.inl alive
      · intro dead
        simp [dead]
  | allocated free code state killed born =>
      refine ⟨old, fun same => ?_, ?_⟩
      · have fresh := doomed.old
        rw [← same, born] at fresh
        exact absurd fresh (Nat.lt_irrefl _)
      · rcases doomed.gone with here | record
        · rcases (doomed.held here).living with living | ⟨-, record⟩
          · rw [living.allocated ok] at free
            cases free
          · exact Or.inr (exited record)
        · exact Or.inr (exited record)
  | activated code private_ data =>
      refine keeps data rfl (Or.inl rfl) (fun before => by rwa [code])
        (fun _ => Or.inl (Or.inr (Or.inl rfl))) ?_
      rw [private_]
      rintro ⟨⟩

/-- The handler of a synchronous exception keeps a killed process until it exits. -/
theorem Doomed.step {t : TrapState ncpus P} (doomed : Doomed s p birth) (ok : TrapOk s)
    (step : TrapStep nslots ras s c t) : Doomed t p birth := by
  -- Outside `proc.c` only the mode of one process changes.
  have enter : ∀ {q mode}, s.At c q mode → ∀ mode',
      (q = p → mode.handling = true → (s.sched.proc p).killed = true →
        s.sched.initproc ≠ some p → mode'.handling = true) → Doomed (s.enter q mode') p birth := by
    intro q mode at_ mode' stays
    refine ⟨doomed.old, fun same => ?_, doomed.gone⟩
    have held := doomed.held same
    refine { held with handling := ?_ }
    by_cases here : p = q
    · subst here
      have handling := held.handling
      rw [at_.mode] at handling
      simpa [TrapState.enter] using stays rfl handling held.killed held.mortal
    · simpa [TrapState.enter, here] using held.handling
  cases step with
  | proc stepped lets => exact doomed.proc (t := { s with sched := _ }) ok.sched stepped fun h _ => h
  | @forkret q on at_ mode starts =>
      refine doomed.proc ok.sched (forkret_step nslots ok.sched on at_) fun handling started => ?_
      by_cases here : p = q
      · subst here
        exact (started at_).elim
      · simpa [TrapState.enter, here] using handling
  | exit at_ known mortal =>
      exact doomed.proc (t := { s with sched := _ }) ok.sched
        (exit_step nslots ok.sched at_ known mortal) fun h _ => h
  | usertrapret at_ => exact enter at_ _ (by rintro - ⟨⟩)
  | el0Sync esr at_ => exact enter at_ _ (by rintro - ⟨⟩)
  | el0Irq at_ => exact enter at_ _ (by rintro - ⟨⟩)
  | el0Error esr at_ => exact enter at_ _ (by rintro - ⟨⟩)
  | el0Fiq at_ => exact enter at_ _ (by rintro - ⟨⟩)
  | svc at_ class_ => exact enter at_ _ fun _ _ _ _ => rfl
  | fault at_ class_ => exact enter at_ _ fun _ _ _ _ => rfl
  | sysret at_ => exact enter at_ _ fun _ _ _ _ => rfl
  | @killed q at_ free =>
      refine enter at_ _ fun same _ killed _ => ?_
      subst same
      rw [killed]
      rfl
  | initExit at_ init =>
      rcases at_ with at_ | at_
      · exact enter at_ _ fun same _ _ mortal => (mortal (same ▸ init)).elim
      · exact enter at_ _ fun same _ _ mortal => (mortal (same ▸ init)).elim
  | irqReturn at_ => exact enter at_ _ (by rintro - ⟨⟩)
  | serrorReturn at_ contained => exact enter at_ _ (by rintro - ⟨⟩)
  | serrorPanic at_ fatal => exact enter at_ _ (by rintro - ⟨⟩)

end Doomed

section Runs

variable [DecidableEq P] {s t : TrapState ncpus P} {p : P}

theorem TrapReachable.sched (reached : TrapReachable nslots ras s) :
    SchedReachable nslots s.sched := by
  refine TransitionSystem.Reachable.invariant
    (I := fun s : TrapState ncpus P => SchedReachable nslots s.sched) ?_ ?_ reached
  · rintro s rfl
    exact .start rfl
  · rintro s t - before ⟨c, step⟩
    rcases step.sched (schedOk_of_reachable before) with same | stepped
    · rwa [same]
    · exact before.next ⟨c, stepped⟩

theorem trapOk_of_reachable (reached : TrapReachable nslots ras s) : TrapOk s := by
  refine TransitionSystem.Reachable.invariant (I := TrapOk) ?_ ?_ reached
  · rintro s rfl
    exact ⟨procInit_ok, fun p => trivial,
      fun p => by rintro ⟨⟩⟩
  · rintro s t before ok ⟨c, step⟩
    have after : TrapReachable nslots ras t := before.next ⟨c, step⟩
    exact ok.step step (schedOk_of_reachable after.sched)

theorem Doomed.run {birth : Nat} (doomed : Doomed s p birth) (reached : TrapReachable nslots ras s)
    (run : Relation.ReflTransGen (TrapMoves nslots ras) s t) :
    TrapReachable nslots ras t ∧ Doomed t p birth := by
  induction run with
  | refl => exact ⟨reached, doomed⟩
  | tail run step ih =>
      obtain ⟨reached, doomed⟩ := ih
      obtain ⟨c, stepped⟩ := step
      exact ⟨reached.next ⟨c, stepped⟩, doomed.step (trapOk_of_reachable reached) stepped⟩

/-- The four vectors of EL0. -/
theorem Enters.cases (ok : TrapOk s) (step : TrapMoves nslots ras s t) (enters : Enters s t p) :
    (∃ c, s.At c p .user) ∧ ((∃ esr, t = s.enter p (.sync esr)) ∨ t = s.enter p .irq ∨
      (∃ esr, t = s.enter p (.serror esr)) ∨ t = s.enter p .panicked) := by
  obtain ⟨user, left⟩ := enters
  obtain ⟨c, step⟩ := step
  have body : s.sched.code (.thread p) = .body := by
    have fits := ok.fits p
    rwa [user] at fits
  have own : ∀ {q mode mode'}, s.At c q mode → (s.enter q mode').mode p ≠ .user →
      q = p ∧ mode = .user := by
    intro q mode mode' at_ left
    by_cases same : p = q
    · subst same
      exact ⟨rfl, at_.mode.symm.trans user⟩
    · exact (left (by simpa [TrapState.enter, same] using user)).elim
  cases step with
  | proc stepped lets => exact (left user).elim
  | exit at_ known mortal => exact (left user).elim
  | @forkret q on at_ mode starts =>
      by_cases same : p = q
      · rw [← same, body] at at_
        cases at_
      · exact (left (by simpa [TrapState.enter, same] using user)).elim
  | el0Sync esr at_ =>
      obtain ⟨rfl, -⟩ := own at_ left
      exact ⟨⟨c, at_⟩, Or.inl ⟨esr, rfl⟩⟩
  | el0Irq at_ =>
      obtain ⟨rfl, -⟩ := own at_ left
      exact ⟨⟨c, at_⟩, Or.inr (Or.inl rfl)⟩
  | el0Error esr at_ =>
      obtain ⟨rfl, -⟩ := own at_ left
      exact ⟨⟨c, at_⟩, Or.inr (Or.inr (Or.inl ⟨esr, rfl⟩))⟩
  | el0Fiq at_ =>
      obtain ⟨rfl, -⟩ := own at_ left
      exact ⟨⟨c, at_⟩, Or.inr (Or.inr (Or.inr rfl))⟩
  | usertrapret at_ => cases (own at_ left).2
  | svc at_ => cases (own at_ left).2
  | fault at_ => cases (own at_ left).2
  | sysret at_ => cases (own at_ left).2
  | killed at_ => cases (own at_ left).2
  | initExit at_ =>
      rcases at_ with at_ | at_
      · cases (own at_ left).2
      · cases (own at_ left).2
  | irqReturn at_ => cases (own at_ left).2
  | serrorReturn at_ => cases (own at_ left).2
  | serrorPanic at_ => cases (own at_ left).2

omit [DecidableEq P] in
/-- A thread outside `proc.c` is there in any mode it is given. -/
theorem TrapState.At.enter [DecidableEq P] {c : Fin ncpus} {mode : Mode} (at_ : s.At c p mode)
    (mode' : Mode) : (s.enter p mode').At c p mode' :=
  ⟨at_.on, at_.body, by simp [TrapState.enter]⟩

end Runs

end Trap

end Av6
