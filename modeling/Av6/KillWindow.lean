import Av6.KillModel

/-!
# When a killed process can sleep

Between the check of the flag and `sleep` a process has no lock that `kill` needs.  A `kill` in
that window marks a process that then goes to sleep, and nothing wakes it; this is the only
way.  Once `sleep` has `p->lock`, `kill` has to wait until the process is asleep.
-/

namespace Av6

namespace Kill

open ConsoleInput Fmt Proc

variable {ncpus nslots consR : Nat} {P : Type*}

/-- In `wait`, the flag was found clear and the process is about to sleep. -/
def settles : Code P → Bool
  | .waitSleep _ => true
  | .sleepLocked _ (.waitEnter _) | .sleepReleased _ (.waitEnter _) => true
  | _ => false

/-- In `wait`, the process has found its flag clear and has not been woken since. -/
def WaitArmed (s : SchedState ncpus P) (p : P) : Prop :=
  settles (s.code (.thread p)) = true ∨
    ((∃ x, s.code (.thread p) = .slept (.waitEnter x)) ∧ (s.proc p).state = .sleeping)

/-- The same for `console_read`. -/
def ReadPc.Armed : ReadPc → Code P → ProcState → Prop
  | .checked false _ _, _, _ | .sleepLocked _ _, _, _ => True
  | .asleep _ _, k, state => (∃ chan, k = .sleepReleased chan .body) ∨ state = .sleeping
  | _, _, _ => False

/-- Where `proc.c` stands for a thread at a position of `console_read`. -/
def ReadPc.Fits (consR : Nat) : ReadPc → Code P → Prop
  | .outside, _ => True
  | .enter _, k => k.atBody = true
  | .asleep _ _, k => k.atBody = true ∨ (∃ chan, k = .sleepReleased chan .body) ∨ k = .slept .body
  | .sleepLocked _ _, k => k = .sleepReleased (.other consR) .body
  | _, k => k = .body

/-- What holds of a thread at the position `pc` of `console_read`. -/
structure ReaderOk (consR : Nat) (s : SchedState ncpus P) (pc : ReadPc) (p : P) : Prop where
  fits : pc.Fits consR (s.code (.thread p))
  alive : pc ≠ .outside → Alive (s.proc p).state
  clear : pc.Armed (s.code (.thread p)) (s.proc p).state → (s.proc p).killed = false

structure KillOk (consR : Nat) (s : KillState ncpus P) : Prop where
  sched : SchedOk s.sched
  wait : ∀ p, WaitArmed s.sched p → (s.sched.proc p).killed = false
  reader : ∀ p, ReaderOk consR s.sched (s.reader p) p

section Code

variable {s : SchedState ncpus P} {q : P} {k k' : Code P}

theorem settles_eq_true : settles k = true ↔ (∃ x, k = .waitSleep x) ∨
    (∃ chan x, k = .sleepLocked chan (.waitEnter x)) ∨
      ∃ chan x, k = .sleepReleased chan (.waitEnter x) := by
  fun_cases settles k <;> simp_all

theorem settles_of_interruptible (open_ : k.interruptible = true) : settles k = false := by
  cases k <;> first | rfl | cases open_

/-- The only way into `sleep` from `wait` is past the check. -/
theorem settles_follows (next : Follows s q k k') (nested : k.Nested)
    (after : settles k' = true) : settles k = true ∨ (s.proc q).killed = false := by
  cases next with
  | acquires next =>
      cases next with
      | waitSleep => exact Or.inl rfl
      | _ => cases after
  | releases next =>
      cases next with
      | yielded =>
          rw [settles_of_interruptible nested] at after
          cases after
      | wakeScan =>
          rcases nested with open_ | ⟨st, rfl⟩ | ⟨st, rfl⟩
          · rw [settles_of_interruptible open_] at after
            cases after
          · cases after
          · cases after
      | activateDone =>
          rcases nested with rfl | ⟨pid, rfl⟩ <;> cases after
      | sleepLocked =>
          rcases nested with rfl | ⟨x, rfl⟩
          · cases after
          · exact Or.inl rfl
      | waitKilled mine =>
          cases mine
          cases marked : (s.proc q).killed with
          | false => exact Or.inr rfl
          | true =>
              rw [marked] at after
              cases after
      | _ => cases after
  | jumps next => cases next <;> cases after
  | returns next => cases after
  | acts next => cases next <;> cases after

end Code

section Sched

variable {s : SchedState ncpus P} {c : Fin ncpus} {p q : P}

/-- While `kill` has `q->lock`, no other thread on a CPU has it. -/
theorem kill_excludes (ok : SchedOk s) (on : s.cpu c = .running p)
    (at_ : s.code (.thread p) = .killLocked q)
    (locked : .proc q ∈ (s.code (.thread q)).held (some q))
    (active : (s.code (.thread q)).suspended = false) : p = q := by
  have mine : s.locks (.proc q) = some c :=
    (ok.control.locks c _).mpr (by simp [SchedState.heldBy, on, at_, Code.held])
  rcases ok.control.resting q with ⟨d, there⟩ | suspended | dead
  · have theirs : s.locks (.proc q) = some d :=
      (ok.control.locks d _).mpr (by simpa [SchedState.heldBy, there] using locked)
    rw [mine] at theirs
    cases theirs
    rw [on] at there
    cases there
    rfl
  · rw [active] at suspended
    cases suspended
  · rw [dead] at locked
    cases locked

/-- A process that is on its way to sleep is not marked. -/
theorem not_marked (ok : SchedOk s) {chan : Chan P} {k : Code P} (on : s.cpu c = .running p)
    (at_ : s.code (.thread p) = .killLocked q) :
    s.code (.thread q) ≠ .sleepLocked chan k ∧ s.code (.thread q) ≠ .sleepReleased chan k := by
  constructor <;>
  · intro dozing
    have same := kill_excludes ok on at_ (by simp [dozing, Code.held]) (by rw [dozing]; rfl)
    rw [same, dozing] at at_
    cases at_

end Sched

section Proc

variable {s : KillState ncpus P} {t : SchedState ncpus P} {c : Fin ncpus}
  {p : P}

/-- Whoever is armed without sleeping has not given its CPU away yet. -/
theorem WaitArmed.settles (armed : WaitArmed t p) (awake : (t.proc p).state ≠ .sleeping) :
    Kill.settles (t.code (.thread p)) = true := by
  rcases armed with settled | ⟨-, asleep⟩
  · exact settled
  · exact (awake asleep).elim

/-- `wait` on its own: only a `kill` in the window can mark a process that goes to sleep. -/
theorem waitArmed_effect (ok : SchedOk s.sched) (effect : Effect s.sched t c p)
    (clear : WaitArmed s.sched p → (s.sched.proc p).killed = false)
    (careful : Marks s c p → ¬ InWindow s p) (armed : WaitArmed t p) :
    (t.proc p).killed = false := by
  cases effect with
  | none code data =>
      rw [data.killed]
      apply clear
      unfold WaitArmed at armed ⊢
      rwa [code, data.state] at armed
  | follows on code data =>
      rw [data.killed]
      have awake : (t.proc p).state ≠ .sleeping := by
        rw [data.state, ok.token.running c p on]
        split <;> rintro ⟨⟩
      rcases settles_follows code (ok.control.nested _) (armed.settles awake) with before | clear'
      · exact clear (Or.inl before)
      · exact clear'
  | switches on off code =>
      rcases code.elim with ⟨k, -, after, data⟩ | ⟨chan, k, before, after, data⟩ | ⟨-, after, -⟩
      · have settled := armed.settles (by rw [data]; rintro ⟨⟩)
        rw [after] at settled
        cases settled
      · -- The position of `sleep` in `wait` was armed before.
        rcases armed with settled | ⟨⟨x, slept⟩, -⟩
        · rw [after] at settled
          cases settled
        · rw [after] at slept
          cases slept
          rw [data]
          exact clear (Or.inl (by rw [before]; rfl))
      · rcases armed with settled | ⟨⟨x, slept⟩, -⟩
        · rw [after] at settled
          cases settled
        · rw [after] at slept
          cases slept
  | awakes on code data =>
      have nested := ok.control.nested (.thread p)
      rw [code] at nested
      have running := ok.running_state on (by rw [code]; rfl)
      have settled := armed.settles (by rw [data.state, running]; rintro ⟨⟩)
      rcases nested with back | ⟨x, back⟩ <;> rw [back] at settled <;> cases settled
  | zombie on code code' data =>
      have settled := armed.settles (by rw [data.state]; rintro ⟨⟩)
      rw [code'] at settled
      cases settled
  | dispatched on on' code ready data =>
      have settled := armed.settles (by rw [data.state]; rintro ⟨⟩)
      rw [data.killed]
      rw [code] at settled
      exact clear (Or.inl settled)
  | roused on at_ code asleep onChan data =>
      have settled := armed.settles (by rw [data.state]; rintro ⟨⟩)
      rw [data.killed]
      rw [code] at settled
      exact clear (Or.inl settled)
  | marked on at_ code data =>
      have settled := armed.settles (by rw [data.state]; dsimp only; split <;> simp_all)
      rcases code with code | ⟨-, code⟩
      · rw [code] at settled
        have window := careful ⟨_, on, at_⟩
        rcases settles_eq_true.mp settled with ⟨x, at'⟩ | ⟨chan, x, at'⟩ | ⟨chan, x, at'⟩
        · exact (window (Or.inl ⟨x, at'⟩)).elim
        · exact ((not_marked ok on at_).1 at').elim
        · exact ((not_marked ok on at_).2 at').elim
      · rw [code] at settled
        cases settled
  | allocated free code state killed => exact killed
  | activated code private_ data =>
      have settled := armed.settles (by rw [data.state]; rintro ⟨⟩)
      rw [data.killed]
      rw [code] at settled
      exact clear (Or.inl settled)

theorem ReaderOk.outside (t : SchedState ncpus P) (p : P) : ReaderOk consR t .outside p where
  fits := trivial
  alive inside := (inside rfl).elim
  clear armed := armed.elim

/-- The position and the state are as before, but that the process may have been woken. -/
theorem ReaderOk.frame {u : SchedState ncpus P} {pc : ReadPc} (ok : ReaderOk consR u pc p)
    (code : t.code (.thread p) = u.code (.thread p))
    (alive : pc ≠ .outside → Alive (t.proc p).state)
    (asleep : (t.proc p).state = .sleeping → (u.proc p).state = .sleeping)
    (killed : (t.proc p).killed = (u.proc p).killed) : ReaderOk consR t pc p where
  fits := by
    rw [code]
    exact ok.fits
  alive := alive
  clear := by
    intro armed
    rw [killed]
    apply ok.clear
    cases pc with
    | asleep =>
        rw [code] at armed
        exact armed.imp_right asleep
    | checked marked =>
        cases marked with
        | false => trivial
        | true => exact armed.elim
    | sleepLocked => trivial
    | _ => exact armed.elim

/-- Only without `cons_lock` does a thread take steps of `proc.c` inside `console_read`. -/
theorem ReadPc.Lets.elim {pc : ReadPc} {k k' : Code P} (lets : pc.Lets k k')
    (inside : pc ≠ .outside) : (k = .body → Interrupts k k') ∧
      ((∃ target, pc = .enter target) ∨ ∃ target out, pc = .asleep target out) := by
  cases pc with
  | outside => exact (inside rfl).elim
  | enter target => exact ⟨lets, Or.inl ⟨target, rfl⟩⟩
  | asleep target out => exact ⟨lets, Or.inr ⟨target, out, rfl⟩⟩
  | _ => exact False.elim lets

/-- Inside `console_read` a thread is at none of the positions of `exit` and `kill`. -/
theorem ReadPc.Fits.elim {pc : ReadPc} {k : Code P} (fits : pc.Fits consR k)
    (inside : pc ≠ .outside) :
    k.atBody = true ∨ (∃ chan, k = .sleepReleased chan .body) ∨ k = .slept .body := by
  cases pc with
  | outside => exact (inside rfl).elim
  | enter target => exact Or.inl fits
  | asleep target out => exact fits
  | sleepLocked target out => exact Or.inr (Or.inl ⟨_, fits⟩)
  | _ => exact Or.inl (by rw [show k = .body from fits]; rfl)

/-- `console_read` across a step of `proc.c`. -/
theorem readerOk_effect (ok : SchedOk s.sched) (effect : Effect s.sched t c p)
    (here : ReaderOk consR s.sched (s.reader p) p)
    (lets : s.sched.cpu c = .running p →
      (s.reader p).Lets (s.sched.code (.thread p)) (t.code (.thread p)))
    (careful : Marks s c p → ¬ InWindow s p) : ReaderOk consR t (s.reader p) p := by
  by_cases out : s.reader p = .outside
  · rw [out]
    exact .outside t p
  have live := here.alive out
  cases effect with
  | none code data =>
      refine here.frame code ?_ ?_ data.killed <;> rw [data.state]
      · exact fun _ => live
      · exact id
  | follows on code data =>
      obtain ⟨lets, at_⟩ := (lets on).elim out
      have awake : (t.proc p).state ≠ .sleeping := by
        rw [data.state, ok.token.running c p on]
        split <;> rintro ⟨⟩
      have body : (t.code (.thread p)).atBody = true := by
        apply code.atBody lets
        rcases here.fits.elim out with body | ⟨chan, dozing⟩ | slept
        · exact body
        · exact ((Follows.not_asleep code chan).1 dozing).elim
        · exact ((Follows.not_asleep code (.other 0)).2 slept).elim
      rw [← data.state] at live
      rcases at_ with ⟨target, at_⟩ | ⟨target, bytes, at_⟩ <;> rw [at_]
      · exact ⟨body, fun _ => live, False.elim⟩
      · refine ⟨Or.inl body, fun _ => live, ?_⟩
        rintro (⟨chan, dozing⟩ | asleep)
        · rw [dozing] at body
          cases body
        · exact (awake asleep).elim
  | switches on off code =>
      obtain ⟨-, at_⟩ := (lets on).elim out
      have fits := here.fits
      have clear := here.clear
      rcases code.elim with ⟨k, before, after, data⟩ | ⟨chan, k, before, after, data⟩ |
        ⟨before, -, -⟩
      · rcases at_ with ⟨target, at_⟩ | ⟨target, bytes, at_⟩ <;> rw [at_, before] at fits <;>
          rw [at_]
        · exact ⟨by rw [after]; exact fits, fun _ => Or.inr (Or.inl (by rw [data])), False.elim⟩
        · refine ⟨?_, fun _ => Or.inr (Or.inl (by rw [data])), ?_⟩
          · rcases fits with body | ⟨chan, same⟩ | same
            · exact Or.inl (by rw [after]; exact body)
            · cases same
            · cases same
          · rw [after, data]
            rintro (⟨chan, same⟩ | same) <;> cases same
      · rcases at_ with ⟨target, at_⟩ | ⟨target, bytes, at_⟩ <;> rw [at_, before] at fits
        · cases fits
        · rcases fits with body | ⟨chan, same⟩ | same
          · cases body
          · cases same
            rw [at_]
            refine ⟨?_, fun _ => Or.inr (Or.inr (by rw [data])), fun _ => ?_⟩
            · exact Or.inr (Or.inr after)
            · rw [data]
              apply clear
              rw [at_]
              exact Or.inl ⟨_, before⟩
          · cases same
      · rcases fits.elim out with body | ⟨chan, same⟩ | same <;>
          simp_all [Code.atBody]
  | awakes on code data =>
      obtain ⟨-, at_⟩ := (lets on).elim out
      have running := ok.running_state on (by rw [code]; rfl)
      have state := data.state.trans running
      rcases here.fits.elim out with body | ⟨chan, same⟩ | same
      · rw [code] at body
        cases body
      · rw [code] at same
        cases same
      · rw [code] at same
        injection same with back
        rcases at_ with ⟨target, at_⟩ | ⟨target, bytes, at_⟩ <;> rw [at_]
        · exact ⟨by rw [back]; rfl, fun _ => Or.inl state, False.elim⟩
        · refine ⟨Or.inl (by rw [back]; rfl), fun _ => Or.inl state, ?_⟩
          rw [back, state]
          rintro (⟨chan, same⟩ | same) <;> cases same
  | zombie on code code' data =>
      rcases here.fits.elim out with body | ⟨chan, same⟩ | same <;>
        simp_all [Code.atBody]
  | dispatched on on' code ready data =>
      refine here.frame code ?_ ?_ data.killed <;> rw [data.state]
      · exact fun _ => Or.inl rfl
      · rintro ⟨⟩
  | roused on at_ code asleep onChan data =>
      refine here.frame code ?_ ?_ data.killed <;> rw [data.state]
      · exact fun _ => Or.inr (Or.inl rfl)
      · rintro ⟨⟩
  | marked on at_ code data =>
      have same : t.code (.thread p) = s.sched.code (.thread p) := by
        rcases code with code | ⟨rfl, -⟩
        · exact code
        · rcases here.fits.elim out with body | ⟨chan, same⟩ | same <;>
            simp_all [Code.atBody]
      have state := data.state
      dsimp only at state
      refine ⟨by rw [same]; exact here.fits, fun _ => ?_, fun armed => ?_⟩
      · rw [state]
        split
        · exact Or.inr (Or.inl rfl)
        · exact live
      · -- The process would be in the window, or hold the lock that `kill` has.
        rw [same] at armed
        have fits := here.fits
        exfalso
        cases pc : s.reader p with
        | checked marked target bytes =>
            rw [pc] at armed
            cases marked with
            | false => exact careful ⟨_, on, at_⟩ (Or.inr ⟨target, bytes, pc⟩)
            | true => exact armed
        | sleepLocked target bytes =>
            rw [pc] at fits
            exact (not_marked ok on at_).2 fits
        | asleep target bytes =>
            rw [pc] at armed
            rcases armed with ⟨chan, dozing⟩ | asleep
            · exact (not_marked ok on at_).2 dozing
            · rw [state] at asleep
              split at asleep <;> simp_all
        | _ =>
            rw [pc] at armed
            exact armed
  | allocated free code state killed =>
      rw [live.allocated ok] at free
      cases free
  | activated code private_ data =>
      rw [private_] at live
      rcases live with same | same | same <;> cases same

end Proc

section Steps

variable [DecidableEq P] {s : KillState ncpus P} {c : Fin ncpus} {p : P}

/-- One thread moves inside `console_read`, outside `proc.c`. -/
theorem KillOk.goto (ok : KillOk consR s) {pc pc' : ReadPc} (at_ : s.At c p pc)
    {t : KillState ncpus P} (sched : t.sched = s.sched)
    (reader : t.reader = Function.update s.reader p pc')
    (fits : pc'.Fits consR (.body : Code P))
    (clear : pc'.Armed (.body : Code P) .running → (s.sched.proc p).killed = false) :
    KillOk consR t := by
  have running := ok.sched.running_state at_.on (by rw [at_.body]; rfl)
  refine ⟨by rw [sched]; exact ok.sched, by rw [sched]; exact ok.wait, ?_⟩
  intro q
  rw [sched, reader]
  by_cases same : q = p
  · subst same
    rw [Function.update_self]
    refine ⟨by rw [at_.body]; exact fits, fun _ => Or.inl running, ?_⟩
    rw [at_.body, running]
    exact clear
  · rw [Function.update_of_ne same]
    exact ok.reader q

theorem readByte_leaves (cons : Cons) (target : Nat) (out : List Byte) (byte : Byte) :
    (∃ result, (readByte cons target out byte).2 = .leave result) ∨
      ∃ more, (readByte cons target out byte).2 = .loop target more := by
  unfold readByte
  split
  · split <;> exact Or.inl ⟨_, rfl⟩
  · split
    · exact Or.inl ⟨_, rfl⟩
    · exact Or.inr ⟨_, rfl⟩

/-- `sleep` of `console_read` is a step of `proc.c`. -/
theorem KillState.At.sleeps {pc : ReadPc} (at_ : s.At c p pc) (nslots consR : Nat) (ok : SchedOk s.sched)
    (free : s.sched.locks (.proc p) = none) :
    SchedStep nslots s.sched c ((s.sched.setLock (.proc p) (some c)).goto (.thread p)
      (.sleepReleased (.other consR) .body)) := by
  have context : s.sched.context c = some (.thread p) := by simp [SchedState.context, at_.on]
  refine .acquire context at_.body ?_ free
  rw [ok.control.self_of_context context]
  exact .sleep consR rfl

theorem KillOk.step {t : KillState ncpus P} (ok : KillOk consR s)
    (step : KillStep nslots consR s c t) (careful : ∀ q, Marks s c q → ¬ InWindow s q)
    (sched : SchedOk t.sched) : KillOk consR t := by
  cases step with
  | @proc u stepped lets =>
      have effect := stepped.effect ok.sched
      refine ⟨sched, ?_, ?_⟩
      · intro q
        exact waitArmed_effect ok.sched (effect q) (ok.wait q) (careful q)
      · intro q
        exact readerOk_effect (s := s) ok.sched (effect q) (ok.reader q) (lets q) (careful q)
  | receive byte free => exact ⟨ok.sched, ok.wait, ok.reader⟩
  | call target at_ => exact ok.goto at_ rfl rfl rfl False.elim
  | lock at_ free => exact ok.goto at_ rfl rfl rfl False.elim
  | done at_ enough => exact ok.goto at_ rfl rfl rfl False.elim
  | empty at_ more nothing => exact ok.goto at_ rfl rfl rfl False.elim
  | @read p target out at_ more some_ =>
      rcases readByte_leaves s.cons target out (s.cons.buf (slot s.cons.r)) with
        ⟨result, leaves⟩ | ⟨bytes, loops⟩
      · refine ok.goto at_ rfl rfl ?_ ?_ <;> rw [leaves]
        · rfl
        · exact False.elim
      · refine ok.goto at_ rfl rfl ?_ ?_ <;> rw [loops]
        · rfl
        · exact False.elim
  | @killed p target out at_ free =>
      refine ok.goto at_ rfl rfl rfl ?_
      cases (s.sched.proc p).killed with
      | false => exact fun _ => rfl
      | true => exact False.elim
  | giveUp at_ => exact ok.goto at_ rfl rfl rfl False.elim
  | @sleep p target out at_ free =>
      have effect := (at_.sleeps nslots consR ok.sched free).effect ok.sched
      refine ⟨sched, ?_, ?_⟩
      · intro q
        exact waitArmed_effect ok.sched (effect q) (ok.wait q) (careful q)
      · intro q
        by_cases same : q = p
        · subst same
          have unmarked := (ok.reader q).clear (by rw [at_.reader]; trivial)
          have running := ok.sched.running_state at_.on (by rw [at_.body]; rfl)
          simp only [KillState.goto, Function.update_self]
          exact ⟨by simp [ReadPc.Fits, SchedState.goto], fun _ => Or.inl running,
            fun _ => unmarked⟩
        · simp only [KillState.goto, Function.update_of_ne same]
          refine readerOk_effect (s := s) ok.sched (effect q) (ok.reader q) ?_ (careful q)
          intro on
          rw [at_.on] at on
          cases on
          exact (same rfl).elim
  | @sleepUnlock p target out on at_ =>
      refine ⟨sched, ok.wait, ?_⟩
      intro q
      by_cases same : q = p
      · subst same
        have here := ok.reader q
        rw [at_] at here
        simp only [KillState.goto, Function.update_self]
        exact ⟨Or.inr (Or.inl ⟨_, here.fits⟩), fun _ => here.alive (by simp),
          fun _ => here.clear trivial⟩
      · simp only [KillState.goto, Function.update_of_ne same]
        exact ok.reader q
  | @relock p target out at_ free => exact ok.goto at_ rfl rfl rfl False.elim
  | unlock at_ => exact ok.goto at_ rfl rfl trivial False.elim

end Steps

variable [DecidableEq P]

/-- The processes of a run of the whole system run as `proc.c` says. -/
theorem KillStep.sched {s t : KillState ncpus P} {c : Fin ncpus}
    (step : KillStep nslots consR s c t) (ok : SchedOk s.sched) :
    t.sched = s.sched ∨ SchedStep nslots s.sched c t.sched := by
  cases step with
  | proc stepped lets => exact Or.inr stepped
  | sleep at_ free => exact Or.inr (at_.sleeps _ _ ok free)
  | _ => exact Or.inl rfl

theorem KillReachable.sched {s : KillState ncpus P} (reached : KillReachable nslots consR s) :
    SchedReachable nslots s.sched := by
  refine TransitionSystem.Reachable.invariant (I := fun s => SchedReachable nslots s.sched)
    ?_ ?_ reached
  · rintro s ⟨buf, rfl⟩
    exact .start rfl
  · rintro s t - before ⟨c, step⟩
    rcases step.sched (schedOk_of_reachable before) with same | stepped
    · rwa [same]
    · exact before.next ⟨c, stepped⟩

theorem CarefulReachable.reachable {s : KillState ncpus P}
    (reached : CarefulReachable nslots consR s) : KillReachable nslots consR s := by
  refine TransitionSystem.Reachable.invariant (I := KillReachable nslots consR) ?_ ?_ reached
  · exact fun s begins => .start begins
  · rintro s t - before ⟨c, step, -⟩
    exact before.next ⟨c, step⟩

theorem killOk_of_careful {s : KillState ncpus P} (reached : CarefulReachable nslots consR s) :
    KillOk consR s := by
  refine TransitionSystem.Reachable.invariant (I := KillOk consR) ?_ ?_ reached
  · rintro s ⟨buf, rfl⟩
    refine ⟨procInit_ok, ?_, fun p => .outside _ p⟩
    rintro p (settled | ⟨⟨x, slept⟩, -⟩)
    · cases settled
    · cases slept
  · rintro s t before ok ⟨c, step, careful⟩
    have after : CarefulReachable nslots consR t := before.next ⟨c, step, careful⟩
    exact ok.step step careful (schedOk_of_reachable after.reachable.sched)

/-- As long as no process is killed in the window, nobody that is killed sleeps in `wait` or
`console_read`. -/
theorem kill_not_lost {s : KillState ncpus P} (reached : CarefulReachable nslots consR s) (p : P)
    (blocked : Blocked s p) : (s.sched.proc p).killed = false := by
  have ok := killOk_of_careful reached
  obtain ⟨asleep, ⟨x, slept⟩ | ⟨target, out, reading⟩⟩ := blocked
  · exact ok.wait p (Or.inr ⟨⟨x, slept⟩, asleep⟩)
  · apply (ok.reader p).clear
    rw [reading]
    exact Or.inr asleep

/-- Nobody is about to mark anybody. -/
theorem CarefulReachable.next {s t : KillState ncpus P} (reached : CarefulReachable nslots consR s)
    (c : Fin ncpus) (step : KillStep nslots consR s c t)
    (quiet : ∀ p q, s.sched.code (.thread p) ≠ .killLocked q) : CarefulReachable nslots consR t :=
  TransitionSystem.Reachable.next reached
    ⟨c, step, fun q ⟨p, _, at_⟩ => (quiet p q at_).elim⟩

/-- `init` waits for a line. -/
theorem kill_not_lost_reading : ∃ s : KillState 1 Unit, CarefulReachable 8 0 s ∧
    Blocked s () ∧ (s.sched.proc ()).killed = false := by
  have quiet : ∀ {s : KillState 1 Unit}, (∀ q, s.sched.code (.thread ()) ≠ .killLocked q) →
      ∀ p q, s.sched.code (.thread p) ≠ .killLocked q := fun at_ _ q => at_ q
  have boot : CarefulReachable 8 0 (killInit (fun _ => 0) : KillState 1 Unit) :=
    .start ⟨_, rfl⟩
  have built := boot.next 0 (.proc (@SchedStep.allocproc 1 Unit _ 8 _ 0 (.sched 0) () 1
    rfl rfl (Or.inl rfl) rfl rfl) (by rintro p ⟨⟩)) (quiet (by rintro q ⟨⟩))
  have named := built.next 0 (.proc (.userinit rfl rfl rfl) (by rintro p ⟨⟩))
    (quiet (by rintro q ⟨⟩))
  have listing := named.next 0 (.proc (.acquire rfl rfl .activate rfl) (by rintro p ⟨⟩))
    (quiet (by rintro q ⟨⟩))
  have locked := listing.next 0 (.proc (.acquire rfl rfl .activatePtable rfl) (by rintro p ⟨⟩))
    (quiet (by rintro q ⟨⟩))
  have published := locked.next 0 (.proc (.procActivate rfl rfl) (by rintro p ⟨⟩))
    (quiet (by rintro q ⟨⟩))
  have unlocked := published.next 0 (.proc (.release rfl rfl .activated) (by rintro p ⟨⟩))
    (quiet (by rintro q ⟨⟩))
  have listed := unlocked.next 0 (.proc (.release rfl rfl .activateDone) (by rintro p ⟨⟩))
    (quiet (by rintro q ⟨⟩))
  have looping := listed.next 0 (.proc (.enterScheduler rfl rfl) (by rintro p ⟨⟩))
    (quiet (by rintro q ⟨⟩))
  have dequeued := looping.next 0 (.proc (.dequeue rfl rfl rfl) (by rintro p ⟨⟩))
    (quiet (by rintro q ⟨⟩))
  have dispatching := dequeued.next 0 (.proc (.lockProc rfl rfl rfl) (by rintro p ⟨⟩))
    (quiet (by rintro q ⟨⟩))
  have running := dispatching.next 0 (.proc (.dispatch rfl rfl) (by rintro p ⟨⟩))
    (quiet (by rintro q ⟨⟩))
  have user := running.next 0 (.proc (.release rfl rfl (.forkret rfl)) fun _ _ => trivial)
    (quiet (by rintro q ⟨⟩))
  have called := user.next 0 (.call 1 ⟨rfl, rfl, rfl⟩) (quiet (by rintro q ⟨⟩))
  have entered := called.next 0 (.lock ⟨rfl, rfl, rfl⟩ rfl) (quiet (by rintro q ⟨⟩))
  have empty := entered.next 0 (.empty ⟨rfl, rfl, rfl⟩ Nat.one_pos rfl) (quiet (by rintro q ⟨⟩))
  have checked := empty.next 0 (.killed ⟨rfl, rfl, rfl⟩ rfl) (quiet (by rintro q ⟨⟩))
  have dozing := checked.next 0 (.sleep ⟨rfl, rfl, rfl⟩ rfl) (quiet (by rintro q ⟨⟩))
  have released := dozing.next 0 (.sleepUnlock rfl rfl) (quiet (by rintro q ⟨⟩))
  have asleep := released.next 0 (.proc (.swtchSleep rfl rfl) (by rintro p - ⟨⟩))
    (quiet (by rintro q ⟨⟩))
  have blocked := asleep.next 0 (.proc (.requeue rfl) (by rintro p ⟨⟩)) (quiet (by rintro q ⟨⟩))
  refine ⟨_, blocked, ⟨rfl, Or.inr ⟨1, [], rfl⟩⟩, ?_⟩
  exact kill_not_lost blocked () ⟨rfl, Or.inr ⟨1, [], rfl⟩⟩

/-- A run of `proc.c` alone, with nobody in `console_read`. -/
theorem killReachable_of_sched {s : SchedState ncpus P} (reached : SchedReachable nslots s)
    (buf : Nat → Byte) : KillReachable nslots consR ⟨s, ⟨buf, 0, 0, 0⟩, none, fun _ => .outside⟩ := by
  refine TransitionSystem.Reachable.invariant (I := fun s : SchedState ncpus P =>
    KillReachable nslots consR ⟨s, ⟨buf, 0, 0, 0⟩, none, fun _ => .outside⟩) ?_ ?_ reached
  · rintro s rfl
    exact .start ⟨buf, rfl⟩
  · rintro s t - before ⟨c, step⟩
    exact before.next ⟨c, .proc step fun _ _ => trivial⟩

/-- `init` has forked a child, which kills it between the check and the sleep of `wait`. -/
theorem exists_lost_kill : ∃ s : KillState 2 Bool, KillReachable 8 0 s ∧
    Blocked s true ∧ (s.sched.proc true).killed = true := by
  have boot : SchedReachable 8 (procInit 2 Bool) := .start rfl
  have built : SchedReachable 8
      ((allocproc (procInit 2 Bool) true 1).goto (.sched 0) (.build true)) :=
    boot.next ⟨0, .allocproc rfl rfl (Or.inl rfl) rfl rfl⟩
  have named := built.next ⟨0, .userinit rfl rfl rfl⟩
  have listing := named.next ⟨0, .acquire rfl rfl .activate rfl⟩
  have locked := listing.next ⟨0, .acquire rfl rfl .activatePtable rfl⟩
  have published := locked.next ⟨0, .procActivate rfl rfl⟩
  have unlocked := published.next ⟨0, .release rfl rfl .activated⟩
  have listed := unlocked.next ⟨0, .release rfl rfl .activateDone⟩
  have looping := listed.next ⟨0, .enterScheduler rfl rfl⟩
  have dequeued := looping.next ⟨0, .dequeue rfl rfl rfl⟩
  have dispatching := dequeued.next ⟨0, .lockProc rfl rfl rfl⟩
  have running := dispatching.next ⟨0, .dispatch rfl rfl⟩
  have user := running.next ⟨0, .release rfl rfl (.forkret rfl)⟩
  have forking := user.next ⟨0, @SchedStep.allocproc 2 Bool _ 8 _ 0 (.thread true) false 2
    rfl rfl (Or.inr ⟨_, rfl⟩) rfl rfl⟩
  have copied := forking.next ⟨0, .jump rfl rfl (.forkBuilt rfl)⟩
  have related := copied.next ⟨0, .acquire rfl rfl (.forkPublish rfl) rfl⟩
  have childListing := related.next ⟨0, .acquire rfl rfl .activate rfl⟩
  have childLocked := childListing.next ⟨0, .acquire rfl rfl .activatePtable rfl⟩
  have childPublished := childLocked.next ⟨0, .procActivate rfl rfl⟩
  have childUnlocked := childPublished.next ⟨0, .release rfl rfl .activated⟩
  have childListed := childUnlocked.next ⟨0, .release rfl rfl .activateDone⟩
  have forked := childListed.next ⟨0, .finish rfl rfl .forkDone⟩
  -- The child runs on the other CPU.
  have childDequeued := forked.next ⟨1, .dequeue rfl rfl rfl⟩
  have childDispatching := childDequeued.next ⟨1, .lockProc rfl rfl rfl⟩
  have childRunning := childDispatching.next ⟨1, .dispatch rfl rfl⟩
  have childUser := childRunning.next ⟨1, .release rfl rfl (.forkret rfl)⟩
  -- `init` finds no zombie, and its flag clear.
  have waiting := childUser.next ⟨0, .jump rfl rfl (.callWait 0 rfl)⟩
  have waitLocked := waiting.next ⟨0, .acquire rfl rfl .waitEnter rfl⟩
  have scanning := waitLocked.next ⟨0, .acquire rfl rfl .waitLoop rfl⟩
  have found := scanning.next ⟨0, .acquire rfl rfl (.waitScan rfl rfl) rfl⟩
  have alive := found.next ⟨0, .release rfl rfl (.waitLocked (by rintro ⟨⟩))⟩
  have skipped := alive.next ⟨0, .jump rfl rfl (.waitSkip (by rintro ⟨⟩))⟩
  have scanned := skipped.next ⟨0, .release rfl rfl .waitScan⟩
  have decided := scanned.next ⟨0, .acquire rfl rfl (.waitDecide rfl) rfl⟩
  have notKilled := decided.next ⟨0, .release rfl rfl (.waitKilled rfl)⟩
  -- The child kills it.
  have killing := notKilled.next ⟨1, .jump rfl rfl (.callKill 1 rfl)⟩
  have finding := killing.next ⟨1, .acquire rfl rfl .killEnter rfl⟩
  have victim := finding.next ⟨1, .acquire rfl rfl (.killFind rfl) rfl⟩
  have marked := victim.next ⟨1, .kill rfl rfl⟩
  have dropped := marked.next ⟨1, .release rfl rfl .killMarked⟩
  -- `init` sleeps.
  have dozing := dropped.next ⟨0, .acquire rfl rfl (.waitSleep rfl) rfl⟩
  have committed := dozing.next ⟨0, .release rfl rfl .sleepLocked⟩
  have asleep := committed.next ⟨0, .swtchSleep rfl rfl⟩
  exact ⟨_, killReachable_of_sched asleep fun _ => 0, ⟨rfl, Or.inl ⟨0, rfl⟩⟩, rfl⟩

end Kill

end Av6
