import Av6.ProcSteps

/-!
# What a step does to one process

The thread of a process moves on only while a CPU runs it, and its data change in few ways:
it is dispatched or switched away, woken, killed, allocated or published.  Whoever describes
code that calls `kern/proc.c` can follow one process through these cases.
-/

namespace Av6

namespace Proc

variable {ncpus nslots : Nat} {P : Type*}

/-- The data are the same, but for the parent and the exit status. -/
structure Agree (a b : ProcData P) : Prop where
  state : a.state = b.state
  chan : a.chan = b.chan
  killed : a.killed = b.killed
  birth : a.birth = b.birth

theorem Agree.refl (a : ProcData P) : Agree a a := ⟨rfl, rfl, rfl, rfl⟩

/-- The positions before and after a step that is no lock operation, call or return. -/
inductive Acts : Code P → Code P → Prop
  | wake {chan q todo k} : Acts (.wakeLocked chan q todo k) (.wakeDone chan q todo k)
  | kill {q} : Acts (.killLocked q) (.killMarked q)
  | reparent {st} : Acts (.exitScan st) (.exitReparented st)
  | unlink {x np todo result} : Acts (.waitLocked x np todo) (.waitUnlinked np result)
  | freeproc {np result} : Acts (.waitFree np result) (.waitFreed result)
  | waitReturn {result} : Acts (.waitFreed result) .body
  | allocproc {np} : Acts .body (.build np)
  | abandon {np} : Acts (.build np) .body
  | procActivate {np parent k} : Acts (.activateLocked np parent k) (.activated np k)

/-- The thread of `q` moves from `k` to `k'` while it keeps its CPU. -/
inductive Follows (s : SchedState ncpus P) (q : P) : Code P → Code P → Prop
  | acquires {k l k'} (next : Acquires s (some q) k l k') (free : s.locks l = none) :
      Follows s q k k'
  | releases {k l k'} (next : Releases s (some q) k l k') : Follows s q k k'
  | jumps {k k'} (next : Jumps s (some q) k k') : Follows s q k k'
  | returns {k l value} (next : Returns k l value) : Follows s q k .body
  | acts {k k'} (next : Acts k k') : Follows s q k k'

/-- The thread gives its CPU away: the positions, and the data afterwards. -/
inductive Switches : Code P → Code P → ProcData P → ProcData P → Prop
  | yield {k proc} :
      Switches (.yieldLocked k) (.yielded k) proc { proc with state := .runnable }
  | sleep {chan k proc} :
      Switches (.sleepReleased chan k) (.slept k) proc
        { proc with chan := some chan, state := .sleeping }
  | exit {proc} : Switches .exitSched .dead proc proc

theorem Switches.elim {k k' : Code P} {proc proc' : ProcData P} (next : Switches k k' proc proc') :
    (∃ k₀, k = .yieldLocked k₀ ∧ k' = .yielded k₀ ∧ proc' = { proc with state := .runnable }) ∨
      (∃ chan k₀, k = .sleepReleased chan k₀ ∧ k' = .slept k₀ ∧
        proc' = { proc with chan := some chan, state := .sleeping }) ∨
      (k = .exitSched ∧ k' = .dead ∧ proc' = proc) := by
  cases next with
  | yield => exact Or.inl ⟨_, rfl, rfl, rfl⟩
  | sleep => exact Or.inr (Or.inl ⟨_, _, rfl, rfl, rfl⟩)
  | exit => exact Or.inr (Or.inr ⟨rfl, rfl, rfl⟩)

/-- What a step of `c` from `s` to `t` does to the process `q`. -/
inductive Effect (s t : SchedState ncpus P) (c : Fin ncpus) (q : P) : Prop
  | none (code : t.code (.thread q) = s.code (.thread q)) (data : Agree (t.proc q) (s.proc q))
  | follows (on : s.cpu c = .running q)
      (code : Follows s q (s.code (.thread q)) (t.code (.thread q)))
      (data : Agree (t.proc q) (s.proc q))
  | switches (on : s.cpu c = .running q) (off : t.cpu c = .switchedBack q)
      (code : Switches (s.code (.thread q)) (t.code (.thread q)) (s.proc q) (t.proc q))
  | awakes (on : s.cpu c = .running q) (code : s.code (.thread q) = .slept (t.code (.thread q)))
      (data : Agree (t.proc q) { s.proc q with chan := Option.none })
  | zombie {st : Int} (on : s.cpu c = .running q) (code : s.code (.thread q) = .exitOwn st)
      (code' : t.code (.thread q) = .exitZombie)
      (data : Agree (t.proc q) { s.proc q with state := .zombie })
      (record : t.exits = ⟨(s.proc q).birth, (s.proc q).pid, st⟩ :: s.exits)
  | dispatched (on : s.cpu c = .dispatching q) (on' : t.cpu c = .running q)
      (code : t.code (.thread q) = s.code (.thread q))
      (ready : (s.proc q).state = .runnable)
      (data : Agree (t.proc q) { s.proc q with state := .running })
  | roused {x chan todo k} (on : s.context c = some x) (at_ : s.code x = .wakeLocked chan q todo k)
      (code : t.code (.thread q) = s.code (.thread q)) (asleep : (s.proc q).state = .sleeping)
      (onChan : (s.proc q).chan = some chan)
      (data : Agree (t.proc q) { s.proc q with state := .runnable })
  | marked {p : P} (on : s.cpu c = .running p) (at_ : s.code (.thread p) = .killLocked q)
      (code : t.code (.thread q) = s.code (.thread q) ∨
        p = q ∧ t.code (.thread q) = .killMarked q)
      (data : Agree (t.proc q)
        { s.proc q with
          killed := true
          state := if (s.proc q).state = .sleeping then .runnable else (s.proc q).state })
  | allocated (free : s.allocated q = false) (code : t.code (.thread q) = .forkret)
      (state : (t.proc q).state = .used) (killed : (t.proc q).killed = false)
      (birth : (t.proc q).birth = s.births)
  | activated (code : t.code (.thread q) = s.code (.thread q))
      (private_ : (s.proc q).state = .used)
      (data : Agree (t.proc q) { s.proc q with state := .runnable })

/-- Outside `proc.c`, or in what interrupts do there: `wakeup` and preemption. -/
def Code.atBody : Code P → Bool
  | body => true
  | yieldLocked k | yielded k => k.atBody
  | wakeEnter _ k | wakeScan _ _ k | wakeLocked _ _ _ k | wakeDone _ _ _ k => k.atBody
  | _ => false

/-- An interrupt calls `wakeup`, or preempts. -/
inductive Interrupts : Code P → Code P → Prop
  | wakeup {k} (addr : Nat) : Interrupts k (.wakeEnter (.other addr) k)
  | preempt {k} : Interrupts k (.yieldLocked k)

/-- What interrupts do ends where it began. -/
theorem Follows.atBody {s : SchedState ncpus P} {q : P} {k k' : Code P}
    (next : Follows s q k k') (lets : k = .body → Interrupts k k') (before : k.atBody = true) :
    k'.atBody = true := by
  cases next with
  | acquires next =>
      cases next with
      | sleep => cases lets rfl
      | yield | wakeEnter | wakeScan => exact before
      | _ => cases before
  | releases next =>
      cases next with
      | yielded | wakeDone | wakeScan => exact before
      | _ => cases before
  | jumps next =>
      cases next with
      | callExit | callWait | callKill => cases lets rfl
      | callWakeup | wakeSelf => exact before
      | _ => cases before
  | returns next => rfl
  | acts next =>
      cases next with
      | allocproc => cases lets rfl
      | wake => exact before
      | _ => cases before

/-- Nothing but `sched` leaves these two positions. -/
theorem Follows.not_asleep {s : SchedState ncpus P} {q : P} {k k' : Code P}
    (next : Follows s q k k') (chan : Chan P) : k ≠ .sleepReleased chan .body ∧ k ≠ .slept .body := by
  constructor <;>
  · rintro rfl
    cases next with
    | acquires next =>
        cases next with
        | yield _ open_ => cases open_
    | releases next => cases next
    | jumps next =>
        cases next with
        | callWakeup _ open_ => cases open_
    | returns next => cases next
    | acts next => cases next

/-- `forkret` ends with the release of `p->lock`. -/
theorem Follows.of_forkret {s : SchedState ncpus P} {q : P} {k' : Code P}
    (next : Follows s q .forkret k') : k' = .body := by
  cases next with
  | acquires next =>
      cases next with
      | yield _ open_ => cases open_
  | releases next =>
      cases next
      rfl
  | jumps next =>
      cases next with
      | callWakeup _ open_ => cases open_
  | returns next => rfl
  | acts next => cases next

/-- A zombie does not leave `exit`. -/
theorem Follows.not_atBody {s : SchedState ncpus P} {q : P} {k k' : Code P}
    (next : Follows s q k k') (zombied : k.zombied = true) : k'.atBody = false := by
  have closed : k.interruptible = false := by
    cases k <;> first | rfl | cases zombied
  cases next with
  | acquires next =>
      cases next with
      | yield mine open_ => simp [closed] at open_
      | _ => cases zombied
  | releases next =>
      cases next with
      | exitZombie => rfl
      | _ => cases zombied
  | jumps next =>
      cases next with
      | callWakeup addr open_ => simp [closed] at open_
      | _ => cases zombied
  | returns next => cases next <;> cases zombied
  | acts next => cases next <;> cases zombied

section Steps

variable {s t : SchedState ncpus P} {c : Fin ncpus} {x : Context ncpus P} {q : P}

/-- The thread of `x` moves on, and the data of all processes stay. -/
theorem Effect.move [DecidableEq P] {k' : Code P} (on : s.context c = some x)
    (code : t.code = Function.update s.code x k') (data : Agree (t.proc q) (s.proc q))
    (next : x = .thread q → Follows s q (s.code (.thread q)) k') : Effect s t c q := by
  by_cases own : x = .thread q
  · subst own
    have running : s.cpu c = .running q := by
      rcases s.context_eq_some on with ⟨p, running, same⟩ | ⟨-, same⟩
      · cases same
        exact running
      · cases same
    refine .follows running ?_ data
    rw [code, Function.update_self]
    exact next rfl
  · refine .none ?_ data
    rw [code, Function.update_of_ne (Ne.symm own)]

theorem SchedOk.not_own_of_sleeping (ok : SchedOk s) (on : s.context c = some x)
    (asleep : (s.proc q).state = .sleeping) : x ≠ .thread q := by
  rintro rfl
  rcases s.context_eq_some on with ⟨p, running, same⟩ | ⟨-, same⟩
  · cases same
    rw [ok.token.running c q running] at asleep
    split at asleep <;> cases asleep
  · cases same

theorem SchedOk.not_own_of_used (ok : SchedOk s) (on : s.context c = some x)
    (private_ : (s.proc q).state = .used) : x ≠ .thread q := by
  rintro rfl
  rcases s.context_eq_some on with ⟨p, running, same⟩ | ⟨-, same⟩
  · cases same
    rw [ok.token.running c q running] at private_
    split at private_ <;> cases private_
  · cases same

variable [DecidableEq P]

/-- A running thread. -/
theorem Effect.own {p : P} {k' : Code P} (on : s.cpu c = .running p)
    (code : t.code = Function.update s.code (.thread p) k')
    (data : Agree (t.proc q) (s.proc q)) (next : Acts (s.code (.thread p)) k') :
    Effect s t c q := by
  refine .move (x := .thread p) (by simp [SchedState.context, on]) code data ?_
  rintro ⟨⟩
  exact .acts next

/-- Each step, seen from the process `q`. -/
theorem SchedStep.effect (ok : SchedOk s) (step : SchedStep nslots s c t) (q : P) :
    Effect s t c q := by
  cases step with
  | acquire on at_ next free =>
      refine .move on rfl (.refl _) ?_
      rintro rfl
      rw [ok.control.self_of_context on] at next
      rw [at_]
      exact .acquires next free
  | release on at_ next =>
      refine .move on rfl (.refl _) ?_
      rintro rfl
      rw [ok.control.self_of_context on] at next
      rw [at_]
      exact .releases next
  | jump on at_ next =>
      refine .move on rfl (.refl _) ?_
      rintro rfl
      rw [ok.control.self_of_context on] at next
      rw [at_]
      exact .jumps next
  | @finish p k l value on at_ next =>
      refine .move (x := .thread p) (by simp [SchedState.context, on]) rfl (.refl _) ?_
      rintro ⟨⟩
      rw [at_]
      exact .returns next
  | enterScheduler | dequeue | lockProc | refuse | unlockProc => exact .none rfl (.refl _)
  | requeue =>
      refine .none ?_ ?_ <;> simp only [SchedState.setCpu, SchedState.setCurrent]
      · split <;> rfl
      · split <;> exact .refl _
  | @dispatch p on state =>
      by_cases same : q = p
      · subst same
        refine .dispatched on (by simp [SchedState.setCpu]) rfl state ?_
        simpa [SchedState.setCpu, SchedState.setCurrent, SchedState.setProc] using .refl _
      · refine .none rfl ?_
        simpa [SchedState.setCpu, SchedState.setCurrent, SchedState.setProc, same] using .refl _
  | @swtchYield p k on at_ =>
      by_cases same : q = p
      · subst same
        refine .switches on (by simp [SchedState.setCpu]) ?_
        simpa [SchedState.setCpu, SchedState.goto, SchedState.setProc, at_] using .yield
      · refine .none ?_ ?_
        · simp [SchedState.setCpu, SchedState.goto, SchedState.setProc, same]
        · simpa [SchedState.setCpu, SchedState.goto, SchedState.setProc, same] using .refl _
  | @swtchSleep p chan k on at_ =>
      by_cases same : q = p
      · subst same
        refine .switches on (by simp [SchedState.setCpu]) ?_
        simpa [SchedState.setCpu, SchedState.goto, SchedState.setProc, at_] using .sleep
      · refine .none ?_ ?_
        · simp [SchedState.setCpu, SchedState.goto, SchedState.setProc, same]
        · simpa [SchedState.setCpu, SchedState.goto, SchedState.setProc, same] using .refl _
  | @swtchExit p on at_ =>
      by_cases same : q = p
      · subst same
        refine .switches on (by simp [SchedState.setCpu]) ?_
        simpa [SchedState.setCpu, SchedState.goto, at_] using .exit
      · refine .none ?_ (.refl _)
        simp [SchedState.setCpu, SchedState.goto, same]
  | @awake p k on at_ =>
      by_cases same : q = p
      · subst same
        refine .awakes on ?_ ?_
        · simpa [SchedState.goto] using at_
        · simpa [SchedState.goto, SchedState.setLock, SchedState.setProc] using .refl _
      · refine .none ?_ ?_
        · simp [SchedState.goto, SchedState.setLock, SchedState.setProc, same]
        · simpa [SchedState.goto, SchedState.setLock, SchedState.setProc, same] using .refl _
  | @rouse x chan r todo k on at_ asleep =>
      by_cases same : q = r
      · subst same
        have other := ok.not_own_of_sleeping on asleep.1
        refine .roused on at_ ?_ asleep.1 asleep.2 ?_
        · simp [SchedState.goto, SchedState.rouse, SchedState.setProc, SchedState.enqueue,
            Ne.symm other]
        · simpa [SchedState.goto, SchedState.rouse, SchedState.setProc, SchedState.enqueue]
            using .refl _
      · refine .move on rfl ?_ ?_
        · simpa [SchedState.goto, SchedState.rouse, SchedState.setProc, SchedState.enqueue, same]
            using .refl _
        · rintro rfl
          rw [at_]
          exact .acts .wake
  | passOver on at_ awake =>
      refine .move on rfl (.refl _) ?_
      rintro rfl
      rw [at_]
      exact .acts .wake
  | @kill p r on at_ =>
      have code : ∀ u : SchedState ncpus P, u.code = s.code →
          ((u.setProc r fun proc => { proc with killed := true }).goto (.thread p)
            (.killMarked r)).code = Function.update s.code (.thread p) (.killMarked r) := by
        intro u same
        simp [SchedState.goto, SchedState.setProc, same]
      have code := code (if (s.proc r).state = .sleeping then s.rouse r else s)
        (by split <;> rfl)
      by_cases same : q = r
      · subst same
        refine .marked on at_ ?_ ?_
        · rw [code]
          by_cases self : p = q
          · exact Or.inr ⟨self, by simp [self]⟩
          · exact Or.inl (by simp [Ne.symm self])
        · by_cases asleep : (s.proc q).state = .sleeping
          · simpa [SchedState.goto, SchedState.setProc, SchedState.rouse, SchedState.enqueue,
              asleep] using .refl _
          · simpa [SchedState.goto, SchedState.setProc, asleep] using .refl _
      · refine .own on code ?_ (by rw [at_]; exact .kill)
        by_cases asleep : (s.proc r).state = .sleeping
        · simpa [SchedState.goto, SchedState.setProc, SchedState.rouse, SchedState.enqueue,
            asleep, same] using .refl _
        · simpa [SchedState.goto, SchedState.setProc, asleep, same] using .refl _
  | @reparent p st on at_ =>
      refine .own on rfl ?_ (by rw [at_]; exact .reparent)
      simp only [SchedState.goto, Proc.reparent]
      split <;> exact ⟨rfl, rfl, rfl, rfl⟩
  | @becomeZombie p st on at_ =>
      by_cases same : q = p
      · subst same
        refine .zombie on at_ ?_ ?_ rfl
        · simp [SchedState.goto]
        · simpa [SchedState.goto, Proc.becomeZombie, SchedState.setProc] using
            ⟨rfl, rfl, rfl, rfl⟩
      · refine .none ?_ ?_
        · simp [SchedState.goto, Proc.becomeZombie, SchedState.setProc, same]
        · simpa [SchedState.goto, Proc.becomeZombie, SchedState.setProc, same] using .refl _
  | unlink on at_ exited => exact .own on rfl (.refl _) (by rw [at_]; exact .unlink)
  | freeproc on at_ => exact .own on rfl (.refl _) (by rw [at_]; exact .freeproc)
  | waitReturn on at_ => exact .own on rfl (.refl _) (by rw [at_]; exact .waitReturn)
  | @allocproc x np pid on at_ notScheduler object number =>
      have away : x ≠ .thread np := by
        rintro rfl
        rcases s.context_eq_some on with ⟨p, running, same⟩ | ⟨-, same⟩
        · cases same
          exact ((ok.token.free np object).2 c).1 (by rw [running]; rfl)
        · cases same
      by_cases same : q = np
      · subst same
        refine .allocated object ?_ ?_ ?_ ?_
        · simp [SchedState.goto, Proc.allocproc, Ne.symm away]
        · simp [SchedState.goto, Proc.allocproc]
        · simp [SchedState.goto, Proc.allocproc]
        · simp [SchedState.goto, Proc.allocproc]
      · by_cases own : x = .thread q
        · subst own
          rcases s.context_eq_some on with ⟨p, running, here⟩ | ⟨-, here⟩
          · cases here
            refine .follows running ?_ ?_
            · simpa [SchedState.goto, at_] using .acts .allocproc
            · simpa [SchedState.goto, Proc.allocproc, same] using .refl _
          · cases here
        · refine .none ?_ ?_
          · simp [SchedState.goto, Proc.allocproc, same, Ne.symm own]
          · simpa [SchedState.goto, Proc.allocproc, same] using .refl _
  | abandon on at_ => exact .own on rfl (.refl _) (by rw [at_]; exact .abandon)
  | @userinit np on at_ first =>
      refine .move (x := .sched c) (by simp [SchedState.context, on]) rfl (.refl _) ?_
      rintro ⟨⟩
  | @procActivate x np parent k on at_ =>
      have private_ := (ok.token.owns x np (by rw [at_]; rfl)).2
      by_cases same : q = np
      · subst same
        have other := ok.not_own_of_used on private_
        refine .activated ?_ private_ ?_
        · simp [SchedState.goto, Proc.procActivate, Ne.symm other]
        · simpa [SchedState.goto, Proc.procActivate] using ⟨rfl, rfl, rfl, rfl⟩
      · refine .move on rfl ?_ ?_
        · simpa [SchedState.goto, Proc.procActivate, same] using .refl _
        · rintro rfl
          rw [at_]
          exact .acts .procActivate

omit [DecidableEq P] in
/-- Two CPUs are in different contexts. -/
theorem SchedOk.context_inj (ok : SchedOk s) {d : Fin ncpus} (here : s.context c = some x)
    (there : s.context d = some x) : c = d := by
  rcases s.context_eq_some here with ⟨p, on, rfl⟩ | ⟨-, rfl⟩
  · rcases s.context_eq_some there with ⟨q, on', same⟩ | ⟨-, same⟩
    · cases same
      exact ok.token.token_inj c d p (by rw [on]; rfl) (by rw [on']; rfl)
    · cases same
  · rcases s.context_eq_some there with ⟨q, on', same⟩ | ⟨-, same⟩
    · cases same
    · cases same
      rfl

/-- A step of one CPU leaves the position of the others, and of the code they run. -/
theorem SchedStep.elsewhere (ok : SchedOk s) (step : SchedStep nslots s c t) {d : Fin ncpus}
    (other : d ≠ c) : t.cpu d = s.cpu d ∧ ∀ x, s.context d = some x → t.code x = s.code x := by
  have apart : ∀ {x y}, s.context c = some x → s.context d = some y → y ≠ x := by
    rintro x y here there rfl
    exact other (ok.context_inj there here)
  have running : ∀ {p y}, s.cpu c = .running p → s.context d = some y → y ≠ .thread p :=
    fun on => apart (by simp [SchedState.context, on])
  cases step with
  | acquire on | release on | jump on | passOver on | procActivate on =>
      exact ⟨rfl, fun y there => Function.update_of_ne (apart on there) _ _⟩
  | finish on | awake on | reparent on | becomeZombie on | unlink on | freeproc on | waitReturn on
  | abandon on => exact ⟨rfl, fun y there => Function.update_of_ne (running on there) _ _⟩
  | rouse on => exact ⟨rfl, fun y there => Function.update_of_ne (apart on there) _ _⟩
  | userinit on =>
      refine ⟨rfl, fun y there => Function.update_of_ne (apart ?_ there) _ _⟩
      simp [SchedState.context, on]
  | enterScheduler | dequeue | lockProc | refuse | dispatch | unlockProc =>
      exact ⟨Function.update_of_ne other _ _, fun y _ => rfl⟩
  | swtchYield on | swtchSleep on | swtchExit on =>
      exact ⟨Function.update_of_ne other _ _,
        fun y there => Function.update_of_ne (running on there) _ _⟩
  | requeue =>
      simp only [SchedState.setCpu, SchedState.setCurrent]
      split <;> exact ⟨Function.update_of_ne other _ _, fun y _ => rfl⟩
  | kill on =>
      simp only [SchedState.goto, SchedState.setProc]
      split <;> exact ⟨rfl, fun y there => Function.update_of_ne (running on there) _ _⟩
  | @allocproc x np pid on at_ notScheduler object number =>
      refine ⟨rfl, fun y there => ?_⟩
      have unborn : y ≠ .thread np := by
        rintro rfl
        rcases s.context_eq_some there with ⟨q, on', same⟩ | ⟨-, same⟩
        · cases same
          exact ((ok.token.free np object).2 d).1 (by rw [on']; rfl)
        · cases same
      rw [show ((Proc.allocproc s np pid).goto x (.build np)).code y = _ from
        Function.update_of_ne (apart on there) _ _]
      exact Function.update_of_ne unborn _ _

/-- The steps inside `wakeup`. -/
inductive Wakes (s t : SchedState ncpus P) (x : Context ncpus P) : Code P → Code P → Prop
  | scan {chan k} : Wakes s t x (.wakeEnter chan k) (.wakeScan chan s.allproc k)
  | lock {chan q todo k} : Wakes s t x (.wakeScan chan (q :: todo) k) (.wakeLocked chan q todo k)
  | self {chan q todo k} (mine : x = .thread q) :
      Wakes s t x (.wakeScan chan (q :: todo) k) (.wakeScan chan todo k)
  | done {chan k} : Wakes s t x (.wakeScan chan [] k) k
  | rouse {chan q todo k} (awake : (t.proc q).state = .runnable) :
      Wakes s t x (.wakeLocked chan q todo k) (.wakeDone chan q todo k)
  | pass {chan q todo k} (data : t.proc = s.proc)
      (awake : ¬ ((s.proc q).state = .sleeping ∧ (s.proc q).chan = some chan)) :
      Wakes s t x (.wakeLocked chan q todo k) (.wakeDone chan q todo k)
  | unlock {chan q todo k} : Wakes s t x (.wakeDone chan q todo k) (.wakeScan chan todo k)
  | interrupt {k k'} (interrupts : Interrupts k k') : Wakes s t x k k'

/-- Inside `wakeup` -/
def Code.inWakeup : Code P → Bool
  | wakeEnter _ _ | wakeScan _ _ _ | wakeLocked _ _ _ _ | wakeDone _ _ _ _ => true
  | _ => false

/-- A context in `wakeup` does nothing else. -/
theorem SchedStep.wakes (ok : SchedOk s) (step : SchedStep nslots s c t)
    (on : s.context c = some x) (inside : (s.code x).inWakeup = true) :
    t.cpu c = s.cpu c ∧ Wakes s t x (s.code x) (t.code x) := by
  have same : ∀ {y}, s.context c = some y → y = x := fun there => by
    rw [on] at there
    exact (Option.some.inj there).symm
  have thread : ∀ {p}, s.cpu c = .running p → .thread p = x := fun there =>
    same (by simp [SchedState.context, there])
  have sched : ∀ {k : Code P}, s.code (.sched c) = k → k.inWakeup = false →
      (s.cpu c).busy = false → False := by
    intro k at_ outside idle
    have own : Context.sched c = x := by
      apply same
      unfold SchedState.context
      cases there : s.cpu c <;> simp_all [CpuPc.busy]
    rw [← own, at_, outside] at inside
    cases inside
  cases step with
  | acquire on' at_ next free =>
      obtain rfl := same on'
      rw [ok.control.self_of_context on'] at next
      refine ⟨rfl, ?_⟩
      simp only [SchedState.goto, Function.update_self]
      rw [at_] at inside ⊢
      cases next with
      | yield => exact .interrupt .preempt
      | wakeEnter => exact .scan
      | wakeScan => exact .lock
      | _ => cases inside
  | release on' at_ next =>
      obtain rfl := same on'
      refine ⟨rfl, ?_⟩
      simp only [SchedState.goto, Function.update_self]
      rw [at_] at inside ⊢
      cases next with
      | wakeDone => exact .unlock
      | wakeScan => exact .done
      | _ => cases inside
  | jump on' at_ next =>
      obtain rfl := same on'
      rw [ok.control.self_of_context on'] at next
      refine ⟨rfl, ?_⟩
      simp only [SchedState.goto, Function.update_self]
      rw [at_] at inside ⊢
      cases next with
      | callWakeup addr open_ => exact .interrupt (.wakeup addr)
      | wakeSelf mine =>
          refine .self ?_
          rename_i y _ _ _ _
          cases y with
          | sched d => cases mine
          | thread p =>
              cases mine
              rfl
      | _ => cases inside
  | finish on' at_ next =>
      rw [← thread on', at_] at inside
      cases next <;> cases inside
  | enterScheduler on' at_ => exact (sched at_ rfl (by rw [on']; rfl)).elim
  | dequeue on' at_ => exact (sched at_ rfl (by rw [on']; rfl)).elim
  | lockProc on' at_ => exact (sched at_ rfl (by rw [on']; rfl)).elim
  | userinit on' at_ => exact (sched at_ rfl (by rw [on']; rfl)).elim
  | refuse on' => simp [SchedState.context, on'] at on
  | dispatch on' => simp [SchedState.context, on'] at on
  | requeue on' => simp [SchedState.context, on'] at on
  | unlockProc on' => simp [SchedState.context, on'] at on
  | rouse on' at_ asleep =>
      obtain rfl := same on'
      refine ⟨rfl, ?_⟩
      simp only [SchedState.goto, Function.update_self]
      rw [at_]
      refine .rouse ?_
      simp [SchedState.rouse, SchedState.enqueue, SchedState.setProc]
  | passOver on' at_ awake =>
      obtain rfl := same on'
      refine ⟨rfl, ?_⟩
      simp only [SchedState.goto, Function.update_self]
      rw [at_]
      exact .pass rfl awake
  | allocproc on' at_ | procActivate on' at_ =>
      obtain rfl := same on'
      rw [at_] at inside
      cases inside
  | swtchYield on' at_ | swtchSleep on' at_ | swtchExit on' at_ | awake on' at_ | kill on' at_
  | reparent on' at_ | becomeZombie on' at_ | unlink on' at_ | freeproc on' at_
  | waitReturn on' at_ | abandon on' at_ =>
      rw [← thread on', at_] at inside
      cases inside

/-- What a step can do to the history, and to `initproc`. -/
theorem SchedStep.history (ok : SchedOk s) (step : SchedStep nslots s c t) :
    s.exits ⊆ t.exits ∧ s.births ≤ t.births ∧
      (t.initproc = s.initproc ∨ ∃ np, t.initproc = some np ∧ (s.proc np).state = .used) := by
  cases step with
  | becomeZombie on at_ => exact ⟨List.subset_cons_self _ _, Nat.le_refl _, Or.inl rfl⟩
  | allocproc on at_ notScheduler object number =>
      exact ⟨fun _ => id, Nat.le_succ _, Or.inl rfl⟩
  | @userinit np on at_ first =>
      have private_ := (ok.token.owns (.sched c) np (by rw [at_]; rfl)).2
      exact ⟨fun _ => id, Nat.le_refl _, Or.inr ⟨np, rfl, private_⟩⟩
  | requeue on =>
      simp only [SchedState.setCpu, SchedState.setCurrent]
      split <;> exact ⟨fun _ => id, Nat.le_refl _, Or.inl rfl⟩
  | kill on at_ =>
      simp only [SchedState.goto, SchedState.setProc]
      split <;> exact ⟨fun _ => id, Nat.le_refl _, Or.inl rfl⟩
  | _ => exact ⟨fun _ => id, Nat.le_refl _, Or.inl rfl⟩

end Steps

/-- The state of a process that has been published and has not exited. -/
def Alive (state : ProcState) : Prop :=
  state = .running ∨ state = .runnable ∨ state = .sleeping

section Client

variable {s t : SchedState ncpus P} {c : Fin ncpus} {q : P}

theorem SchedOk.running_state (ok : SchedOk s) (on : s.cpu c = .running q)
    (awake : (s.code (.thread q)).zombied = false) : (s.proc q).state = .running := by
  rw [ok.token.running c q on, awake]
  rfl

/-- An object that is in use by a live process is not free. -/
theorem Alive.allocated (ok : SchedOk s) (alive : Alive (s.proc q).state) :
    s.allocated q = true := by
  refine (ok.table.published q (ok.table.alive q ?_)).1
  rcases alive with running | runnable | sleeping
  · exact Or.inr (Or.inr running)
  · exact Or.inl runnable
  · exact Or.inr (Or.inl sleeping)

/-- A process outside `proc.c` stays there, as long as only interrupts call it. -/
theorem Effect.atBody (ok : SchedOk s) (effect : Effect s t c q) (alive : Alive (s.proc q).state)
    (before : (s.code (.thread q)).atBody = true)
    (lets : s.cpu c = .running q → s.code (.thread q) = .body →
      Interrupts (s.code (.thread q)) (t.code (.thread q))) :
    Alive (t.proc q).state ∧ (t.code (.thread q)).atBody = true := by
  cases effect with
  | none code data => rw [code, data.state]; exact ⟨alive, before⟩
  | follows on code data =>
      rw [data.state]
      exact ⟨alive, code.atBody (lets on) before⟩
  | switches on off code =>
      rcases code.elim with ⟨k, here, after, data⟩ | ⟨chan, k, here, -, -⟩ | ⟨here, -, -⟩ <;>
        rw [here] at before
      · rw [after, data]
        exact ⟨Or.inr (Or.inl rfl), before⟩
      · cases before
      · cases before
  | awakes on code data => rw [code] at before; cases before
  | zombie on code code' data => rw [code] at before; cases before
  | dispatched on on' code ready data =>
      rw [code, data.state]
      exact ⟨Or.inl rfl, before⟩
  | roused on at_ code asleep onChan data =>
      rw [code, data.state]
      exact ⟨Or.inr (Or.inl rfl), before⟩
  | marked on at_ code data =>
      rcases code with code | ⟨same, -⟩
      · rw [code, data.state]
        refine ⟨?_, before⟩
        dsimp only
        split
        · exact Or.inr (Or.inl rfl)
        · exact alive
      · rw [same] at at_
        rw [at_] at before
        cases before
  | allocated free code state killed =>
      rw [alive.allocated ok] at free
      cases free
  | activated code private_ data =>
      rw [private_] at alive
      rcases alive with same | same | same <;> cases same

/-- A process outside `proc.c` is alive. -/
theorem Effect.alive_of_atBody (ok : SchedOk s) (effect : Effect s t c q)
    (alive : (s.code (.thread q)).atBody = true → Alive (s.proc q).state)
    (after : (t.code (.thread q)).atBody = true) : Alive (t.proc q).state := by
  cases effect with
  | none code data => rw [code] at after; rw [data.state]; exact alive after
  | follows on code data =>
      rw [data.state]
      refine Or.inl (ok.running_state on ?_)
      cases zombied : (s.code (.thread q)).zombied with
      | false => rfl
      | true =>
          rw [code.not_atBody zombied] at after
          cases after
  | switches on off code =>
      rcases code.elim with ⟨k, -, -, data⟩ | ⟨chan, k, -, code, -⟩ | ⟨-, code, -⟩
      · rw [data]
        exact Or.inr (Or.inl rfl)
      · rw [code] at after
        cases after
      · rw [code] at after
        cases after
  | awakes on code data =>
      rw [data.state]
      exact Or.inl (ok.running_state on (by rw [code]; rfl))
  | zombie on code code' data => rw [code'] at after; cases after
  | dispatched on on' code ready data => rw [data.state]; exact Or.inl rfl
  | roused on at_ code asleep onChan data => rw [data.state]; exact Or.inr (Or.inl rfl)
  | marked on at_ code data =>
      rw [data.state]
      rcases code with code | ⟨-, code⟩ <;> rw [code] at after
      · dsimp only
        split
        · exact Or.inr (Or.inl rfl)
        · exact alive after
      · cases after
  | allocated free code state killed => rw [code] at after; cases after
  | activated code private_ data => rw [data.state]; exact Or.inr (Or.inl rfl)

/-- A live process whose CPU does not move stays where it is. -/
theorem Effect.code_same (ok : SchedOk s) (effect : Effect s t c q) (alive : Alive (s.proc q).state)
    (away : s.cpu c ≠ .running q) : t.code (.thread q) = s.code (.thread q) := by
  cases effect with
  | none code => exact code
  | follows on => exact (away on).elim
  | switches on => exact (away on).elim
  | awakes on => exact (away on).elim
  | zombie on => exact (away on).elim
  | dispatched on on' code => exact code
  | roused on at_ code => exact code
  | marked on at_ code =>
      rcases code with code | ⟨same, -⟩
      · exact code
      · rw [same] at on
        exact (away on).elim
  | allocated free =>
      rw [alive.allocated ok] at free
      cases free
  | activated code => exact code

end Client

end Proc

end Av6
