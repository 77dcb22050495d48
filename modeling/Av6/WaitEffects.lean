import Av6.WaitSteps

/-!
# The effects of the steps on sleepers, zombies and parents
-/

namespace Av6

namespace Proc

variable {ncpus : Nat} {P : Type*} [DecidableEq P] {s t : SchedState ncpus P}
  {c : Fin ncpus} {x : Context ncpus P} {p q np : P} {k k' : Code P}

/-- A change of the data of `p` that leaves its parent alone and makes it no zombie. -/
theorem Calm.setProc {proc : ProcData P} (parent : proc.parent = (s.proc p).parent)
    (zombie : proc.state = .zombie → (s.proc p).state = .zombie)
    (proc_ : t.proc = Function.update s.proc p proc) (initproc : t.initproc = s.initproc)
    (allproc : t.allproc = s.allproc) (allocated : t.allocated = s.allocated) : Calm s t where
  initproc := initproc
  allproc q listed := by rwa [← allproc]
  parent q := by
    rw [proc_]
    by_cases same : q = p
    · rw [same, Function.update_self, parent]
    · rw [Function.update_of_ne same]
  zombie q state := by
    rw [proc_] at state
    by_cases same : q = p
    · rw [same, Function.update_self] at state
      rw [same]
      exact zombie state
    · rwa [Function.update_of_ne same] at state
  unlisted q listed := Or.inl (by rwa [allproc])
  allocated i _ used _ := by rwa [allocated]

section Steps

variable (ok : WaitOk s)
include ok

/-- The state of `p` changes, and it does not sleep afterwards. -/
theorem WaitOk.setProc (proc : ProcData P) (parent : proc.parent = (s.proc p).parent)
    (zombie : proc.state = .zombie → (s.proc p).state = .zombie)
    (awake : proc.state ≠ .sleeping ∨
      (proc.state = (s.proc p).state ∧ proc.chan = (s.proc p).chan))
    (proc_ : t.proc = Function.update s.proc p proc) (initproc : t.initproc = s.initproc)
    (allproc : t.allproc = s.allproc) (allocated : t.allocated = s.allocated)
    (other : ∀ y, y ≠ x → t.code y = s.code y) (moved : Moved s x (s.code x) (t.code x)) :
    WaitOk t := by
  have sleeping : ∀ q, (t.proc q).state = .sleeping →
      (s.proc q).state = .sleeping ∧ (t.proc q).chan = (s.proc q).chan := by
    intro q state
    rw [proc_] at state ⊢
    by_cases same : q = p
    · rw [same, Function.update_self] at state ⊢
      rcases awake with awake | ⟨kept, chan⟩
      · exact (awake state).elim
      · exact ⟨kept.symm.trans state, chan⟩
    · rw [Function.update_of_ne same] at state ⊢
      exact ⟨state, rfl⟩
  have view : ∀ (f : Code P → Bool), (f (t.code x) = true → f (s.code x) = true) →
      ∀ y, f (t.code y) = true → f (s.code y) = true := by
    intro f here y after
    by_cases same : y = x
    · rw [same] at after ⊢
      exact here after
    · rwa [other y same] at after
  refine ok.frame (x := x) (Calm.setProc parent zombie proc_ initproc allproc allocated) other
    moved.context ?_ ?_ moved.toInit moved.owns
  · intro q sleeps
    exact sleeps.imp (view Code.dozes moved.dozes _) fun after =>
      ⟨view Code.waits moved.waits _ after.1, (sleeping q after.2).1⟩
  · intro q waits state
    rw [(sleeping q state).2]
    exact ok.chan q (view Code.waits moved.waits _ waits) (sleeping q state).1

/-- `sched` from `sleep`: whoever dozed in `wait` is now marked as sleeping. -/
theorem WaitOk.sleep {chan : Chan P} (proc : ProcData P) (sched : SchedOk s)
    (at_ : s.code (.thread p) = .sleepReleased chan k)
    (parent : proc.parent = (s.proc p).parent) (state : proc.state = .sleeping)
    (onChan : proc.chan = some chan) (proc_ : t.proc = Function.update s.proc p proc)
    (initproc : t.initproc = s.initproc) (allproc : t.allproc = s.allproc)
    (allocated : t.allocated = s.allocated)
    (code : t.code = Function.update s.code (.thread p) (.slept k)) : WaitOk t := by
  have self : t.code (.thread p) = .slept k := by rw [code, Function.update_self]
  have other : ∀ y, y ≠ .thread p → t.code y = s.code y := fun y distinct => by
    rw [code, Function.update_of_ne distinct]
  have here := ok.context (.thread p)
  have nested := sched.control.nested (.thread p)
  rw [at_] at here nested
  refine ok.frame (x := .thread p)
    (Calm.setProc parent (fun zombie => by rw [state] at zombie; cases zombie) proc_ initproc
      allproc allocated) other ?_ ?_ ?_ ?_ ?_
  · rw [self]
    rcases nested with rfl | ⟨xs, rfl⟩
    · exact { here with }
    · exact { here with dozeChan := by rintro chan ⟨⟩ }
  · intro q sleeps
    by_cases same : q = p
    · subst same
      rcases nested with rfl | ⟨xs, rfl⟩
      · simp [Asleep, self, Code.dozes, Code.waits] at sleeps
      · exact Or.inl (by rw [at_]; rfl)
    · unfold Asleep at sleeps ⊢
      rwa [other _ (by simpa using same), proc_, Function.update_of_ne same] at sleeps
  · intro q waits sleeping
    by_cases same : q = p
    · subst same
      rw [self] at waits
      rcases nested with rfl | ⟨xs, rfl⟩
      · cases waits
      · obtain ⟨r, same, rfl⟩ := here.dozeChan chan rfl
        cases same
        rw [proc_, Function.update_self, onChan]
    · rw [proc_, Function.update_of_ne same] at sleeping ⊢
      rw [other _ (by simpa using same)] at waits
      exact ok.chan q waits sleeping
  · rw [at_]
    rintro ⟨⟩
  · rw [self]
    rintro i ⟨⟩

end Steps

omit [DecidableEq P] in
/-- A context that dozes in `wait` is on a CPU and holds its own lock. -/
theorem SchedOk.not_dozes (ok : SchedOk s) (on : s.context c = some x)
    (held : .proc q ∈ (s.code x).held x.self) (distinct : x ≠ .thread q) :
    (s.code (.thread q)).dozes = false := by
  by_contra dozes
  have own : .proc q ∈ (s.code (.thread q)).held (some q) ∧
      (s.code (.thread q)).suspended = false ∧ s.code (.thread q) ≠ .dead := by
    cases code : s.code (.thread q) <;>
      simp_all [Code.dozes, Code.held, Code.suspended]
  rcases ok.control.resting q with ⟨d, on'⟩ | suspended | dead
  · have context : s.context d = some (.thread q) := by simp [SchedState.context, on']
    have first := (ok.control.locks c (.proc q)).mpr (by rwa [s.heldBy_of_context on])
    have second := (ok.control.locks d (.proc q)).mpr (by
      rw [s.heldBy_of_context context]
      exact own.1)
    rw [first] at second
    cases second
    rw [on] at context
    cases context
    exact distinct rfl
  · rw [own.2.1] at suspended
    cases suspended
  · exact own.2.2 dead

omit [DecidableEq P] in
/-- The loop of `wakeup` leaves `q` behind, which is not asleep on the channel. -/
theorem ContextOk.passOver {chan : Chan P} {todo : List P}
    (ok : ContextOk s x (.wakeLocked chan q todo k)) (nested : k.CallsWakeup)
    (awake : chan = .proc q → ¬ Asleep s q) :
    Moved s x (.wakeLocked chan q todo k) (.wakeDone chan q todo k) := by
  rcases nested with open_ | ⟨st, rfl⟩ | ⟨st, rfl⟩
  · refine ok.moved ?_
    cases k <;>
      first
        | (cases open_; done)
        | (constructor <;> first | rfl | (intros; assumption))
  · refine ⟨{ ok with toInit := ?_ }, id, id, fun _ => id, Or.inl⟩
    rintro _ i ⟨⟩ known sleeps l ⟨⟩
    obtain ⟨j, known', same⟩ := ok.initChan chan rfl
    rw [known] at known'
    cases known'
    rcases List.mem_cons.mp (ok.toInit _ i rfl known sleeps _ rfl) with rfl | member
    · exact (awake same sleeps).elim
    · exact member
  · refine ⟨{ ok with toParent := ?_ }, id, id, fun _ => id, Or.inl⟩
    rintro _ p r ⟨⟩ here known sleeps l ⟨⟩
    obtain ⟨p', r', here', known', same⟩ := ok.parentChan chan rfl
    rw [here] at here'
    cases here'
    rw [known] at known'
    cases known'
    rcases List.mem_cons.mp (ok.toParent _ p r rfl here known sleeps _ rfl) with rfl | member
    · exact (awake same sleeps).elim
    · exact member

section Steps

variable (ok : WaitOk s) (sched : SchedOk s)
include ok sched

theorem WaitOk.passOver {chan : Chan P} {todo : List P} (on : s.context c = some x)
    (at_ : s.code x = .wakeLocked chan q todo k)
    (awake : ¬ ((s.proc q).state = .sleeping ∧ (s.proc q).chan = some chan)) :
    WaitOk (s.goto x (.wakeDone chan q todo k)) := by
  have nested := sched.control.nested x
  rw [at_] at nested
  have here := ok.context x
  rw [at_] at here
  refine ok.moved ⟨rfl, rfl, rfl, rfl⟩ rfl ?_
  rw [at_]
  refine here.passOver nested ?_
  rintro rfl sleeps
  rcases sleeps with dozes | ⟨waits, sleeping⟩
  · by_cases self : x = .thread q
    · rw [← self, at_] at dozes
      cases dozes
    · rw [sched.not_dozes on (by simp [at_, Code.held]) self] at dozes
      cases dozes
  · exact awake ⟨sleeping, ok.chan q waits sleeping⟩

theorem WaitOk.rouse {chan : Chan P} {todo : List P}
    (at_ : s.code x = .wakeLocked chan q todo k) (asleep : (s.proc q).state = .sleeping) :
    WaitOk ((s.rouse q).goto x (.wakeDone chan q todo k)) := by
  have nested := sched.control.nested x
  rw [at_] at nested
  have still : Moved s x (s.code x) ((s.rouse q).code x) :=
    ⟨ok.context x, id, id, fun _ => id, Or.inl⟩
  have roused : WaitOk (s.rouse q) :=
    ok.setProc { s.proc q with state := .runnable } (x := x) rfl (by rintro ⟨⟩)
      (Or.inl (by rintro ⟨⟩)) rfl rfl rfl rfl (fun _ _ => rfl) still
  have here := roused.context x
  have at' : (s.rouse q).code x = .wakeLocked chan q todo k := at_
  rw [at'] at here
  refine roused.moved ⟨rfl, rfl, rfl, rfl⟩ rfl ?_
  rw [at']
  refine here.passOver nested ?_
  intro _ sleeps
  obtain ⟨k₀, slept⟩ := sched.token.sleeping q asleep
  simp [Asleep, slept, Code.dozes, SchedState.rouse, SchedState.setProc,
    SchedState.enqueue] at sleeps

/-- The children of an exiting process go to `initproc`, which is woken next. -/
theorem WaitOk.reparent {st : Int} (on : s.cpu c = .running p)
    (at_ : s.code (.thread p) = .exitScan st) :
    WaitOk ((reparent s p).goto (.thread p) (.exitReparented st)) := by
  have context : s.context c = some (.thread p) := by simp [SchedState.context, on]
  have here := ok.context (.thread p)
  rw [at_] at here
  set t := (Proc.reparent s p).goto (.thread p) (.exitReparented st) with ht
  have self : t.code (.thread p) = .exitReparented st := Function.update_self ..
  have other : ∀ y, y ≠ .thread p → t.code y = s.code y := fun y distinct =>
    Function.update_of_ne distinct ..
  have outside : ∀ y, y ≠ .thread p → .wait ∉ (s.code y).held y.self := fun y distinct =>
    sched.control.exclusive context (by simp [at_, Code.held]) (by simp) distinct
  have state : ∀ q, (t.proc q).state = (s.proc q).state :=
    (SameData.reparent s p).state
  have chan : ∀ q, (t.proc q).chan = (s.proc q).chan := by
    intro q
    simp only [ht, SchedState.goto, Proc.reparent]
    split <;> rfl
  have parent : ∀ q, q ∈ s.allproc → ((s.proc q).parent = some p ∧
      (t.proc q).parent = s.initproc) ∨ ((s.proc q).parent ≠ some p ∧
        (t.proc q).parent = (s.proc q).parent) := by
    intro q listed
    simp only [ht, SchedState.goto, Proc.reparent, listed, true_and]
    split
    next child => exact Or.inl ⟨child, rfl⟩
    next other => exact Or.inr ⟨other, rfl⟩
  have unlisted : ∀ q, q ∉ s.allproc → (t.proc q).parent = (s.proc q).parent := by
    intro q away
    simp [ht, SchedState.goto, Proc.reparent, away]
  have notMine : ∀ q, q ∈ s.allproc → (t.proc q).parent ≠ some p := by
    intro q listed child
    rcases parent q listed with ⟨-, adopted⟩ | ⟨other, kept⟩
    · exact here.exiting p rfl (adopted.symm.trans child) rfl
    · exact other (kept.symm.trans child)
  have asleep : ∀ q, Asleep t q → Asleep s q := by
    intro q sleeps
    by_cases same : q = p
    · subst same
      simp [Asleep, self, Code.dozes, Code.waits] at sleeps
    · unfold Asleep at sleeps ⊢
      rwa [other _ (by simpa using same), state] at sleeps
  refine ⟨?_, ?_, ?_, ?_, ?_⟩
  · intro y
    by_cases same : y = .thread p
    · subst same
      rw [self]
      refine
        { dozeChan := by rintro chan ⟨⟩
          initChan := by rintro chan ⟨⟩
          parentChan := by rintro chan ⟨⟩
          toInit := by rintro _ i ⟨⟩ - - l ⟨⟩
          toParent := by rintro todo r q ⟨⟩
          unseen := by rintro l r q ⟨⟩
          childless := ?_
          exiting := fun i _ => here.exiting i rfl
          orphan := by rintro np ⟨⟩
          parentToBe := by rintro q ⟨⟩ }
      rintro r q - ⟨⟩ listed
      exact notMine q listed
    · rw [other y same]
      refine (ok.context y).rely rfl (fun _ => asleep)
        (fun held => (outside y same held).elim) (fun held => (outside y same held).elim) ?_ ?_
      · rintro r q done rfl listed child
        refine ⟨listed, ?_⟩
        rcases parent q listed with ⟨-, adopted⟩ | ⟨-, kept⟩
        · -- A childless process is exiting, so it is not the `initproc` that adopts.
          have exiting := Code.exiting_of_childless done
          exact ((ok.context _).exiting r exiting (adopted.symm.trans child) rfl).elim
        · exact kept.symm.trans child
      · intro np owns
        refine unlisted np fun listed => ?_
        exact (sched.table.published np listed).2.2 (sched.token.owns y np owns).2
  · intro q waits sleeping
    rw [state] at sleeping
    rw [chan]
    by_cases same : q = p
    · rw [same, self] at waits
      cases waits
    · rw [other _ (by simpa using same)] at waits
      exact ok.chan q waits sleeping
  · rintro r q sleeps ⟨listed, child, zombie⟩
    rw [state] at zombie
    rcases parent q listed with ⟨-, adopted⟩ | ⟨-, kept⟩
    · exact ⟨adopted.symm.trans child, .thread p, by rw [self]; rfl⟩
    · obtain ⟨known, -⟩ := ok.missed r q (asleep r sleeps)
        ⟨listed, kept.symm.trans child, zombie⟩
      exact ⟨known, .thread p, by rw [self]; rfl⟩
  · intro r q listed child
    rw [state]
    rcases parent q listed with ⟨-, adopted⟩ | ⟨-, kept⟩
    · have known := adopted.symm.trans child
      exact ⟨(ok.init r known).1, Or.inr known⟩
    · exact ok.parents r q listed (kept.symm.trans child)
  · intro i known
    obtain ⟨alive, used, unowned⟩ := ok.init i known
    refine ⟨by rw [state]; exact alive, used, ?_⟩
    intro r
    by_cases same : r = p
    · rw [same, self]
      rintro ⟨⟩
    · rw [other _ (by simpa using same)]
      exact unowned r

/-- The process becomes a zombie after both `wakeup`s: its parent is awake. -/
theorem WaitOk.becomeZombie {st : Int} (on : s.cpu c = .running p)
    (at_ : s.code (.thread p) = .exitOwn st) :
    WaitOk ((becomeZombie s p st).goto (.thread p) .exitZombie) := by
  have context : s.context c = some (.thread p) := by simp [SchedState.context, on]
  have here := ok.context (.thread p)
  rw [at_] at here
  set t := (Proc.becomeZombie s p st).goto (.thread p) .exitZombie with ht
  have self : t.code (.thread p) = .exitZombie := Function.update_self ..
  have other : ∀ y, y ≠ .thread p → t.code y = s.code y := fun y distinct =>
    Function.update_of_ne distinct ..
  have outside : ∀ y, y ≠ .thread p → .wait ∉ (s.code y).held y.self := fun y distinct =>
    sched.control.exclusive context (by simp [at_, Code.held]) (by simp) distinct
  have kept : ∀ q, q ≠ p → t.proc q = s.proc q := by
    intro q distinct
    simp [ht, SchedState.goto, Proc.becomeZombie, SchedState.setProc, distinct]
  have parent : ∀ q, (t.proc q).parent = (s.proc q).parent := by
    intro q
    by_cases same : q = p
    · subst same
      simp [ht, SchedState.goto, Proc.becomeZombie, SchedState.setProc]
    · rw [kept q same]
  have awake : ¬ Asleep t p := by simp [Asleep, self, Code.dozes, Code.waits]
  have asleep : ∀ q, Asleep t q → Asleep s q := by
    intro q sleeps
    by_cases same : q = p
    · subst same
      exact (awake sleeps).elim
    · unfold Asleep at sleeps ⊢
      rwa [other _ (by simpa using same), kept q same] at sleeps
  have childless : ∀ q, q ∈ s.allproc → (s.proc q).parent ≠ some p := fun q =>
    here.childless p q rfl rfl
  refine ⟨?_, ?_, ?_, ?_, ?_⟩
  · intro y
    by_cases same : y = .thread p
    · subst same
      rw [self]
      refine
        { dozeChan := by rintro chan ⟨⟩
          initChan := by rintro chan ⟨⟩
          parentChan := by rintro chan ⟨⟩
          toInit := by rintro todo i ⟨⟩
          toParent := by rintro todo r q ⟨⟩
          unseen := by rintro l r q ⟨⟩
          childless := ?_
          exiting := fun i _ => here.exiting i rfl
          orphan := by rintro np ⟨⟩
          parentToBe := by rintro q ⟨⟩ }
      rintro r q - ⟨⟩ listed
      rw [parent]
      exact childless q listed
    · rw [other y same]
      refine (ok.context y).rely rfl (fun _ => asleep)
        (fun held => (outside y same held).elim) (fun _ r _ => parent r) ?_ (fun np _ => parent np)
      intro r q _ _ listed child
      exact ⟨listed, (parent q).symm.trans child⟩
  · intro q waits sleeping
    by_cases same : q = p
    · rw [same, self] at waits
      cases waits
    · rw [other _ (by simpa using same)] at waits
      rw [kept q same] at sleeping ⊢
      exact ok.chan q waits sleeping
  · rintro r q sleeps ⟨listed, child, zombie⟩
    rw [parent] at child
    by_cases same : q = p
    · subst same
      cases here.toParent _ q r rfl rfl child (asleep r sleeps) _ rfl
    · rw [kept q same] at zombie
      obtain ⟨-, y, waking⟩ := ok.missed r q (asleep r sleeps) ⟨listed, child, zombie⟩
      obtain ⟨todo, waking⟩ := Option.isSome_iff_exists.mp waking
      by_cases self' : y = .thread p
      · rw [self', at_] at waking
        cases waking
      · exact (outside y self' (Code.held_of_toInit _ waking)).elim
  · intro r q listed child
    rw [parent] at child
    have distinct : r ≠ p := by
      rintro rfl
      exact childless q listed child
    rw [kept r distinct]
    exact ok.parents r q listed child
  · intro i known
    obtain ⟨alive, used, unowned⟩ := ok.init i known
    have distinct : i ≠ p := by
      rintro rfl
      exact here.exiting i rfl known rfl
    refine ⟨by rw [kept i distinct]; exact alive, used, ?_⟩
    intro r
    by_cases same : r = p
    · rw [same, self]
      rintro ⟨⟩
    · rw [other _ (by simpa using same)]
      exact unowned r

end Steps

end Proc

end Av6
