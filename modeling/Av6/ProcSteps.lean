import Av6.ProcEffects

/-!
# Every step of every CPU keeps the invariants
-/

namespace Av6

namespace Proc

variable {ncpus nslots : Nat} {P : Type*} [DecidableEq P] {s t : SchedState ncpus P}
  {c : Fin ncpus} {x : Context ncpus P} {p q np : P}

theorem ControlOk.allocproc (ok : ControlOk s) (token : TokenOk s) {pid : Nat}
    (on : s.context c = some x) (at_ : s.code x = .body)
    (untaken : ∀ d, (s.cpu d).token ≠ some np) :
    ControlOk ((allocproc s np pid).goto x (.build np)) := by
  have off : ∀ d, s.context d ≠ some (.thread np) := by
    intro d on'
    rcases s.context_eq_some on' with ⟨q, running, same⟩ | ⟨-, same⟩ <;> cases same
    exact untaken d (by rw [running]; rfl)
  have distinct : x ≠ .thread np := by
    rintro rfl
    exact off c on
  have self : ((Proc.allocproc s np pid).goto x (.build np)).code x = .build np :=
    Function.update_self ..
  have other : ∀ y, y ≠ x → y ≠ .thread np →
      ((Proc.allocproc s np pid).goto x (.build np)).code y = s.code y := by
    intro y first second
    simp [Proc.allocproc, SchedState.goto, first, second]
  have fresh : ((Proc.allocproc s np pid).goto x (.build np)).code (.thread np) = .forkret := by
    simp [Proc.allocproc, SchedState.goto, distinct.symm]
  refine ⟨?_, ?_, ok.current, ?_, ?_⟩
  · intro d l
    by_cases same : d = c
    · subst same
      have on' : ((Proc.allocproc s np pid).goto x (.build np)).context d = some x := on
      rw [SchedState.heldBy_of_context on', self]
      have before := ok.locks d l
      rw [s.heldBy_of_context on, at_] at before
      exact before
    · have heldBy : ((Proc.allocproc s np pid).goto x (.build np)).heldBy d = s.heldBy d := by
        refine SchedState.heldBy_congr rfl ?_
        intro y on'
        refine other y ?_ ?_
        · rintro rfl
          exact token.context_ne on same on'
        · rintro rfl
          exact off d on'
      rw [heldBy]
      exact ok.locks d l
  · intro y
    by_cases first : y = x
    · rw [first, self]
      trivial
    · by_cases second : y = .thread np
      · rw [second, fresh]
        trivial
      · rw [other y first second]
        exact ok.nested y
  · intro d busy
    refine (other _ ?_ (by simp)).trans (ok.busy d busy)
    rintro rfl
    rcases s.context_eq_some on with ⟨q, -, same⟩ | ⟨idle, same⟩ <;> cases same
    exact absurd busy (by simp [SchedState.goto, Proc.allocproc, idle])
  · intro q
    by_cases first : Context.thread q = x
    · subst first
      rcases s.context_eq_some on with ⟨r, running, same⟩ | ⟨-, same⟩ <;> cases same
      exact Or.inl ⟨c, running⟩
    · by_cases second : q = np
      · rw [second, fresh]
        exact Or.inr (Or.inl rfl)
      · rw [other _ first (by simpa using second)]
        exact ok.resting q

theorem SchedOk.allocproc (ok : SchedOk s) {pid : Nat} (on : s.context c = some x)
    (at_ : s.code x = .body) (object : s.allocated np = false) :
    SchedOk ((allocproc s np pid).goto x (.build np)) := by
  obtain ⟨unqueued, away⟩ := ok.token.free np object
  have untaken : ∀ d, (s.cpu d).token ≠ some np := fun d => (away d).1
  have unlisted : np ∉ s.allproc := by
    intro member
    rw [(ok.table.published np member).1] at object
    cases object
  have off : x ≠ .thread np := by
    rintro rfl
    rcases s.context_eq_some on with ⟨q, running, same⟩ | ⟨-, same⟩ <;> cases same
    exact untaken c (by rw [running]; rfl)
  refine ⟨ok.control.allocproc ok.token on at_ untaken, ?_, ?_⟩
  · obtain ⟨runqNodup, runqOk, tokenInj, ready, running, back, runnable, requeued, unborn,
      suspended, sleeping, free, owns, ownsInj, reaps⟩ := ok.token
    have ran : ∀ q, x = .thread q → (s.proc q).state = .running ∨ (s.proc q).state = .zombie := by
      rintro q rfl
      exact ok.token.state_of_context on
    constructor <;>
      simp only [Proc.allocproc, SchedState.goto, Function.update_apply] <;>
      grind [Code.zombied, Code.owns, Code.reaps, Code.suspended, CpuPc.token]
  · obtain ⟨nodup, published, alive, hashed, hashNodup, scanned, reaped⟩ := ok.table
    constructor <;>
      simp only [Proc.allocproc, SchedState.goto, Function.update_apply] <;>
      grind [Code.scanned, Code.reaps]

section Generic

variable {k k' : Code P} {l : Lock P} (ok : SchedOk s) (on : s.context c = some x)
  (at_ : s.code x = k)
include ok on at_

theorem SchedOk.acquire (next : Acquires s (s.current c) k l k') (free : s.locks l = none) :
    SchedOk ((s.setLock l (some c)).goto x k') := by
  rw [ok.control.self_of_context on] at next
  have nested := ok.control.nested x
  have listed := ok.table.scanned x
  rw [at_] at nested listed
  have self : ((s.setLock l (some c)).goto x k').code x = k' := Function.update_self ..
  have before : ∀ l', s.locks l' = some c ↔ l' ∈ k.held x.self := by
    intro l'
    rw [ok.control.locks c l', s.heldBy_of_context on, at_]
  refine ok.move (x := x) (c := c) { SameData.refl s with } ?_ on ?_ ?_ ?_ ?_ ?_
  · intro y distinct
    exact Function.update_of_ne distinct ..
  · rw [self, at_]
    exact next.moves
  · rw [self]
    exact next.nested nested
  · rw [self]
    exact next.scanned listed fun b p member => ((ok.table.hashed b p).mp member).1
  · intro l'
    rw [self, next.held l', ← before l']
    by_cases same : l' = l <;> simp [SchedState.setLock, SchedState.goto, same]
  · intro d l' other
    by_cases same : l' = l
    · simp [SchedState.setLock, SchedState.goto, same, free, other.symm]
    · simp [SchedState.setLock, SchedState.goto, same]

/-- Releasing a lock, together with changes of data that the invariants ignore. -/
theorem SchedOk.unlock (data : SameData s t) (locks : t.locks = Function.update s.locks l none)
    (code : t.code = Function.update s.code x k') (moves : Moves k k') (nested : k'.Nested)
    (listed : ∀ q ∈ k'.scanned, q ∈ s.allproc) (held : l ∈ k.held x.self)
    (keeps : ∀ l', l' ∈ k'.held x.self ↔ l' ∈ k.held x.self ∧ l' ≠ l) : SchedOk t := by
  have self : t.code x = k' := by rw [code, Function.update_self]
  have before : ∀ l', s.locks l' = some c ↔ l' ∈ k.held x.self := by
    intro l'
    rw [ok.control.locks c l', s.heldBy_of_context on, at_]
  refine ok.move (x := x) (c := c) data ?_ on ?_ ?_ ?_ ?_ ?_
  · intro y distinct
    rw [code, Function.update_of_ne distinct]
  · rwa [self, at_]
  · rwa [self]
  · rwa [self]
  · intro l'
    rw [self, keeps l', ← before l', locks]
    by_cases same : l' = l <;> simp [same]
  · intro d l' other
    rw [locks]
    by_cases same : l' = l
    · simp [same, (before l).mpr held, other.symm]
    · simp [same]

theorem SchedOk.release (next : Releases s (s.current c) k l k') :
    SchedOk ((s.setLock l none).goto x k') := by
  rw [ok.control.self_of_context on] at next
  have nested := ok.control.nested x
  have listed := ok.table.scanned x
  rw [at_] at nested listed
  exact ok.unlock on at_ { SameData.refl s with } rfl rfl (next.moves nested)
    (next.nested nested) (next.scanned listed nested) next.mem_held (next.held nested)

/-- Moving without a lock operation, with changes of data that the invariants ignore. -/
theorem SchedOk.goto (data : SameData s t) (locks : t.locks = s.locks)
    (code : t.code = Function.update s.code x k') (moves : Moves k k') (nested : k'.Nested)
    (listed : ∀ q ∈ k'.scanned, q ∈ s.allproc) (held : k'.held x.self = k.held x.self) :
    SchedOk t := by
  have self : t.code x = k' := by rw [code, Function.update_self]
  refine ⟨ok.control.goto ok.token on data.cpu data.current locks code nested
    (by rw [held, at_]), ?_, ?_⟩
  · refine ok.token.move (x := x) data ?_ on (by rwa [self, at_])
    intro y distinct
    rw [code, Function.update_of_ne distinct]
  · refine ok.table.move (x := x) data ?_ (by rw [self, at_, moves.reaps]) (by rwa [self])
    intro y distinct
    rw [code, Function.update_of_ne distinct]

theorem SchedOk.jump (next : Jumps s (s.current c) k k') : SchedOk (s.goto x k') := by
  rw [ok.control.self_of_context on] at next
  have nested := ok.control.nested x
  have listed := ok.table.scanned x
  rw [at_] at nested listed
  exact ok.goto on at_ { SameData.refl s with } rfl rfl next.moves (next.nested nested)
    (next.scanned listed) next.held

end Generic

/-- The data of a process changes where the invariants do not look. -/
theorem SameData.setProc (f : ProcData P → ProcData P)
    (state : (f (s.proc p)).state = (s.proc p).state) (pid : (f (s.proc p)).pid = (s.proc p).pid) :
    SameData s (s.setProc p f) where
  state q := by
    by_cases same : q = p
    · subst same
      simpa [SchedState.setProc] using state
    · simp [SchedState.setProc, same]
  pid q := by
    by_cases same : q = p
    · subst same
      simpa [SchedState.setProc] using pid
    · simp [SchedState.setProc, same]
  allocated := rfl
  allproc := rfl
  pidhash := rfl
  runq := rfl
  current := rfl
  cpu := rfl

theorem SameData.reparent (s : SchedState ncpus P) (p : P) : SameData s (reparent s p) where
  state q := by
    unfold Proc.reparent
    dsimp only
    split <;> rfl
  pid q := by
    unfold Proc.reparent
    dsimp only
    split <;> rfl
  allocated := rfl
  allproc := rfl
  pidhash := rfl
  runq := rfl
  current := rfl
  cpu := rfl

/-- The thread of `p` switches back to the scheduler, holding only its own lock. -/
theorem SchedOk.switchBack (ok : SchedOk s) {proc : ProcData P} {k : Code P}
    (on : s.cpu c = .running p)
    (state : proc.state = .runnable ∧ (∃ k', k = .yielded k') ∨
      proc.state = .sleeping ∧ (∃ k', k = .slept k') ∨
        proc.state = .zombie ∧ k = .dead ∧ (s.proc p).state = .zombie)
    (pid : proc.pid = (s.proc p).pid) (nested : k.Nested)
    (held : (s.code (.thread p)).held (some p) = [.proc p])
    (owns : k.owns = (s.code (.thread p)).owns) (reaps : (s.code (.thread p)).reaps = none)
    (alive : proc.state ≠ .zombie → (s.proc p).state = .running) :
    SchedOk
      ((({ s with proc := Function.update s.proc p proc } : SchedState ncpus P).goto
        (.thread p) k).setCpu c (.switchedBack p)) := by
  have away : (k.suspended = true ∨ k = .dead) ∧ k.scanned = [] ∧ k.reaps = none := by
    rcases state with ⟨-, k', rfl⟩ | ⟨-, k', rfl⟩ | ⟨-, rfl, -⟩
    · exact ⟨Or.inl rfl, rfl, rfl⟩
    · exact ⟨Or.inl rfl, rfl, rfl⟩
    · exact ⟨Or.inr rfl, rfl, rfl⟩
  refine ⟨ok.control.switchBack ok.token on away.1 nested held,
    ok.token.switchBack on state owns away.2.2 reaps, ok.table.switchBack ?_ ?_ pid away.2.1
      away.2.2⟩
  · intro running
    exact ok.table.alive p (Or.inr (Or.inr (alive running)))
  · rcases state with ⟨state, -⟩ | ⟨state, -⟩ | ⟨state, -⟩ <;> simp [state]

theorem SchedOk.kill (ok : SchedOk s) (on : s.cpu c = .running p)
    (at_ : s.code (.thread p) = .killLocked q) :
    SchedOk
      (((if (s.proc q).state = .sleeping then s.rouse q else s).setProc q fun proc =>
        { proc with killed := true }).goto (.thread p) (.killMarked q)) := by
  have context : s.context c = some (.thread p) := by simp [SchedState.context, on]
  have listed := ok.table.scanned (.thread p)
  rw [at_] at listed
  have locked := fun d => (ok.control.not_leaving context (q := q) (by simp [at_, Code.held]) d).1
  have moved : SchedOk (s.goto (.thread p) (.killMarked q)) :=
    ok.goto context at_ { SameData.refl s with } rfl rfl ⟨rfl, rfl, rfl⟩ trivial
      listed rfl
  split
  next asleep =>
    have roused := moved.rouse asleep locked
    have marked := SameData.setProc (s := (s.goto (.thread p) (.killMarked q)).rouse q)
      (p := q) (fun proc => { proc with killed := true }) rfl rfl
    exact roused.congr { marked with } rfl rfl
  next =>
    have marked := SameData.setProc (s := s.goto (.thread p) (.killMarked q))
      (p := q) (fun proc => { proc with killed := true }) rfl rfl
    exact moved.congr { marked with } rfl rfl

theorem SchedOk.rouseScanned (ok : SchedOk s) {chan : Chan P} {todo : List P} {k : Code P}
    (on : s.context c = some x) (at_ : s.code x = .wakeLocked chan q todo k)
    (asleep : (s.proc q).state = .sleeping) :
    SchedOk ((s.rouse q).goto x (.wakeDone chan q todo k)) := by
  have nested := ok.control.nested x
  have listed := ok.table.scanned x
  rw [at_] at nested listed
  have locked := fun d => (ok.control.not_leaving on (q := q) (by simp [at_, Code.held]) d).1
  have moved : SchedOk (s.goto x (.wakeDone chan q todo k)) :=
    ok.goto on at_ { SameData.refl s with } rfl rfl ⟨rfl, rfl, rfl⟩ nested
      listed rfl
  exact moved.rouse asleep locked

/-- A thread that `sched` has returned to in `sleep` gives up its lock. -/
theorem SchedOk.awake (ok : SchedOk s) {k : Code P} (on : s.cpu c = .running p)
    (at_ : s.code (.thread p) = .slept k) :
    SchedOk
      (((s.setProc p fun proc => { proc with chan := none }).setLock (.proc p) none).goto
        (.thread p) k) := by
  have context : s.context c = some (.thread p) := by simp [SchedState.context, on]
  have nested := ok.control.nested (.thread p)
  rw [at_] at nested
  have data := SameData.setProc (s := s) (p := p) (fun proc => { proc with chan := none }) rfl rfl
  refine ok.unlock context at_ { data with } rfl rfl ?_ ?_ ?_ (by simp [Code.held, Context.self]) ?_ <;>
    rcases nested with rfl | ⟨xstatus, rfl⟩
  · exact ⟨rfl, rfl, rfl⟩
  · exact ⟨rfl, rfl, rfl⟩
  · trivial
  · trivial
  · simp [Code.scanned]
  · simp [Code.scanned]
  · simp [Code.held, Context.self]
  · simp [Code.held, Context.self]

/-- Every step keeps the invariants. -/
theorem SchedOk.step (ok : SchedOk s) (step : SchedStep nslots s c t) : SchedOk t := by
  cases step with
  | acquire on at_ next free => exact ok.acquire on at_ next free
  | release on at_ next => exact ok.release on at_ next
  | jump on at_ next => exact ok.jump on at_ next
  | @finish p _ _ _ on at_ next =>
      have context : s.context c = some (.thread p) := by simp [SchedState.context, on]
      have held := next.held (Context.thread p : Context ncpus P).self
      refine ok.unlock context at_ { SameData.refl s with } rfl rfl next.moves trivial
        (by simp [Code.scanned]) (by rw [held]; simp) ?_
      intro l'
      rw [held]
      simp [Code.held]
  | enterScheduler on at_ =>
      exact ⟨ok.control.enterScheduler on, ok.token.enterScheduler on, { ok.table with }⟩
  | dequeue on at_ first =>
      exact ⟨ok.control.dequeue on, ok.token.dequeue on first, { ok.table with }⟩
  | lockProc on at_ free =>
      exact ⟨ok.control.lockProc on at_ free, { ok.token.lockProc on with }, { ok.table with }⟩
  | refuse on state => exact (state (ok.token.ready c _ (Or.inr on))).elim
  | dispatch on state =>
      have waits := ok.token.suspended _ (Or.inl state)
      exact ⟨ok.control.dispatch on waits, ok.token.dispatch on, ok.table.dispatch state⟩
  | @swtchYield p _ on at_ =>
      have nested := ok.control.nested (.thread p)
      have running := ok.token.running c p on
      rw [at_] at nested running
      exact ok.switchBack on (Or.inl ⟨rfl, _, rfl⟩) rfl nested (by rw [at_]; rfl)
        (by rw [at_]; rfl) (by rw [at_]; rfl) fun _ => running
  | @swtchSleep p _ _ on at_ =>
      have nested := ok.control.nested (.thread p)
      have running := ok.token.running c p on
      rw [at_] at nested running
      exact ok.switchBack on (Or.inr (Or.inl ⟨rfl, _, rfl⟩)) rfl nested (by rw [at_]; rfl)
        (by rw [at_]; rfl) (by rw [at_]; rfl) fun _ => running
  | @swtchExit p on at_ =>
      have exited := ok.token.running c p on
      rw [at_] at exited
      have switched := ok.switchBack on
        (Or.inr (Or.inr ⟨exited, rfl, exited⟩)) rfl trivial (by rw [at_]; rfl)
        (by rw [at_]; rfl) (by rw [at_]; rfl) fun alive => (alive exited).elim
      rwa [Function.update_eq_self] at switched
  | requeue on =>
      refine ⟨ok.control.requeue on, ok.token.requeue on, ?_⟩
      split <;> exact { ok.table with }
  | unlockProc on =>
      exact ⟨ok.control.unlockProc on, { ok.token.unlockProc on with }, { ok.table with }⟩
  | awake on at_ => exact ok.awake on at_
  | rouse on at_ asleep => exact ok.rouseScanned on at_ asleep.1
  | @passOver x _ _ _ _ on at_ awake =>
      have nested := ok.control.nested x
      have listed := ok.table.scanned x
      rw [at_] at nested listed
      exact ok.goto on at_ { SameData.refl s with } rfl rfl ⟨rfl, rfl, rfl⟩ nested
        listed rfl
  | kill on at_ => exact ok.kill on at_
  | @reparent p _ on at_ =>
      have context : s.context c = some (.thread p) := by simp [SchedState.context, on]
      exact ok.goto context at_ { SameData.reparent s _ with } rfl rfl ⟨rfl, rfl, rfl⟩ trivial
        (by simp [Code.scanned]) rfl
  | becomeZombie on at_ => exact ok.becomeZombie on at_
  | unlink on at_ exited => exact ok.unlink _ on at_ exited
  | freeproc on at_ => exact ok.freeproc on at_
  | @waitReturn p _ on at_ =>
      have context : s.context c = some (.thread p) := by simp [SchedState.context, on]
      exact ok.unlock context at_ { SameData.refl s with } rfl rfl ⟨rfl, rfl, rfl⟩ trivial
        (by simp [Code.scanned]) (by simp [Code.held]) (by simp [Code.held])
  | allocproc on at_ notScheduler object number => exact ok.allocproc on at_ object
  | abandon on at_ =>
      exact (ok.abandon on at_).congr { SameData.refl _ with } rfl rfl
  | userinit on at_ first =>
      have context : s.context c = some (.sched c) := by simp [SchedState.context, on]
      exact ok.goto context at_ { SameData.refl s with } rfl rfl ⟨rfl, rfl, rfl⟩ (Or.inl rfl)
        (by simp [Code.scanned]) rfl
  | procActivate on at_ => exact ok.procActivate on at_

omit [DecidableEq P] in
theorem procInit_ok : SchedOk (procInit ncpus P) where
  control :=
    { locks := by
        intro c l
        by_cases first : c.val = 0 <;>
          simp [procInit, SchedState.heldBy, first, Code.held]
      nested := by rintro (c | p) <;> trivial
      current := by
        intro c p
        by_cases first : c.val = 0 <;> simp [procInit, first]
      busy := fun _ _ => rfl
      resting := fun _ => Or.inr (Or.inr rfl) }
  token := by
    have untaken : ∀ (c : Fin ncpus) (p : P), ((procInit ncpus P).cpu c).token ≠ some p := by
      intro c p
      by_cases first : c.val = 0 <;> simp [procInit, first, CpuPc.token]
    have unattached : ∀ (c : Fin ncpus) (p : P), (procInit ncpus P).cpu c ≠ .requeued p := by
      intro c p
      by_cases first : c.val = 0 <;> simp [procInit, first]
    refine
      { runq_nodup := List.nodup_nil
        runq_ok := fun p member => by cases member
        token_inj := fun c d p taken => (untaken c p taken).elim
        ready := ?_
        running := fun c p on => (untaken c p (by rw [on]; rfl)).elim
        back := fun c p on => (untaken c p (by rw [on]; rfl)).elim
        runnable := fun p state => by cases state
        requeued := ?_
        unborn := fun p state => by cases state
        suspended := fun p state => by simp [procInit] at state
        sleeping := fun p state => by cases state
        free := fun p _ => ⟨by rintro ⟨⟩, fun c => ⟨untaken c p, unattached c p⟩⟩
        owns := ?_
        owns_inj := ?_
        reaps := ?_ }
    · rintro c p (on | on) <;> exact (untaken c p (by rw [on]; rfl)).elim
    · intro c p on
      exact (unattached c p on).elim
    · rintro (c | p) np ⟨⟩
    · rintro (c | p) y np ⟨⟩
    · rintro (c | p) np ⟨⟩
  table :=
    { nodup := List.nodup_nil
      published := fun p member => by cases member
      alive := fun p state => by simp [procInit] at state
      hashed := fun b p => by simp [procInit]
      hash_nodup := fun b => List.nodup_nil
      scanned := by rintro (c | p) q ⟨⟩
      reaped := by rintro (c | p) np ⟨⟩ }

theorem schedOk_of_reachable (reached : SchedReachable nslots s) : SchedOk s := by
  refine TransitionSystem.Reachable.invariant ?_ ?_ reached
  · rintro start rfl
    exact procInit_ok
  · rintro state after _ ok ⟨c, step⟩
    exact ok.step step

end Proc

end Av6
