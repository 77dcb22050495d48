import Av6.WaitMoves

/-!
# Positions change: what `exit` and `wait` have done so far
-/

namespace Av6

namespace Proc

variable {ncpus : Nat} {P : Type*} {s t : SchedState ncpus P}
  {c : Fin ncpus} {x : Context ncpus P} {p q np : P} {k k' : Code P} {l : Lock P}

/-- The data that this invariant is about stays the same. -/
structure SameWait (s t : SchedState ncpus P) : Prop where
  proc : t.proc = s.proc
  allproc : t.allproc = s.allproc
  initproc : t.initproc = s.initproc
  allocated : t.allocated = s.allocated

/-- Whoever sleeps in `wait` is in the process list. -/
theorem SchedOk.listed_of_asleep (ok : SchedOk s) (asleep : Asleep s p) : p ∈ s.allproc := by
  refine ok.table.alive p ?_
  rcases asleep with dozes | ⟨-, sleeping⟩
  · have awake : (s.code (.thread p)).suspended = false ∧ s.code (.thread p) ≠ .dead ∧
        (s.code (.thread p)).zombied = false := by
      cases code : s.code (.thread p) <;> simp_all [Code.dozes, Code.suspended, Code.zombied]
    rcases ok.control.resting p with ⟨d, on⟩ | suspended | dead
    · rw [ok.token.running d p on, awake.2.2]
      exact Or.inr (Or.inr rfl)
    · rw [awake.1] at suspended
      cases suspended
    · exact (awake.2.1 dead).elim
  · exact Or.inr (Or.inl sleeping)

/-- The step of a context to `k'` is in order as far as this invariant goes. -/
structure Moved (s : SchedState ncpus P) (x : Context ncpus P) (k k' : Code P) : Prop where
  context : ContextOk s x k'
  dozes : k'.dozes = true → k.dozes = true
  waits : k'.waits = true → k.waits = true
  owns : ∀ np, k'.owns = some np → k.owns = some np
  /-- Nobody stops waking `initproc` before it is awake. -/
  toInit : k.toInit.isSome = true → k'.toInit.isSome = true ∨
    ∀ i, s.initproc = some i → ¬ Asleep s i

theorem ContextOk.moved (ok : ContextOk s x k) (silent : Silent k k') : Moved s x k k' where
  context := ok.silent silent
  dozes := silent.dozes
  waits := silent.waits
  owns np after := silent.owns ▸ after
  toInit waking := Or.inl (by rwa [silent.toInit])

theorem Context.eq_thread (mine : x.self = some p) : x = .thread p := by
  cases x <;> cases mine
  rfl

theorem Acquires.moved (ok : ContextOk s x k) (sched : SchedOk s) (nested : k.Nested)
    (next : Acquires s x.self k l k') : Moved s x k k' := by
  have owns : ∀ np, k'.owns = some np → k.owns = some np := fun np after =>
    next.moves.owns ▸ after
  rcases next.silent with silent | ⟨xs, p, rfl, mine, rfl⟩ | ⟨chan, k₀, rfl, rfl⟩ |
    ⟨xs, rfl, rfl⟩ | ⟨np, p, pid, rfl, mine, rfl⟩
  · exact ok.moved silent
  · obtain rfl := Context.eq_thread mine
    refine ⟨{ ok with dozeChan := ?_, unseen := ok.unseen }, id, id, owns, Or.inl⟩
    rintro chan ⟨⟩
    exact ⟨p, rfl, rfl⟩
  · rcases nested with open_ | ⟨st, rfl⟩ | ⟨st, rfl⟩
    · refine ok.moved ?_
      cases k₀ <;>
        first
          | (cases open_; done)
          | (constructor <;> first | rfl | (intros; assumption))
    · refine ⟨{ ok with toInit := ?_ }, id, id, owns, Or.inl⟩
      rintro _ i ⟨⟩ known sleeps l ⟨⟩
      exact sched.listed_of_asleep sleeps
    · refine ⟨{ ok with toParent := ?_ }, id, id, owns, Or.inl⟩
      rintro _ p r ⟨⟩ here known sleeps l ⟨⟩
      exact sched.listed_of_asleep sleeps
  · refine ⟨{ ok with unseen := ?_ }, id, id, owns, Or.inl⟩
    rintro _ r q ⟨⟩ _ child
    exact child.1
  · obtain rfl := Context.eq_thread mine
    refine ⟨{ ok with parentToBe := ?_ }, id, id, owns, Or.inl⟩
    rintro q ⟨⟩
    rfl

theorem Releases.moved (ok : ContextOk s x k) (nested : k.Nested)
    (next : Releases s x.self k l k') (awake : ∀ chan xs, k ≠ .sleepLocked chan (.waitEnter xs)) :
    Moved s x k k' := by
  have owns : ∀ np, k'.owns = some np → k.owns = some np := fun np after =>
    (next.moves nested).owns ▸ after
  rcases next.silent nested with silent | ⟨chan, xs, rfl, rfl⟩ | ⟨st, i, rfl, known, rfl⟩ |
    ⟨xs, np, todo, rfl, alive, rfl⟩
  · exact ok.moved silent
  · exact (awake chan xs rfl).elim
  · refine ⟨{ ok with initChan := ?_ }, id, id, owns, Or.inl⟩
    rintro chan ⟨⟩
    exact ⟨i, known, rfl⟩
  · refine ⟨{ ok with unseen := ?_ }, id, id, owns, Or.inl⟩
    rintro _ p q ⟨⟩ here child
    rcases List.mem_cons.mp (ok.unseen _ p q rfl here child) with rfl | member
    · exact (alive child.2.2).elim
    · exact member

theorem Jumps.moved (ok : ContextOk s x k) (at_ : s.code x = k) (nested : k.Nested)
    (next : Jumps s x.self k k') : Moved s x k k' := by
  have owns : ∀ np, k'.owns = some np → k.owns = some np := fun np after =>
    next.moves.owns ▸ after
  rcases next.silent with silent | ⟨st, p, i, rfl, rfl, mine, known, mortal⟩ |
    ⟨chan, q, todo, k₀, rfl, mine, rfl⟩ | ⟨st, p, rfl, rfl, mine, woken⟩ |
    ⟨st, p, r, rfl, mine, known, rfl⟩ | ⟨xs, np, todo, havekids, rfl, other, rfl⟩
  · exact ok.moved silent
  · obtain rfl := Context.eq_thread mine
    refine ⟨{ ok with exiting := ?_ }, id, id, owns, Or.inl⟩
    rintro j - known' ⟨⟩
    rw [known] at known'
    cases known'
    exact mortal rfl
  · obtain rfl := Context.eq_thread mine
    have awake : ¬ Asleep s q := by simp [Asleep, at_, Code.dozes, Code.waits]
    rcases nested with open_ | ⟨st, rfl⟩ | ⟨st, rfl⟩
    · refine ok.moved ?_
      cases k₀ <;>
        first
          | (cases open_; done)
          | (constructor <;> first | rfl | (intros; assumption))
    · refine ⟨{ ok with toInit := ?_ }, id, id, owns, Or.inl⟩
      rintro _ i ⟨⟩ known sleeps l ⟨⟩
      rcases List.mem_cons.mp (ok.toInit _ i rfl known sleeps _ rfl) with rfl | member
      · exact (awake sleeps).elim
      · exact member
    · refine ⟨{ ok with toParent := ?_ }, id, id, owns, Or.inl⟩
      rintro _ p r ⟨⟩ here known sleeps l ⟨⟩
      rcases List.mem_cons.mp (ok.toParent _ p r rfl here known sleeps _ rfl) with rfl | member
      · exact (awake sleeps).elim
      · exact member
  · obtain rfl := Context.eq_thread mine
    have woke : ∀ i, s.initproc = some i → ¬ Asleep s i := fun i known sleeps => by
      cases ok.toInit _ i rfl known sleeps _ rfl
    refine ⟨{ ok with toInit := ?_, toParent := ?_ }, id, id, owns, fun _ => Or.inr woke⟩
    · rintro _ i ⟨⟩
    · rintro _ q r ⟨⟩ ⟨⟩ known sleeps
      rcases woken with orphan | same
      · rw [orphan] at known
        cases known
      · exact (woke r (same.symm.trans known) sleeps).elim
  · obtain rfl := Context.eq_thread mine
    have woke : ∀ i, s.initproc = some i → ¬ Asleep s i := fun i known sleeps => by
      cases ok.toInit _ i rfl known sleeps _ rfl
    refine ⟨{ ok with parentChan := ?_, toInit := ?_, toParent := ?_ }, id, id, owns,
      fun _ => Or.inr woke⟩
    · rintro chan ⟨⟩
      exact ⟨p, r, rfl, known, rfl⟩
    · rintro _ i ⟨⟩
    · rintro _ q r ⟨⟩ - - - l ⟨⟩
  · refine ⟨{ ok with unseen := ?_ }, id, id, owns, Or.inl⟩
    rintro _ p q ⟨⟩ rfl child
    rcases List.mem_cons.mp (ok.unseen _ p q rfl rfl child) with rfl | member
    · exact (other child.2.1).elim
    · exact member

theorem ContextOk.congr (ok : ContextOk s x k) (data : SameWait s t)
    (asleep : .wait ∈ k.held x.self → ∀ p, Asleep t p → Asleep s p) : ContextOk t x k := by
  refine ok.rely data.initproc asleep ?_ ?_ ?_ ?_
  · intro _ p q child
    unfold ZombieChild at child ⊢
    rwa [data.proc, data.allproc] at child
  · intro _ p _
    rw [data.proc]
  · intro p q _ _ listed child
    rw [data.allproc] at listed
    rw [data.proc] at child
    exact ⟨listed, child⟩
  · intro np _
    rw [data.proc]

/-- A step that adds no sleeper, no zombie, no process and no child. -/
structure Calm (s t : SchedState ncpus P) : Prop where
  initproc : t.initproc = s.initproc
  allproc : ∀ q, q ∈ t.allproc → q ∈ s.allproc
  parent : ∀ q, (t.proc q).parent = (s.proc q).parent
  zombie : ∀ q, (t.proc q).state = .zombie → (s.proc q).state = .zombie
  unlisted : ∀ q, q ∈ s.allproc → q ∈ t.allproc ∨ (s.proc q).state = .zombie
  allocated : ∀ i, s.initproc = some i → s.allocated i = true → (s.proc i).state ≠ .zombie →
    t.allocated i = true

theorem Calm.zombieChild (calm : Calm s t) (p q : P) (child : ZombieChild t p q) :
    ZombieChild s p q := by
  obtain ⟨listed, known, state⟩ := child
  exact ⟨calm.allproc q listed, by rwa [← calm.parent q], calm.zombie q state⟩

theorem SameWait.calm (data : SameWait s t) : Calm s t where
  initproc := data.initproc
  allproc q listed := by rwa [← data.allproc]
  parent q := by rw [data.proc]
  zombie q state := by rwa [← data.proc]
  unlisted q listed := Or.inl (by rwa [data.allproc])
  allocated i _ used _ := by rwa [data.allocated]

/-- The context `x` moves in a calm step. -/
theorem WaitOk.frame (ok : WaitOk s) (calm : Calm s t)
    (other : ∀ y, y ≠ x → t.code y = s.code y) (moved : ContextOk s x (t.code x))
    (asleep : ∀ p, Asleep t p → Asleep s p)
    (chan : ∀ p, (t.code (.thread p)).waits = true → (t.proc p).state = .sleeping →
      (t.proc p).chan = some (.proc p))
    (toInit : (s.code x).toInit.isSome = true → (t.code x).toInit.isSome = true ∨
      ∀ i, s.initproc = some i → ¬ Asleep s i)
    (owns : ∀ i, (t.code x).owns = some i → (s.code x).owns = some i) : WaitOk t := by
  have rely : ∀ y k, ContextOk s y k → ContextOk t y k := by
    intro y k before
    refine before.rely calm.initproc (fun _ => asleep) (fun _ => calm.zombieChild)
      (fun _ p _ => calm.parent p) ?_ (fun np _ => calm.parent np)
    intro p q _ _ listed child
    exact ⟨calm.allproc q listed, by rwa [← calm.parent q]⟩
  refine ⟨?_, chan, ?_, ?_, ?_⟩
  · intro y
    by_cases same : y = x
    · rw [same]
      exact rely x _ moved
    · rw [other y same]
      exact rely y _ (ok.context y)
  · intro p q sleeps child
    obtain ⟨known, y, waking⟩ := ok.missed p q (asleep p sleeps) (calm.zombieChild p q child)
    refine ⟨by rw [calm.initproc]; exact known, ?_⟩
    by_cases same : y = x
    · subst same
      rcases toInit waking with still | awake
      · exact ⟨y, still⟩
      · exact (awake p known (asleep p sleeps)).elim
    · exact ⟨y, by rwa [other y same]⟩
  · intro p q listed child
    rw [calm.parent] at child
    obtain ⟨alive, there⟩ := ok.parents p q (calm.allproc q listed) child
    refine ⟨fun state => alive (calm.zombie p state), ?_⟩
    rcases there with listed' | known
    · exact Or.inl ((calm.unlisted p listed').resolve_right alive)
    · exact Or.inr (by rwa [calm.initproc])
  · intro i known
    rw [calm.initproc] at known
    obtain ⟨alive, used, unowned⟩ := ok.init i known
    refine ⟨fun state => alive (calm.zombie i state), calm.allocated i known used alive, ?_⟩
    intro p owned
    by_cases same : Context.thread p = x
    · rw [same] at owned
      exact unowned p (by rw [same]; exact owns i owned)
    · rw [other _ same] at owned
      exact unowned p owned

variable [DecidableEq P]

theorem WaitOk.moved (ok : WaitOk s) (data : SameWait s t)
    (code : t.code = Function.update s.code x k') (moved : Moved s x (s.code x) k') :
    WaitOk t := by
  have self : t.code x = k' := by rw [code, Function.update_self]
  have other : ∀ y, y ≠ x → t.code y = s.code y := fun y distinct => by
    rw [code, Function.update_of_ne distinct]
  have view : ∀ (f : Code P → Bool), (f k' = true → f (s.code x) = true) →
      ∀ y, f (t.code y) = true → f (s.code y) = true := by
    intro f here y after
    by_cases same : y = x
    · rw [same] at after ⊢
      rw [self] at after
      exact here after
    · rwa [other y same] at after
  refine ok.frame (x := x) data.calm other (by rw [self]; exact moved.context) ?_ ?_
    (by rw [self]; exact moved.toInit) (by rw [self]; exact moved.owns)
  · intro p sleeps
    unfold Asleep at sleeps ⊢
    rw [data.proc] at sleeps
    exact sleeps.imp (view Code.dozes moved.dozes _)
      (And.imp_left (view Code.waits moved.waits _))
  · intro p waits sleeping
    rw [data.proc] at sleeping ⊢
    exact ok.chan p (view Code.waits moved.waits _ waits) sleeping

/-- `sleep` releases `wait_lock`: the scan has found no zombie, and nobody else is inside
`exit` or `wait`. -/
theorem WaitOk.fallAsleep (ok : WaitOk s) (sched : SchedOk s) (data : SameWait s t)
    (on : s.context c = some x) {chan : Chan P} {xs : Nat}
    (at_ : s.code x = .sleepLocked chan (.waitEnter xs))
    (code : t.code = Function.update s.code x (.sleepReleased chan (.waitEnter xs))) :
    WaitOk t := by
  have here := ok.context x
  rw [at_] at here
  obtain ⟨p, rfl, rfl⟩ := here.dozeChan _ rfl
  have self : t.code (.thread p) = .sleepReleased (.proc p) (.waitEnter xs) := by
    rw [code, Function.update_self]
  have other : ∀ y, y ≠ .thread p → t.code y = s.code y := fun y distinct => by
    rw [code, Function.update_of_ne distinct]
  have outside : ∀ y, y ≠ .thread p → .wait ∉ (s.code y).held y.self := fun y distinct =>
    sched.control.exclusive on (by simp [at_, Code.held]) (by simp) distinct
  have noZombie : ∀ q, ¬ ZombieChild s p q := fun q child => by
    cases here.unseen _ p q rfl rfl child
  have zombie : ∀ r q, ZombieChild t r q → ZombieChild s r q := by
    intro r q child
    unfold ZombieChild at child ⊢
    rwa [data.proc, data.allproc] at child
  refine ⟨?_, ?_, ?_, ?_, ?_⟩
  · intro y
    by_cases same : y = .thread p
    · rw [same, self]
      have after : ContextOk s (.thread p) (.sleepReleased (.proc p) (.waitEnter xs)) :=
        { here with unseen := by rintro l r q ⟨⟩ }
      exact after.congr data fun held => by simp [Code.held, Context.self] at held
    · rw [other y same]
      exact (ok.context y).congr data fun held => (outside y same held).elim
  · intro r waits sleeping
    rw [data.proc] at sleeping ⊢
    by_cases same : r = p
    · rw [same, self] at waits
      cases waits
    · rw [other _ (by simpa using same)] at waits
      exact ok.chan r waits sleeping
  · intro r q sleeps child
    have distinct : r ≠ p := by
      rintro rfl
      exact noZombie q (zombie r q child)
    have sleeps' : Asleep s r := by
      unfold Asleep at sleeps ⊢
      rwa [other _ (by simpa using distinct), data.proc] at sleeps
    obtain ⟨-, y, waking⟩ := ok.missed r q sleeps' (zombie r q child)
    by_cases same : y = .thread p
    · rw [same, at_] at waking
      cases waking
    · obtain ⟨todo, waking⟩ := Option.isSome_iff_exists.mp waking
      exact (outside y same (Code.held_of_toInit _ waking)).elim
  · rw [data.proc, data.allproc, data.initproc]
    exact ok.parents
  · intro i known
    rw [data.initproc] at known
    obtain ⟨alive, used, unowned⟩ := ok.init i known
    refine ⟨by rw [data.proc]; exact alive, by rw [data.allocated]; exact used, ?_⟩
    intro r
    by_cases same : r = p
    · rw [same, self]
      rintro ⟨⟩
    · rw [other _ (by simpa using same)]
      exact unowned r

end Proc

end Av6
