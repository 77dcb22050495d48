import Av6.WaitEffects

/-!
# New processes
-/

namespace Av6

namespace Proc

variable {ncpus : Nat} {P : Type*} [DecidableEq P] {s t : SchedState ncpus P}
  {c : Fin ncpus} {x : Context ncpus P} {p q np : P} {k k' : Code P}

section Steps

variable (ok : WaitOk s) (sched : SchedOk s)
include ok sched

/-- `allocproc` takes an object that nothing refers to. -/
theorem WaitOk.allocproc {pid : Nat} (on : s.context c = some x) (at_ : s.code x = .body)
    (object : s.allocated np = false) : WaitOk ((allocproc s np pid).goto x (.build np)) := by
  have off : x ≠ .thread np := by
    rintro rfl
    rcases s.context_eq_some on with ⟨q, running, same⟩ | ⟨-, same⟩ <;> cases same
    exact ((sched.token.free np object).2 c).1 (by rw [running]; rfl)
  have unlisted : np ∉ s.allproc := fun member => by
    rw [(sched.table.published np member).1] at object
    cases object
  have notInit : s.initproc ≠ some np := fun known => by
    rw [(ok.init np known).2.1] at object
    cases object
  set t := (Proc.allocproc s np pid).goto x (.build np) with ht
  have self : t.code x = .build np := Function.update_self ..
  have fresh : t.code (.thread np) = .forkret := by
    simp [ht, Proc.allocproc, SchedState.goto, off.symm]
  have other : ∀ y, y ≠ x → y ≠ .thread np → t.code y = s.code y := by
    intro y first second
    simp [ht, Proc.allocproc, SchedState.goto, first, second]
  have kept : ∀ q, q ≠ np → t.proc q = s.proc q := by
    intro q distinct
    simp [ht, Proc.allocproc, SchedState.goto, distinct]
  have parent : ∀ q, q ≠ np → (t.proc q).parent = (s.proc q).parent := fun q distinct => by
    rw [kept q distinct]
  have asleep : ∀ q, Asleep t q → q ≠ np ∧ Asleep s q := by
    intro q sleeps
    have distinct : q ≠ np := by
      rintro rfl
      simp [Asleep, fresh, Code.dozes, Code.waits] at sleeps
    refine ⟨distinct, ?_⟩
    unfold Asleep at sleeps ⊢
    by_cases same : Context.thread q = x
    · rw [same, self] at sleeps
      simp [Code.dozes, Code.waits] at sleeps
    · rwa [other _ same (by simpa using distinct), kept q distinct] at sleeps
  have listed : ∀ q, q ∈ s.allproc → q ≠ np := fun q member same => unlisted (same ▸ member)
  have zombie : ∀ r q, ZombieChild t r q → ZombieChild s r q := by
    rintro r q ⟨member, child, state⟩
    rw [kept q (listed q member)] at child state
    exact ⟨member, child, state⟩
  refine ⟨?_, ?_, ?_, ?_, ?_⟩
  · intro y
    by_cases first : y = x
    · rw [first, self]
      refine { ContextOk.body t x with orphan := ?_ }
      rintro _ ⟨⟩
      simp [ht, Proc.allocproc, SchedState.goto]
    · by_cases second : y = .thread np
      · rw [second, fresh]
        exact { ContextOk.body t (.thread np) with }
      · rw [other y first second]
        refine (ok.context y).rely rfl (fun _ q sleeps => (asleep q sleeps).2)
          (fun _ => zombie) ?_ ?_ ?_
        · rintro - r rfl
          exact parent r (by simpa using second)
        · intro r q _ _ member child
          rw [parent q (listed q member)] at child
          exact ⟨member, child⟩
        · intro np' owns
          refine parent np' ?_
          rintro rfl
          rw [(sched.token.owns y _ owns).1] at object
          cases object
  · intro q waits sleeping
    have distinct := (asleep q (Or.inr ⟨waits, sleeping⟩)).1
    rw [kept q distinct] at sleeping ⊢
    by_cases same : Context.thread q = x
    · rw [same, self] at waits
      cases waits
    · rw [other _ same (by simpa using distinct)] at waits
      exact ok.chan q waits sleeping
  · intro r q sleeps child
    obtain ⟨known, y, waking⟩ := ok.missed r q (asleep r sleeps).2 (zombie r q child)
    refine ⟨known, y, ?_⟩
    have busy : y ≠ x := by
      rintro rfl
      rw [at_] at waking
      cases waking
    by_cases same : y = .thread np
    · -- A free object runs no code.
      obtain ⟨todo, waking⟩ := Option.isSome_iff_exists.mp waking
      obtain ⟨d, on'⟩ := sched.control.active (by simp) (Code.held_of_toInit y.self waking)
      rw [same] at on'
      rcases s.context_eq_some on' with ⟨q, running, same⟩ | ⟨-, same⟩ <;> cases same
      exact (((sched.token.free np object).2 d).1 (by rw [running]; rfl)).elim
    · rwa [other y busy same]
  · intro r q member child
    rw [parent q (listed q member)] at child
    obtain ⟨alive, there⟩ := ok.parents r q member child
    have distinct : r ≠ np := by
      rintro rfl
      rcases there with member' | known
      · exact unlisted member'
      · exact notInit known
    exact ⟨by rw [kept r distinct]; exact alive, there⟩
  · intro i known
    obtain ⟨alive, used, unowned⟩ := ok.init i known
    have distinct : i ≠ np := by
      rintro rfl
      exact notInit known
    refine ⟨by rw [kept i distinct]; exact alive, ?_, ?_⟩
    · simpa [ht, Proc.allocproc, SchedState.goto, distinct] using used
    · intro r
      by_cases first : Context.thread r = x
      · rw [first, self]
        rintro ⟨⟩
        exact distinct rfl
      · by_cases second : r = np
        · rw [second, fresh]
          rintro ⟨⟩
        · rw [other _ first (by simpa using second)]
          exact unowned r

/-- `userinit` names the object that it has built. -/
theorem WaitOk.userinit (at_ : s.code (.sched c) = .build np) (first : s.initproc = none) :
    WaitOk ({ s with initproc := some np }.goto (.sched c) (.activate np none .body)) := by
  have owning : (s.code (.sched c)).owns = some np := by rw [at_]; rfl
  obtain ⟨used, private_⟩ := sched.token.owns _ _ owning
  have unborn := sched.token.unborn np private_
  set t := ({ s with initproc := some np } : SchedState ncpus P).goto (.sched c)
    (.activate np none .body) with ht
  have other : ∀ y, y ≠ .sched c → t.code y = s.code y := fun y distinct =>
    Function.update_of_ne distinct ..
  have thread : ∀ q, t.code (.thread q) = s.code (.thread q) := fun q => other _ (by simp)
  have asleep : ∀ q, Asleep t q → Asleep s q := by
    intro q sleeps
    unfold Asleep at sleeps ⊢
    rwa [thread] at sleeps
  have awake : ¬ Asleep t np := fun sleeps => by
    have sleeps' := asleep np sleeps
    simp [Asleep, unborn, Code.dozes, Code.waits] at sleeps'
  refine ⟨?_, ?_, ?_, ?_, ?_⟩
  · intro y
    by_cases same : y = .sched c
    · subst same
      have here := ok.context (.sched c)
      rw [at_] at here
      have self : t.code (.sched c) = .activate np none .body := Function.update_self ..
      rw [self]
      exact { ContextOk.body t (.sched c) with orphan := here.orphan }
    · rw [other y same]
      have here := ok.context y
      refine { here with initChan := ?_, toInit := ?_, exiting := ?_ , toParent := ?_ }
      · intro chan waking
        obtain ⟨i, known, -⟩ := here.initChan chan waking
        rw [first] at known
        cases known
      · rintro todo _ - ⟨⟩ sleeps
        exact (awake sleeps).elim
      · exact fun todo p r waking mine known sleeps =>
          here.toParent todo p r waking mine known (asleep r sleeps)
      · rintro _ exiting ⟨⟩ rfl
        rw [unborn] at exiting
        cases exiting
  · intro q waits sleeping
    rw [thread] at waits
    exact ok.chan q waits sleeping
  · intro r q sleeps child
    obtain ⟨known, -⟩ := ok.missed r q (asleep r sleeps) child
    rw [first] at known
    cases known
  · intro r q listed child
    obtain ⟨alive, there⟩ := ok.parents r q listed child
    refine ⟨alive, Or.inl (there.resolve_right ?_)⟩
    rw [first]
    rintro ⟨⟩
  · rintro _ ⟨⟩
    refine ⟨?_, used, ?_⟩
    · change (s.proc np).state ≠ .zombie
      rw [private_]
      rintro ⟨⟩
    · intro r owned
      rw [thread] at owned
      cases sched.token.owns_inj _ _ np owning owned

theorem WaitOk.procActivate {parent : Option P} (on : s.context c = some x)
    (at_ : s.code x = .activateLocked np parent k) :
    WaitOk ((procActivate s np parent).goto x (.activated np k)) := by
  have here := ok.context x
  have nested := sched.control.nested x
  rw [at_] at here nested
  have owning : (s.code x).owns = some np := by rw [at_]; rfl
  obtain ⟨used, private_⟩ := sched.token.owns _ _ owning
  have unborn := sched.token.unborn np private_
  have orphan : (s.proc np).parent = none := here.orphan np rfl
  set t := (Proc.procActivate s np parent).goto x (.activated np k) with ht
  have self : t.code x = .activated np k := Function.update_self ..
  have other : ∀ y, y ≠ x → t.code y = s.code y := fun y distinct =>
    Function.update_of_ne distinct ..
  have kept : ∀ q, q ≠ np → t.proc q = s.proc q := by
    intro q distinct
    simp [ht, Proc.procActivate, SchedState.goto, distinct]
  have child : (t.proc np).parent = parent := by
    cases parent <;> simp [ht, Proc.procActivate, SchedState.goto, orphan]
  have state : (t.proc np).state = .runnable := by
    simp [ht, Proc.procActivate, SchedState.goto]
  have members : ∀ q, q ∈ t.allproc ↔ q = np ∨ q ∈ s.allproc := by
    intro q
    simp [ht, Proc.procActivate, SchedState.goto]
  have asleep : ∀ q, Asleep t q → Asleep s q := by
    intro q sleeps
    unfold Asleep at sleeps ⊢
    by_cases mine : Context.thread q = x
    · rw [mine, self] at sleeps
      simp [Code.dozes, Code.waits] at sleeps
    · rw [other _ mine] at sleeps
      by_cases same : q = np
      · subst same
        simp [unborn, Code.dozes, Code.waits] at sleeps
      · rwa [kept q same] at sleeps
  have zombie : ∀ r q, ZombieChild t r q → ZombieChild s r q := by
    rintro r q ⟨listed, known, exited⟩
    have distinct : q ≠ np := by
      rintro rfl
      rw [state] at exited
      cases exited
    rw [kept q distinct] at known exited
    exact ⟨((members q).mp listed).resolve_left distinct, known, exited⟩
  have adopts : ∀ r, parent = some r → x = .thread r := fun r given =>
    here.parentToBe r given
  refine ⟨?_, ?_, ?_, ?_, ?_⟩
  · intro y
    by_cases same : y = x
    · rw [same, self]
      rcases nested with rfl | ⟨pid, rfl⟩ <;> exact { ContextOk.body t x with }
    · rw [other y same]
      refine (ok.context y).rely rfl (fun _ => asleep) (fun _ => zombie) ?_ ?_ ?_
      · rintro held r rfl
        rw [kept]
        -- A private object runs no code.
        rintro rfl
        rw [unborn] at held
        simp [Code.held, Context.self] at held
      · rintro r q done rfl listed known
        rcases (members q).mp listed with rfl | listed'
        · rw [child] at known
          exact (same (adopts r known).symm).elim
        · by_cases eq : q = np
          · subst eq
            rw [child] at known
            exact (same (adopts r known).symm).elim
          · rw [kept q eq] at known
            exact ⟨listed', known⟩
      · intro np' owns
        rw [kept]
        rintro rfl
        exact same (sched.token.owns_inj _ _ _ owns owning)
  · intro q waits sleeping
    by_cases mine : Context.thread q = x
    · rw [mine, self] at waits
      cases waits
    · rw [other _ mine] at waits
      have distinct : q ≠ np := by
        rintro rfl
        rw [state] at sleeping
        cases sleeping
      rw [kept q distinct] at sleeping ⊢
      exact ok.chan q waits sleeping
  · intro r q sleeps zombies
    obtain ⟨known, y, waking⟩ := ok.missed r q (asleep r sleeps) (zombie r q zombies)
    refine ⟨known, y, ?_⟩
    rw [other y]
    · exact waking
    · rintro rfl
      rw [at_] at waking
      cases waking
  · intro r q listed known
    by_cases same : q = np
    · subst same
      rw [child] at known
      have mine := adopts r known
      rw [mine] at on at_
      have running := sched.token.running c r (by
        rcases s.context_eq_some on with ⟨p, running, eq⟩ | ⟨-, eq⟩ <;> cases eq
        exact running)
      rw [at_] at running
      have distinct : r ≠ q := by
        rintro rfl
        rw [private_] at running
        cases running
      have member := sched.table.alive r (Or.inr (Or.inr running))
      rw [kept r distinct]
      exact ⟨by rw [running]; rintro ⟨⟩, Or.inl ((members r).mpr (Or.inr member))⟩
    · rw [kept q same] at known
      obtain ⟨alive, there⟩ := ok.parents r q (((members q).mp listed).resolve_left same) known
      refine ⟨?_, there.imp (fun member => (members r).mpr (Or.inr member)) id⟩
      by_cases eq : r = np
      · subst eq
        rw [state]
        rintro ⟨⟩
      · rwa [kept r eq]
  · intro i known
    obtain ⟨alive, used', unowned⟩ := ok.init i known
    refine ⟨?_, used', ?_⟩
    · by_cases eq : i = np
      · subst eq
        rw [state]
        rintro ⟨⟩
      · rwa [kept i eq]
    · intro r
      by_cases mine : Context.thread r = x
      · rw [mine, self]
        rintro ⟨⟩
      · rw [other _ mine]
        exact unowned r

end Steps

end Proc

end Av6
