import Av6.ProcDispatch

/-!
# The effects on processes and tables

Waking, becoming a zombie, being unlinked and freed, being built and published: each
is made by a context that holds the locks or the private object that it needs.
-/

namespace Av6

namespace Proc

variable {ncpus : Nat} {P : Type*} [DecidableEq P] {s : SchedState ncpus P}
  {c : Fin ncpus} {x : Context ncpus P} {p q np : P}

omit [DecidableEq P] in
theorem Code.held_of_scanned {k : Code P} (self : Option P) (member : q ∈ k.scanned) :
    .ptable ∈ k.held self := by
  cases k <;> simp_all [Code.scanned, Code.held]

omit [DecidableEq P] in
theorem Code.held_of_reaps {k : Code P} (self : Option P) (reaps : k.reaps = some np) :
    .wait ∈ k.held self := by
  cases k <;> simp_all [Code.reaps, Code.held]

omit [DecidableEq P] in
theorem Code.held_of_zombied {k : Code P} (zombied : k.zombied = true) :
    .proc p ∈ k.held (some p) := by
  cases k <;> simp_all [Code.zombied, Code.held]

omit [DecidableEq P] in
/-- A process with a token has been published. -/
theorem TokenOk.state_of_token (ok : TokenOk s) (taken : (s.cpu c).token = some q) :
    (s.proc q).state ≠ .unused ∧ (s.proc q).state ≠ .used := by
  obtain ⟨runqNodup, runqOk, tokenInj, ready, running, back, runnable, requeued, unborn,
    suspended, sleeping, free, owns, ownsInj, reaps⟩ := ok
  cases at_ : s.cpu c <;> grind [CpuPc.token]

omit [DecidableEq P] in
/-- While a context holds `q->lock`, no CPU is between the switch away from `q` and the
release of that lock. -/
theorem ControlOk.not_leaving (ok : ControlOk s) (on : s.context c = some x)
    (held : .proc q ∈ (s.code x).held x.self) (d : Fin ncpus) :
    s.cpu d ≠ .switchedBack q ∧ s.cpu d ≠ .requeued q := by
  have first := (ok.locks c (.proc q)).mpr (by rwa [s.heldBy_of_context on])
  constructor <;> intro leaving <;>
    have second := (ok.locks d (.proc q)).mpr (by simp [SchedState.heldBy, leaving]) <;>
    rw [first] at second <;> cases second <;> simp [SchedState.context, leaving] at on

/-- A sleeper whose lock is held is on no queue and on no CPU. -/
theorem SchedOk.rouse (ok : SchedOk s) (asleep : (s.proc q).state = .sleeping)
    (locked : ∀ d, s.cpu d ≠ .switchedBack q) : SchedOk (s.rouse q) := by
  obtain ⟨control, token, table⟩ := ok
  have untaken : ∀ d, (s.cpu d).token ≠ some q := by
    intro d taken
    cases at_ : s.cpu d with
    | dequeued r =>
        rw [at_] at taken
        cases taken
        simp [token.ready d q (Or.inl at_)] at asleep
    | dispatching r =>
        rw [at_] at taken
        cases taken
        simp [token.ready d q (Or.inr at_)] at asleep
    | running r =>
        rw [at_] at taken
        cases taken
        rw [token.running d q at_] at asleep
        split at asleep <;> cases asleep
    | switchedBack r =>
        rw [at_] at taken
        cases taken
        exact locked d at_
    | _ => rw [at_] at taken; cases taken
  have unqueued : q ∉ s.runq := by
    intro member
    simp [(token.runq_ok q member).1] at asleep
  have used := (table.published q (table.alive q (Or.inr (Or.inl asleep)))).1
  refine ⟨{ control with }, ?_, ?_⟩
  · obtain ⟨runqNodup, runqOk, tokenInj, ready, running, back, runnable, requeued, unborn,
      suspended, sleeping, free, owns, ownsInj, reaps⟩ := token
    constructor <;>
      simp only [SchedState.rouse, SchedState.enqueue, SchedState.setProc,
        Function.update_apply, List.mem_append, List.mem_singleton] <;>
      grind
  · obtain ⟨nodup, published, alive, hashed, hashNodup, scanned, reaped⟩ := table
    constructor <;>
      simp only [SchedState.rouse, SchedState.enqueue, SchedState.setProc,
        Function.update_apply] <;>
      grind

/-- The position of a context moves, and the locks stay. -/
theorem ControlOk.goto (ok : ControlOk s) (token : TokenOk s) {t : SchedState ncpus P}
    {k : Code P} (on : s.context c = some x) (cpu : t.cpu = s.cpu)
    (current : t.current = s.current) (locks : t.locks = s.locks)
    (code : t.code = Function.update s.code x k) (nested : k.Nested)
    (held : k.held x.self = (s.code x).held x.self) : ControlOk t := by
  have self : t.code x = k := by rw [code, Function.update_self]
  refine ok.move token on cpu current ?_ (by rwa [self]) ?_ ?_
  · intro y distinct
    rw [code, Function.update_of_ne distinct]
  · intro l
    rw [locks, self, held, ← s.heldBy_of_context on]
    exact ok.locks c l
  · intro d l _
    rw [locks]

theorem SchedOk.becomeZombie (ok : SchedOk s) {st : Int} (on : s.cpu c = .running p)
    (at_ : s.code (.thread p) = .exitOwn st) :
    SchedOk ((becomeZombie s p st).goto (.thread p) .exitZombie) := by
  have context : s.context c = some (.thread p) := by simp [SchedState.context, on]
  have alone : ∀ d, s.cpu d = .running p → d = c := by
    intro d running
    exact ok.token.token_inj d c p (by rw [running]; rfl) (by rw [on]; rfl)
  have state : (s.proc p).state = .running := by
    rw [ok.token.running c p on, at_]
    rfl
  have listed := ok.table.alive p (Or.inr (Or.inr state))
  refine ⟨ok.control.goto ok.token context rfl rfl rfl rfl trivial (by rw [at_]; rfl), ?_, ?_⟩
  · obtain ⟨runqNodup, runqOk, tokenInj, ready, running, back, runnable, requeued, unborn,
      suspended, sleeping, free, owns, ownsInj, reaps⟩ := ok.token
    constructor <;>
      simp only [Proc.becomeZombie, SchedState.setProc, SchedState.goto,
        Function.update_apply] <;>
      grind [Code.zombied, Code.owns, Code.reaps]
  · obtain ⟨nodup, published, alive, hashed, hashNodup, scanned, reaped⟩ := ok.table
    constructor <;>
      simp only [Proc.becomeZombie, SchedState.setProc, SchedState.goto,
        Function.update_apply] <;>
      grind [Code.scanned, Code.reaps]

omit [DecidableEq P] in
/-- No CPU runs a zombie whose lock the waiter holds. -/
theorem SchedOk.untaken_of_zombie (ok : SchedOk s) (on : s.context c = some x)
    (held : .proc np ∈ (s.code x).held x.self) (exited : (s.proc np).state = .zombie)
    (alive : x ≠ .thread np) (d : Fin ncpus) : (s.cpu d).token ≠ some np := by
  intro taken
  cases at_ : s.cpu d with
  | dequeued r =>
      rw [at_] at taken
      cases taken
      simp [ok.token.ready d np (Or.inl at_)] at exited
  | dispatching r =>
      rw [at_] at taken
      cases taken
      simp [ok.token.ready d np (Or.inr at_)] at exited
  | running r =>
      rw [at_] at taken
      cases taken
      -- A zombie still on its CPU is inside `exit` and holds its own lock.
      have own : .proc np ∈ s.heldBy d := by
        have state := ok.token.running d np at_
        rw [exited] at state
        simp only [SchedState.heldBy, at_]
        refine Code.held_of_zombied ?_
        by_contra running
        simp [running] at state
      have first := (ok.control.locks c (.proc np)).mpr (by rwa [s.heldBy_of_context on])
      have second := (ok.control.locks d (.proc np)).mpr own
      rw [first] at second
      cases second
      simp only [SchedState.context, at_, Option.some.injEq] at on
      exact alive on.symm
  | switchedBack r =>
      rw [at_] at taken
      cases taken
      exact (ok.control.not_leaving on held d).1 at_
  | _ => rw [at_] at taken; cases taken

theorem SchedOk.unlink (ok : SchedOk s) {xstatus : Nat} {todo : List P}
    (result : WaitRecord P) (on : s.cpu c = .running p)
    (at_ : s.code (.thread p) = .waitLocked xstatus np todo)
    (exited : (s.proc np).state = .zombie) :
    SchedOk ((unlink s np).goto (.thread p) (.waitUnlinked np result)) := by
  have context : s.context c = some (.thread p) := by simp [SchedState.context, on]
  have listed : np ∈ s.allproc := ok.table.scanned (.thread p) np (by simp [at_, Code.scanned])
  have alive : Context.thread p ≠ (.thread np : Context ncpus P) := by
    rintro ⟨⟩
    rw [ok.token.running c p on, at_] at exited
    cases exited
  have untaken := ok.untaken_of_zombie context (by simp [at_, Code.held]) exited alive
  have gone := ok.control.not_leaving context (q := np) (by simp [at_, Code.held])
  have unscanned : ∀ y, y ≠ .thread p → (s.code y).scanned = [] := by
    intro y other
    have free := ok.control.exclusive context (l := .ptable) (by simp [at_, Code.held])
      (by simp) other
    refine List.eq_nil_iff_forall_not_mem.mpr fun q member => free ?_
    exact Code.held_of_scanned y.self member
  refine ⟨ok.control.goto ok.token context rfl rfl rfl rfl trivial (by rw [at_]; rfl), ?_, ?_⟩
  · have used := (ok.table.published np listed).1
    obtain ⟨runqNodup, runqOk, tokenInj, ready, running, back, runnable, requeued, unborn,
      suspended, sleeping, free, owns, ownsInj, reaps⟩ := ok.token
    constructor <;>
      simp only [Proc.unlink, SchedState.goto, Function.update_apply] <;>
      grind [Code.zombied, Code.owns, Code.reaps]
  · obtain ⟨nodup, published, alive, hashed, hashNodup, scanned, reaped⟩ := ok.table
    constructor <;>
      simp only [Proc.unlink, SchedState.goto, Function.update_apply, nodup.mem_erase_iff]
    · exact nodup.erase np
    · grind
    · grind
    · intro b q
      split
      next same =>
        subst same
        rw [(hashNodup _).mem_erase_iff, hashed]
        tauto
      next other =>
        rw [hashed]
        grind
    · intro b
      split
      · exact (hashNodup _).erase np
      · exact hashNodup b
    · grind [Code.scanned]
    · grind [Code.reaps]

theorem SchedOk.freeproc (ok : SchedOk s) {result : WaitRecord P}
    (on : s.cpu c = .running p) (at_ : s.code (.thread p) = .waitFree np result) :
    SchedOk ((freeproc s np).goto (.thread p) (.waitFreed result)) := by
  have context : s.context c = some (.thread p) := by simp [SchedState.context, on]
  have unreaped : ∀ y, y ≠ .thread p → (s.code y).reaps = none := by
    intro y other
    have free := ok.control.exclusive context (l := .wait) (by simp [at_, Code.held])
      (by simp) other
    cases reaps : (s.code y).reaps with
    | none => rfl
    | some r => exact (free (Code.held_of_reaps y.self reaps)).elim
  have reaping : (s.code (.thread p)).reaps = some np := by rw [at_]; rfl
  obtain ⟨-, exited, untaken⟩ := ok.token.reaps _ _ reaping
  have unlisted := ok.table.reaped _ _ reaping
  refine ⟨ok.control.goto ok.token context rfl rfl rfl rfl trivial (by rw [at_]; rfl), ?_, ?_⟩
  · obtain ⟨runqNodup, runqOk, tokenInj, ready, running, back, runnable, requeued, unborn,
      suspended, sleeping, free, owns, ownsInj, reaps⟩ := ok.token
    constructor <;>
      simp only [Proc.freeproc, SchedState.goto, Function.update_apply] <;>
      grind [Code.zombied, Code.owns, Code.reaps]
  · obtain ⟨nodup, published, alive, hashed, hashNodup, scanned, reaped⟩ := ok.table
    constructor <;>
      simp only [Proc.freeproc, SchedState.goto, Function.update_apply] <;>
      grind [Code.scanned, Code.reaps]

/-- `fork` gives the private object back. -/
theorem SchedOk.abandon (ok : SchedOk s) (on : s.cpu c = .running p)
    (at_ : s.code (.thread p) = .build np) :
    SchedOk ((Proc.freeproc s np).goto (.thread p) .body) := by
  have context : s.context c = some (.thread p) := by simp [SchedState.context, on]
  have owning : (s.code (.thread p)).owns = some np := by rw [at_]; rfl
  obtain ⟨-, private_⟩ := ok.token.owns _ _ owning
  have untaken : ∀ d, (s.cpu d).token ≠ some np := fun d taken =>
    (ok.token.state_of_token taken).2 private_
  have gone : ∀ d, s.cpu d ≠ .requeued np := fun d leaving =>
    (ok.token.requeued d np leaving).2 private_
  refine ⟨ok.control.goto ok.token context rfl rfl rfl rfl trivial (by rw [at_]; rfl), ?_, ?_⟩
  · obtain ⟨runqNodup, runqOk, tokenInj, ready, running, back, runnable, requeued, unborn,
      suspended, sleeping, free, owns, ownsInj, reaps⟩ := ok.token
    constructor <;>
      simp only [Proc.freeproc, SchedState.goto, Function.update_apply] <;>
      grind [Code.zombied, Code.owns, Code.reaps]
  · obtain ⟨nodup, published, alive, hashed, hashNodup, scanned, reaped⟩ := ok.table
    constructor <;>
      simp only [Proc.freeproc, SchedState.goto, Function.update_apply] <;>
      grind [Code.scanned, Code.reaps]

theorem SchedOk.procActivate (ok : SchedOk s) {parent : Option P} {k : Code P}
    (on : s.context c = some x) (at_ : s.code x = .activateLocked np parent k) :
    SchedOk ((procActivate s np parent).goto x (.activated np k)) := by
  have nested := ok.control.nested x
  rw [at_] at nested
  have owning : (s.code x).owns = some np := by rw [at_]; rfl
  obtain ⟨used, private_⟩ := ok.token.owns _ _ owning
  have untaken : ∀ d, (s.cpu d).token ≠ some np := fun d taken =>
    (ok.token.state_of_token taken).2 private_
  have unlisted : np ∉ s.allproc := fun member =>
    (ok.table.published np member).2.2 private_
  have unreaped : ∀ y, (s.code y).reaps ≠ some np := by
    intro y reaps
    rw [(ok.token.reaps y np reaps).2.1] at private_
    cases private_
  have unscanned : ∀ y, y ≠ x → (s.code y).scanned = [] := by
    intro y other
    have free := ok.control.exclusive on (l := .ptable) (by simp [at_, Code.held])
      (by simp) other
    refine List.eq_nil_iff_forall_not_mem.mpr fun q member => free ?_
    exact Code.held_of_scanned y.self member
  refine ⟨ok.control.goto ok.token on rfl rfl rfl rfl nested (by rw [at_]; rfl), ?_, ?_⟩
  · have unborn := ok.token.unborn np private_
    obtain ⟨runqNodup, runqOk, tokenInj, ready, running, back, runnable, requeued, unborn,
      suspended, sleeping, free, owns, ownsInj, reaps⟩ := ok.token
    constructor <;>
      simp only [Proc.procActivate, SchedState.goto, Function.update_apply, List.mem_append,
        List.mem_singleton] <;>
      grind [Code.zombied, Code.owns, Code.reaps, Code.suspended]
  · obtain ⟨nodup, published, alive, hashed, hashNodup, scanned, reaped⟩ := ok.table
    constructor <;>
      simp only [Proc.procActivate, SchedState.goto, Function.update_apply,
        List.mem_cons] <;>
      grind [Code.scanned, Code.reaps]

end Proc

end Av6
