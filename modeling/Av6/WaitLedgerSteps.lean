import Av6.WaitLedger

/-!
# How the steps write the ledger
-/

namespace Av6

namespace Proc

variable {ncpus nslots : Nat} {P : Type*} {s t : SchedState ncpus P}
  {c : Fin ncpus} {x : Context ncpus P} {p q np : P} {k k' : Code P} {l : Lock P}

theorem Code.held_of_found (self : Option P) (found : k.found = some np) :
    .ptable ∈ k.held self ∧ np ∈ k.scanned := by
  cases k <;> simp_all [Code.found, Code.held, Code.scanned]

theorem Code.found_of_failed (failed : k.failed = some np) : k.found = some np := by
  cases k <;> simp_all [Code.found, Code.failed]

theorem Code.held_of_result (self : Option P) {r : WaitRecord P} (returning : k.result = some r) :
    .wait ∈ k.held self := by
  cases k <;> simp_all [Code.result, Code.held]

/-- The history and the exit records stay the same. -/
structure SameRecords (s t : SchedState ncpus P) : Prop where
  births : t.births = s.births
  exits : t.exits = s.exits
  returns : t.returns = s.returns
  allocated : t.allocated = s.allocated
  record : ∀ p, exitRecord t p = exitRecord s p
  zombie : ∀ p, (t.proc p).state = .zombie ↔ (s.proc p).state = .zombie
  listed : ∀ q, q ∈ s.allproc → q ∈ t.allproc

theorem SameRecords.of_proc (births : t.births = s.births) (exits : t.exits = s.exits)
    (returns : t.returns = s.returns) (allocated : t.allocated = s.allocated)
    (proc : t.proc = s.proc) (allproc : t.allproc = s.allproc) : SameRecords s t where
  births := births
  exits := exits
  returns := returns
  allocated := allocated
  record p := by rw [exitRecord, proc, exitRecord]
  zombie p := by rw [proc]
  listed q listed := by rwa [allproc]

theorem LedgerOk.moved (ok : LedgerOk s) (same : SameRecords s t)
    (other : ∀ y, y ≠ x → t.code y = s.code y)
    (move : LedgerMove s x.self (s.code x) (t.code x))
    (parent : ∀ np, (∃ y, (s.code y).found = some np) ∨ (t.code x).found = some np →
      (t.proc np).parent = (s.proc np).parent) : LedgerOk t := by
  have result : ∀ y, (t.code y).result = (s.code y).result := by
    intro y
    by_cases eq : y = x
    · rw [eq, move.result]
    · rw [other y eq]
  have reaps : ∀ y, (t.code y).reaps = (s.code y).reaps := by
    intro y
    by_cases eq : y = x
    · rw [eq, move.reaps]
    · rw [other y eq]
  refine ok.frame { same with result := result, reaps := reaps } ?_ ?_
  · intro p np found
    by_cases eq : Context.thread p = x
    · subst eq
      rw [parent np (Or.inr found)]
      exact (move.found np found).elim (ok.found p np) id
    · rw [other _ eq] at found
      rw [parent np (Or.inl ⟨_, found⟩)]
      exact ok.found p np found
  · intro y np failed
    rw [same.zombie]
    by_cases eq : y = x
    · rw [eq] at failed
      exact (move.failed np failed).elim (ok.failed x np) id
    · rw [other y eq] at failed
      exact ok.failed y np failed

/-- A step that leaves the processes and the history alone. -/
theorem LedgerOk.congr (ok : LedgerOk s) (same : SameRecords s t) (proc : t.proc = s.proc)
    (code : t.code = s.code) : LedgerOk t := by
  refine ok.frame { same with result := ?_, reaps := ?_ } ?_ ?_ <;>
    simp only [code, proc, implies_true]
  · exact ok.found
  · exact ok.failed

theorem LedgerMove.refl (s : SchedState ncpus P) (self : Option P) (k : Code P) :
    LedgerMove s self k k :=
  ⟨rfl, rfl, fun _ => Or.inl, fun _ => Or.inl⟩

variable [DecidableEq P]

/-- A change of the data of `q` that the ledger ignores. -/
theorem SameRecords.setProc {proc : ProcData P} (record : proc.birth = (s.proc q).birth ∧
      proc.pid = (s.proc q).pid ∧ proc.xstate = (s.proc q).xstate)
    (zombie : proc.state = .zombie ↔ (s.proc q).state = .zombie)
    (proc_ : t.proc = Function.update s.proc q proc) (births : t.births = s.births)
    (exits : t.exits = s.exits) (returns : t.returns = s.returns)
    (allocated : t.allocated = s.allocated) (allproc : t.allproc = s.allproc) :
    SameRecords s t where
  births := births
  exits := exits
  returns := returns
  allocated := allocated
  record p := by
    rw [exitRecord, proc_, exitRecord]
    by_cases same : p = q
    · subst same
      rw [Function.update_self, record.1, record.2.1, record.2.2]
    · rw [Function.update_of_ne same]
  zombie p := by
    rw [proc_]
    by_cases same : p = q
    · subst same
      rw [Function.update_self]
      exact zombie
    · rw [Function.update_of_ne same]
  listed r listed := by rwa [allproc]

theorem LedgerOk.setProc (ok : LedgerOk s) (proc : ProcData P)
    (record : proc.birth = (s.proc q).birth ∧ proc.pid = (s.proc q).pid ∧
      proc.xstate = (s.proc q).xstate)
    (zombie : proc.state = .zombie ↔ (s.proc q).state = .zombie)
    (parent : proc.parent = (s.proc q).parent)
    (proc_ : t.proc = Function.update s.proc q proc) (births : t.births = s.births)
    (exits : t.exits = s.exits) (returns : t.returns = s.returns)
    (allocated : t.allocated = s.allocated) (allproc : t.allproc = s.allproc)
    (other : ∀ y, y ≠ x → t.code y = s.code y)
    (move : LedgerMove s x.self (s.code x) (t.code x)) : LedgerOk t := by
  refine ok.moved (x := x) (.setProc record zombie proc_ births exits returns allocated allproc)
    other move ?_
  intro np _
  rw [proc_]
  by_cases same : np = q
  · subst same
    rw [Function.update_self, parent]
  · rw [Function.update_of_ne same]

section Steps

variable (ok : LedgerOk s) (sched : SchedOk s)
include ok sched

theorem LedgerOk.becomeZombie {st : Int} (on : s.cpu c = .running p)
    (at_ : s.code (.thread p) = .exitOwn st) :
    LedgerOk ((becomeZombie s p st).goto (.thread p) .exitZombie) := by
  have state : (s.proc p).state = .running := by
    rw [sched.token.running c p on, at_]
    rfl
  have listed := sched.table.alive p (Or.inr (Or.inr state))
  have used := (sched.table.published p listed).1
  have reaped := sched.token.reaps
  obtain ⟨birthLt, birthInj, exitsLt, exitsNodup, alive, zombie, found, failed, result, reaping,
    freed, returns, returnsNodup, accounted⟩ := ok
  have fresh := alive p used (by rw [state]; rintro ⟨⟩)
  constructor <;>
    simp only [Proc.becomeZombie, SchedState.setProc, SchedState.goto, exitRecord,
      Function.update_apply, List.map_cons, List.nodup_cons, List.mem_cons, List.mem_map] at * <;>
    grind [Code.found, Code.failed, Code.result, Code.reaps]

theorem LedgerOk.unlink {xstatus : Nat} {todo : List P}
    (at_ : s.code (.thread p) = .waitLocked xstatus np todo)
    (exited : (s.proc np).state = .zombie) :
    LedgerOk ((unlink s np).goto (.thread p)
      (.waitUnlinked np ⟨exitRecord s np, p, (s.proc np).parent⟩)) := by
  have listed : np ∈ s.allproc :=
    sched.table.scanned (.thread p) np (by simp [at_, Code.scanned])
  have used := (sched.table.published np listed).1
  have nodup := sched.table.nodup
  have parent := ok.found p np (by rw [at_]; rfl)
  obtain ⟨birthLt, birthInj, exitsLt, exitsNodup, alive, zombie, found, failed, result, reaping,
    freed, returns, returnsNodup, accounted⟩ := ok
  have recorded := zombie np used exited
  constructor
  case accounted =>
    intro e member
    rcases accounted e member with ⟨q, there, dead, same⟩ | ⟨y, r, returning, same⟩ | returned
    · by_cases taken : q = np
      · refine Or.inr (Or.inl ⟨.thread p, ⟨exitRecord s np, p, (s.proc np).parent⟩, ?_, ?_⟩)
        · simp only [Proc.unlink, SchedState.goto, Function.update_self]
          rfl
        · rw [← same, taken]
      · exact Or.inl ⟨q, (List.mem_erase_of_ne taken).mpr there, dead, same⟩
    · have other : y ≠ .thread p := by
        rintro rfl
        rw [at_] at returning
        cases returning
      refine Or.inr (Or.inl ⟨y, r, ?_, same⟩)
      simpa only [Proc.unlink, SchedState.goto, Function.update_of_ne other] using returning
    · exact Or.inr (Or.inr returned)
  all_goals
    simp only [Proc.unlink, SchedState.goto, exitRecord, Function.update_apply] at *
    grind [Code.found, Code.failed, Code.result, Code.reaps]

theorem LedgerOk.freeproc {r : WaitRecord P} (on : s.cpu c = .running p)
    (at_ : s.code (.thread p) = .waitFree np r) :
    LedgerOk ((freeproc s np).goto (.thread p) (.waitFreed r)) := by
  have unlisted := sched.table.reaped (.thread p) np (by rw [at_]; rfl)
  have used := sched.token.reaps (.thread p) np (by rw [at_]; rfl)
  have context : s.context c = some (.thread p) := by simp [SchedState.context, on]
  have outside : ∀ y, y ≠ .thread p → (s.code y).result = none := by
    intro y other
    cases returning : (s.code y).result with
    | none => rfl
    | some r' =>
        have held := Code.held_of_result y.self returning
        exact (sched.control.exclusive context (by simp [at_, Code.held]) (by simp) other
          held).elim
  have record := ok.reaping (.thread p) r np (by rw [at_]; rfl) (by rw [at_]; rfl)
  obtain ⟨birthLt, birthInj, exitsLt, exitsNodup, alive, zombie, found, failed, result, reaping,
    freed, returns, returnsNodup, accounted⟩ := ok
  constructor <;>
    simp only [Proc.freeproc, SchedState.goto, exitRecord, Function.update_apply] at * <;>
    grind [Code.found, Code.failed, Code.result, Code.reaps]

theorem LedgerOk.waitReturn {r : WaitRecord P} (on : s.cpu c = .running p)
    (at_ : s.code (.thread p) = .waitFreed r) :
    LedgerOk (({ s with returns := r :: s.returns }.setLock .wait none).setResult p
      r.child.pid |>.goto (.thread p) .body) := by
  have context : s.context c = some (.thread p) := by simp [SchedState.context, on]
  have outside : ∀ y, y ≠ .thread p → (s.code y).result = none := by
    intro y other
    cases returning : (s.code y).result with
    | none => rfl
    | some r' =>
        have held := Code.held_of_result y.self returning
        exact (sched.control.exclusive context (by simp [at_, Code.held]) (by simp) other
          held).elim
  have mine := ok.result (.thread p) r (by rw [at_]; rfl)
  have gone := ok.freed (.thread p) r (by rw [at_]; rfl) (by rw [at_]; rfl)
  obtain ⟨birthLt, birthInj, exitsLt, exitsNodup, alive, zombie, found, failed, result, reaping,
    freed, returns, returnsNodup, accounted⟩ := ok
  constructor <;>
    simp only [SchedState.setLock, SchedState.setResult, SchedState.goto, exitRecord,
      Function.update_apply, List.map_cons, List.nodup_cons, List.mem_cons, List.mem_map] at * <;>
    grind [Code.found, Code.failed, Code.result, Code.reaps]

theorem LedgerOk.allocproc {pid : Nat} (on : s.context c = some x) (at_ : s.code x = .body)
    (object : s.allocated np = false) : LedgerOk ((allocproc s np pid).goto x (.build np)) := by
  have unlisted : np ∉ s.allproc := fun member => by
    rw [(sched.table.published np member).1] at object
    cases object
  have unseen : ∀ y, (s.code y).found ≠ some np := fun y found =>
    unlisted (sched.table.scanned y np (Code.held_of_found y.self found).2)
  have unfailed : ∀ y, (s.code y).failed ≠ some np := fun y failed =>
    unseen y (Code.found_of_failed failed)
  have unreaped : ∀ y, (s.code y).reaps ≠ some np := fun y reaps => by
    rw [(sched.token.reaps y np reaps).1] at object
    cases object
  have idle : (s.code (.thread np)).result = none := by
    cases returning : (s.code (.thread np)).result with
    | none => rfl
    | some r =>
        obtain ⟨d, on'⟩ := sched.control.active (by simp)
          (Code.held_of_result (Context.thread np : Context ncpus P).self returning)
        rcases s.context_eq_some on' with ⟨q, running, same⟩ | ⟨-, same⟩ <;> cases same
        exact (((sched.token.free np object).2 d).1 (by rw [running]; rfl)).elim
  have reaps : (s.code (.thread np)).reaps = none := by
    cases at_ : s.code (.thread np) <;> simp_all [Code.result, Code.reaps]
  obtain ⟨birthLt, birthInj, exitsLt, exitsNodup, alive, zombie, found, failed, result, reaping,
    freed, returns, returnsNodup, accounted⟩ := ok
  constructor
  case accounted =>
    intro e member
    rcases accounted e member with ⟨q, there, dead, same⟩ | ⟨y, r, returning, same⟩ | returned
    · have other : q ≠ np := by
        rintro rfl
        exact unlisted there
      refine Or.inl ⟨q, there, ?_, ?_⟩
      · simpa [Proc.allocproc, SchedState.goto, other] using dead
      · simpa [Proc.allocproc, SchedState.goto, exitRecord, other] using same
    · have here : y ≠ x := by
        rintro rfl
        rw [at_] at returning
        cases returning
      have other : y ≠ .thread np := by
        rintro rfl
        rw [idle] at returning
        cases returning
      refine Or.inr (Or.inl ⟨y, r, ?_, same⟩)
      simpa [Proc.allocproc, SchedState.goto, here, other] using returning
    · exact Or.inr (Or.inr returned)
  all_goals
    simp only [Proc.allocproc, SchedState.goto, exitRecord, Function.update_apply] at *
    grind [Code.found, Code.failed, Code.result, Code.reaps]

omit sched in
theorem LedgerOk.abandon (at_ : s.code (.thread p) = .build np) :
    LedgerOk (((Proc.freeproc s np).setResult p (-1)).goto (.thread p) .body) := by
  obtain ⟨birthLt, birthInj, exitsLt, exitsNodup, alive, zombie, found, failed, result, reaping,
    freed, returns, returnsNodup, accounted⟩ := ok
  constructor <;>
    simp only [Proc.freeproc, SchedState.setResult, SchedState.goto, exitRecord,
      Function.update_apply] at * <;>
    grind [Code.found, Code.failed, Code.result, Code.reaps]

/-- Only the children that `exit` hands over change their parent, and no `wait` is
looking at one. -/
theorem LedgerOk.reparent {st : Int} (on : s.cpu c = .running p)
    (at_ : s.code (.thread p) = .exitScan st) :
    LedgerOk ((reparent s p).goto (.thread p) (.exitReparented st)) := by
  have context : s.context c = some (.thread p) := by simp [SchedState.context, on]
  refine ok.moved (x := .thread p) ⟨rfl, rfl, rfl, rfl, ?_, ?_, fun _ => id⟩
    (fun y distinct => Function.update_of_ne distinct ..) ?_ ?_
  · intro q
    simp only [exitRecord, Proc.reparent, SchedState.goto]
    split <;> rfl
  · intro q
    simp only [Proc.reparent, SchedState.goto]
    split <;> rfl
  · simp only [SchedState.goto, Function.update_self, at_]
    exact .of_quiet ⟨rfl, rfl⟩ rfl rfl rfl
  · intro np found
    simp only [SchedState.goto, Function.update_self] at found
    rcases found with ⟨y, found⟩ | ⟨⟨⟩⟩
    have other : y ≠ .thread p := by
      rintro rfl
      rw [at_] at found
      cases found
    exact (sched.control.exclusive context (by simp [at_, Code.held]) (by simp) other
      (Code.held_of_found y.self found).1).elim

theorem LedgerOk.procActivate {parent : Option P}
    (at_ : s.code x = .activateLocked np parent k) :
    LedgerOk ((procActivate s np parent).goto x (.activated np k)) := by
  have state := (sched.token.owns x np (by rw [at_]; rfl)).2
  have unlisted : np ∉ s.allproc := fun member => (sched.table.published np member).2.2 state
  refine ok.moved (x := x) ⟨rfl, rfl, rfl, rfl, ?_, ?_, fun q => List.mem_cons_of_mem _⟩
    (fun y distinct => Function.update_of_ne distinct ..) ?_ ?_
  · intro q
    simp only [exitRecord, Proc.procActivate, SchedState.goto, Function.update_apply]
    split
    · rename_i same
      rw [same]
    · rfl
  · intro q
    simp only [Proc.procActivate, SchedState.goto, Function.update_apply]
    split
    · rename_i same
      simp [same, state]
    · rfl
  · simp only [SchedState.goto, Function.update_self, at_]
    exact .of_quiet ⟨rfl, rfl⟩ rfl rfl rfl
  · intro q found
    simp only [SchedState.goto, Function.update_self] at found
    rcases found with ⟨y, found⟩ | ⟨⟨⟩⟩
    have other : q ≠ np := by
      rintro rfl
      exact unlisted (sched.table.scanned y q (Code.held_of_found y.self found).2)
    simp [Proc.procActivate, SchedState.goto, other]

end Steps

end Proc

end Av6
