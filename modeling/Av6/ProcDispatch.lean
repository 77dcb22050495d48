import Av6.ProcMoves

/-!
# The steps of `scheduler` and of the context switch

The token of a process passes from the run queue to the CPU that dequeues it, and back
when the process has switched away and is still runnable.
-/

namespace Av6

namespace Proc

variable {ncpus : Nat} {P : Type*} {s : SchedState ncpus P} {c : Fin ncpus} {p : P}

section Token

variable (ok : TokenOk s)
include ok

theorem TokenOk.enterScheduler (on : s.cpu c = .boot) : TokenOk (s.setCpu c .loop) := by
  obtain ⟨runqNodup, runqOk, tokenInj, ready, running, back, runnable, requeued, unborn,
    suspended, sleeping, free, owns, ownsInj, reaps⟩ := ok
  constructor <;> simp only [SchedState.setCpu, Function.update_apply] <;>
    grind [CpuPc.token]

theorem TokenOk.dequeue {rest : List P} (on : s.cpu c = .loop) (first : s.runq = p :: rest) :
    TokenOk ({ s with runq := rest }.setCpu c (.dequeued p)) := by
  obtain ⟨runqNodup, runqOk, tokenInj, ready, running, back, runnable, requeued, unborn,
    suspended, sleeping, free, owns, ownsInj, reaps⟩ := ok
  have untaken := (runqOk p (by simp [first])).2
  have once : p ∉ rest := by
    rw [first, List.nodup_cons] at runqNodup
    exact runqNodup.1
  constructor <;> simp only [SchedState.setCpu, Function.update_apply] <;>
    grind [CpuPc.token]

theorem TokenOk.unlockProc (on : s.cpu c = .requeued p) : TokenOk (s.setCpu c .loop) := by
  obtain ⟨runqNodup, runqOk, tokenInj, ready, running, back, runnable, requeued, unborn,
    suspended, sleeping, free, owns, ownsInj, reaps⟩ := ok
  constructor <;> simp only [SchedState.setCpu, Function.update_apply] <;>
    grind [CpuPc.token]

theorem TokenOk.lockProc (on : s.cpu c = .dequeued p) :
    TokenOk (s.setCpu c (.dispatching p)) := by
  obtain ⟨runqNodup, runqOk, tokenInj, ready, running, back, runnable, requeued, unborn,
    suspended, sleeping, free, owns, ownsInj, reaps⟩ := ok
  constructor <;> simp only [SchedState.setCpu, Function.update_apply] <;>
    grind [CpuPc.token]

variable [DecidableEq P]

/-- The token stays with the CPU while the process starts to run. -/
theorem TokenOk.dispatch (on : s.cpu c = .dispatching p) :
    TokenOk
      (((s.setProc p fun proc => { proc with state := .running }).setCurrent c
        (some p)).setCpu c (.running p)) := by
  have waits := ok.suspended p (Or.inl (ok.ready c p (Or.inr on)))
  have alive : (s.code (.thread p)).zombied = false := by
    cases at_ : s.code (.thread p) <;> simp_all [Code.suspended, Code.zombied]
  obtain ⟨runqNodup, runqOk, tokenInj, ready, running, back, runnable, requeued, unborn,
    suspended, sleeping, free, owns, ownsInj, reaps⟩ := ok
  have here : (s.proc p).state = .runnable := ready c p (Or.inr on)
  constructor <;>
    simp only [SchedState.setCpu, SchedState.setCurrent, SchedState.setProc,
      Function.update_apply] <;>
    grind [CpuPc.token]

/-- The process leaves the CPU in the state `proc.state`. -/
theorem TokenOk.switchBack {proc : ProcData P} {k : Code P} (on : s.cpu c = .running p)
    (state : proc.state = .runnable ∧ (∃ k', k = .yielded k') ∨
      proc.state = .sleeping ∧ (∃ k', k = .slept k') ∨
        proc.state = .zombie ∧ k = .dead ∧ (s.proc p).state = .zombie)
    (owns : k.owns = (s.code (.thread p)).owns) (reaps : k.reaps = none)
    (reaps' : (s.code (.thread p)).reaps = none) :
    TokenOk
      ((({ s with proc := Function.update s.proc p proc } : SchedState ncpus P).goto
        (.thread p) k).setCpu c (.switchedBack p)) := by
  have untaken : ∀ q, q ∈ s.runq → q ≠ p := by
    rintro q member rfl
    exact (ok.runq_ok q member).2 c (by rw [on]; rfl)
  have ran : (s.proc p).state = .running ∨ (s.proc p).state = .zombie := by
    refine ok.state_of_context (c := c) ?_
    simp [SchedState.context, on]
  obtain ⟨runqNodup, runqOk, tokenInj, ready, running, back, runnable, requeued, unborn,
    suspended, sleeping, free, owns', ownsInj, reapsOk⟩ := ok
  constructor <;>
    simp only [SchedState.setCpu, SchedState.goto, Function.update_apply] <;>
    grind [CpuPc.token, Code.suspended]

/-- The token goes back to the queue, or is dropped. -/
theorem TokenOk.requeue (on : s.cpu c = .switchedBack p) :
    TokenOk
      (((if (s.proc p).state = .runnable then s.enqueue p else s).setCurrent c none).setCpu
        c (.requeued p)) := by
  have untaken : p ∉ s.runq := fun member =>
    (ok.runq_ok p member).2 c (by rw [on]; rfl)
  obtain ⟨runqNodup, runqOk, tokenInj, ready, running, back, runnable, requeued, unborn,
    suspended, sleeping, free, owns, ownsInj, reaps⟩ := ok
  split
  next here =>
    constructor <;>
      simp only [SchedState.setCpu, SchedState.setCurrent, SchedState.enqueue,
        Function.update_apply, List.mem_append, List.mem_singleton] <;>
      grind [CpuPc.token]
  next away =>
    constructor <;>
      simp only [SchedState.setCpu, SchedState.setCurrent, Function.update_apply] <;>
      grind [CpuPc.token]

end Token

section Control

variable (ok : ControlOk s)
include ok

theorem ControlOk.enterScheduler (on : s.cpu c = .boot) : ControlOk (s.setCpu c .loop) := by
  obtain ⟨locks, nested, current, busy, resting⟩ := ok
  constructor <;>
    simp only [SchedState.heldBy, SchedState.setCpu, Function.update_apply] at * <;>
    grind [CpuPc.busy]

theorem ControlOk.dequeue {rest : List P} (on : s.cpu c = .loop) :
    ControlOk ({ s with runq := rest }.setCpu c (.dequeued p)) := by
  obtain ⟨locks, nested, current, busy, resting⟩ := ok
  constructor <;>
    simp only [SchedState.heldBy, SchedState.setCpu, Function.update_apply] at * <;>
    grind [CpuPc.busy]

variable [DecidableEq P]

theorem ControlOk.lockProc (on : s.cpu c = .dequeued p) (at_ : s.code (.sched c) = .body)
    (free : s.locks (.proc p) = none) :
    ControlOk ((s.setLock (.proc p) (some c)).setCpu c (.dispatching p)) := by
  obtain ⟨locks, nested, current, busy, resting⟩ := ok
  constructor <;>
    simp only [SchedState.heldBy, SchedState.setCpu, SchedState.setLock,
      Function.update_apply] at * <;>
    grind [CpuPc.busy, Code.held]

theorem ControlOk.unlockProc (on : s.cpu c = .requeued p) :
    ControlOk ((s.setLock (.proc p) none).setCpu c .loop) := by
  have held := (ok.locks c (.proc p)).mpr (by simp [SchedState.heldBy, on])
  obtain ⟨locks, nested, current, busy, resting⟩ := ok
  have idle : s.code (.sched c) = .body := busy c (by rw [on]; rfl)
  constructor <;>
    simp only [SchedState.heldBy, SchedState.setCpu, SchedState.setLock,
      Function.update_apply] at * <;>
    grind [CpuPc.busy, Code.held]

/-- The suspended thread finds its own lock held, by the CPU that resumes it. -/
theorem ControlOk.dispatch (on : s.cpu c = .dispatching p)
    (waits : (s.code (.thread p)).suspended = true) :
    ControlOk
      (((s.setProc p fun proc => { proc with state := .running }).setCurrent c
        (some p)).setCpu c (.running p)) := by
  have held : (s.code (.thread p)).held (some p) = [.proc p] := by
    cases at_ : s.code (.thread p) <;> simp_all [Code.suspended, Code.held]
  obtain ⟨locks, nested, current, busy, resting⟩ := ok
  constructor <;>
    simp only [SchedState.heldBy, SchedState.setCpu, SchedState.setCurrent,
      SchedState.setProc, Function.update_apply] at * <;>
    grind [CpuPc.busy]

theorem ControlOk.switchBack (token : TokenOk s) {proc : ProcData P} {k : Code P}
    (on : s.cpu c = .running p) (waits : k.suspended = true ∨ k = .dead)
    (nested : k.Nested) (held : (s.code (.thread p)).held (some p) = [.proc p]) :
    ControlOk
      ((({ s with proc := Function.update s.proc p proc } : SchedState ncpus P).goto
        (.thread p) k).setCpu c (.switchedBack p)) := by
  have alone : ∀ d, s.cpu d = .running p → d = c := by
    intro d running
    exact token.token_inj d c p (by rw [running]; rfl) (by rw [on]; rfl)
  obtain ⟨locks, nestedAll, current, busy, resting⟩ := ok
  constructor <;>
    simp only [SchedState.heldBy, SchedState.setCpu, SchedState.goto,
      Function.update_apply] at * <;>
    grind [CpuPc.busy]

omit [DecidableEq P] in
theorem ControlOk.requeue (on : s.cpu c = .switchedBack p) :
    ControlOk
      (((if (s.proc p).state = .runnable then s.enqueue p else s).setCurrent c none).setCpu
        c (.requeued p)) := by
  obtain ⟨locks, nested, current, busy, resting⟩ := ok
  split <;> constructor <;>
    simp only [SchedState.heldBy, SchedState.setCpu, SchedState.setCurrent,
      SchedState.enqueue, Function.update_apply] at * <;>
    grind [CpuPc.busy]

end Control

section Table

variable [DecidableEq P] (ok : TableOk s)
include ok

theorem TableOk.dispatch (state : (s.proc p).state = .runnable) :
    TableOk
      (((s.setProc p fun proc => { proc with state := .running }).setCurrent c
        (some p)).setCpu c (.running p)) := by
  obtain ⟨nodup, published, alive, hashed, hashNodup, scanned, reaped⟩ := ok
  constructor <;>
    simp only [SchedState.setCpu, SchedState.setCurrent, SchedState.setProc,
      Function.update_apply] <;>
    grind

theorem TableOk.switchBack {proc : ProcData P} {k : Code P}
    (listed : proc.state ≠ .zombie → p ∈ s.allproc) (state : proc.state ≠ .unused ∧ proc.state ≠ .used)
    (pid : proc.pid = (s.proc p).pid) (scanned' : k.scanned = []) (reaps : k.reaps = none) :
    TableOk
      ((({ s with proc := Function.update s.proc p proc } : SchedState ncpus P).goto
        (.thread p) k).setCpu c (.switchedBack p)) := by
  obtain ⟨nodup, published, alive, hashed, hashNodup, scanned, reaped⟩ := ok
  constructor <;>
    simp only [SchedState.setCpu, SchedState.goto, Function.update_apply] <;>
    grind

end Table

end Proc

end Av6
