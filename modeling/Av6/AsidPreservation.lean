import Av6.AsidInvariant

/-!
# How a CPU moves without disturbing the others

A step of one CPU keeps the invariant when the shared data keeps its own, the CPU
satisfies what its new point asks, and every other CPU can rely on what it needs.
-/

namespace Av6

namespace Asid

variable {ncpus total : Nat} {P : Type*}

/-- Only one CPU at a time is inside the lock. -/
theorem ControlOk.unlocked {s : AsidState ncpus P} (control : ControlOk s)
    {c d : Fin ncpus} (held : (s.pc c).inLock = true) (other : d ≠ c) :
    (s.pc d).inLock = false := by
  by_contra inside
  have first := control.lock_held c held
  have second := control.lock_held d (by simpa using inside)
  rw [first] at second
  exact other (Option.some.inj second).symm

/-- While a CPU is inside the lock but not draining, no CPU is draining. -/
theorem ControlOk.settled {s : AsidState ncpus P} (control : ControlOk s)
    {c : Fin ncpus} (held : (s.pc c).inLock = true)
    (calm : ∀ p i, s.pc c ≠ .flushing p i) : Settled s := by
  intro d p i flushing
  by_cases same : d = c
  · subst same
    exact calm p i flushing
  · have outside := control.unlocked held same
    rw [flushing] at outside
    cases outside

/-- A CPU moves from `s` to `t`, to the point `pc`. -/
theorem ControlOk.move {s t : AsidState ncpus P} (control : ControlOk s)
    {c : Fin ncpus} {pc : Pc P} (moved : t.pc = Function.update s.pc c pc)
    (procs : ∀ p, pc.proc = some p → (s.pc c).proc = some p ∨
      (s.live p = true ∧ ∀ d, (s.pc d).proc ≠ some p))
    (used : t.used = s.used) (live : t.live = s.live)
    (ctx : ∀ p, (s.pc c).proc ≠ some p → t.ctx p = s.ctx p)
    (lock : ∀ d, d ≠ c → (s.pc d).inLock = true → t.lock = some d)
    (own : pc.inLock = true → t.lock = some c) : ControlOk t := by
  refine ⟨?_, ?_, ?_⟩
  · intro p fresh
    obtain ⟨zero, dead, nowhere⟩ := control.unused p (by rw [← used]; exact fresh)
    refine ⟨(ctx p (nowhere c)).trans zero, by rw [live]; exact dead, ?_⟩
    intro d here
    rw [moved] at here
    by_cases same : d = c
    · subst same
      rw [Function.update_self] at here
      rcases procs p here with earlier | ⟨alive, -⟩
      · exact nowhere d earlier
      · rw [dead] at alive
        cases alive
    · rw [Function.update_of_ne same] at here
      exact nowhere d here
  · have before : ∀ d p, (t.pc d).proc = some p → (s.pc d).proc = some p ∨
        (d = c ∧ ∀ e, (s.pc e).proc ≠ some p) := by
      intro d p here
      rw [moved] at here
      by_cases same : d = c
      · subst same
        rw [Function.update_self] at here
        exact (procs p here).imp id fun enters => ⟨rfl, enters.2⟩
      · rw [Function.update_of_ne same] at here
        exact Or.inl here
    intro d e p first second
    rcases before d p first with first | ⟨rfl, nowhere⟩ <;>
      rcases before e p second with second | ⟨rfl, nowhere'⟩
    · exact control.alone d e p first second
    · exact (nowhere' d first).elim
    · exact (nowhere e second).elim
    · rfl
  · intro d held
    rw [moved] at held
    by_cases same : d = c
    · subst same
      rw [Function.update_self] at held
      exact own held
    · rw [Function.update_of_ne same] at held
      exact lock d same held

/-- The part of a step that is not about the position of the CPU `c`. -/
structure Frame (s t : AsidState ncpus P) (c : Fin ncpus) : Prop where
  pc : t.pc = s.pc
  used : t.used = s.used
  live : t.live = s.live
  ctx : ∀ p, (s.pc c).proc ≠ some p → t.ctx p = s.ctx p
  lock : ∀ d, d ≠ c → (s.pc d).inLock = true → t.lock = some d

/-- A step that leaves the data alone is invisible to the other CPUs. -/
theorem Rely.refl (s : AsidState ncpus P) (d : Fin ncpus) (pc : Pc P) : Rely s s d pc where
  ttbr0 := rfl
  tlb := rfl
  ctx _ _ := rfl
  slot _ _ _ _ := rfl
  active := id
  generation := Or.inl ⟨rfl, rfl⟩
  locked _ := ⟨rfl, rfl, rfl, rfl, fun _ => id⟩

theorem Rely.goto {s t : AsidState ncpus P} {d : Fin ncpus} {at_ : Pc P}
    (rely : Rely s t d at_) (c : Fin ncpus) (pc : Pc P) : Rely s (t.goto c pc) d at_ :=
  { rely with }

/-- A CPU changes the data from `s` to `t` and moves on to the point `pc`. -/
theorem AsidOk.moveTo {s t : AsidState ncpus P} (ok : AsidOk total s)
    {c : Fin ncpus} {pc : Pc P} (frame : Frame s t c)
    (procs : ∀ p, pc.proc = some p → (s.pc c).proc = some p ∨
      (s.live p = true ∧ ∀ d, (s.pc d).proc ≠ some p))
    (own : pc.inLock = true → t.lock = some c)
    (data : DataOk total (t.goto c pc)) (self : PcOk total t c pc)
    (others : ∀ d, d ≠ c → Rely s t d (s.pc d)) : AsidOk total (t.goto c pc) := by
  have moved : (t.goto c pc).pc = Function.update s.pc c pc := by
    rw [← frame.pc]
    rfl
  refine ⟨ok.control.move moved procs frame.used frame.live frame.ctx frame.lock own,
    data, ?_⟩
  intro d
  rw [moved]
  by_cases same : d = c
  · subst same
    rw [Function.update_self]
    exact self.rely ((Rely.refl t d pc).goto d pc)
  · rw [Function.update_of_ne same]
    exact (ok.cpu d).rely ((others d same).goto c pc)

section Data

variable {s : AsidState ncpus P}

theorem DataOk.goto (data : DataOk total s) {c : Fin ncpus}
    (calm : ∀ p i, s.pc c ≠ .flushing p i) (pc : Pc P) : DataOk total (s.goto c pc) := by
  have settled : Settled (s.goto c pc) → Settled s := by
    intro after d p i flushing
    by_cases same : d = c
    · subst same
      exact calm p i flushing
    · apply after d p i
      change Function.update s.pc c pc d = _
      rw [Function.update_of_ne same]
      exact flushing
  exact { data with
    ctx_bit := fun after => data.ctx_bit (settled after)
    reserved_bit := fun after => data.reserved_bit (settled after) }

theorem DataOk.setActive (data : DataOk total s) {c : Fin ncpus} {ctx : Nat} {p : P}
    (clean : s.tlbPending c = false) (current : genOf total ctx = s.generation)
    (owner : s.ctx p = ctx) :
    DataOk total { s with active := Function.update s.active c ctx } := by
  refine { data with active_ok := ?_ }
  intro d nonzero
  by_cases same : d = c
  · subst same
    simp only [Function.update_self]
    exact ⟨clean, current, p, owner⟩
  · simp only [Function.update_of_ne same] at nonzero ⊢
    exact data.active_ok d nonzero

end Data

end Asid

end Av6
