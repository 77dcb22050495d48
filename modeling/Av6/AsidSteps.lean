import Av6.AsidRollover

/-!
# The steps of `asid_switch` one by one

Each step that changes shared data or the hardware state of a CPU keeps the
invariant.
-/

namespace Av6

namespace Asid

variable {ncpus total : Nat} {P : Type*} {s : AsidState ncpus P}

theorem Frame.refl (control : ControlOk s) (c : Fin ncpus) : Frame s s c where
  pc := rfl
  used := rfl
  live := rfl
  ctx _ _ := rfl
  lock d _ := control.lock_held d

/-- A CPU moves on without touching the data. -/
theorem AsidOk.goto (ok : AsidOk total s) {c : Fin ncpus} {pc : Pc P}
    (calm : ∀ p i, s.pc c ≠ .flushing p i)
    (procs : ∀ p, pc.proc = some p → (s.pc c).proc = some p ∨
      (s.live p = true ∧ ∀ d, (s.pc d).proc ≠ some p))
    (own : pc.inLock = true → (s.pc c).inLock = true) (self : PcOk total s c pc) :
    AsidOk total (s.goto c pc) :=
  ok.moveTo (.refl ok.control c) procs (fun inside => ok.control.lock_held c (own inside))
    (ok.data.goto calm pc) self fun d _ => .refl s d _

/-- Whatever the TLB of a CPU that owes no flush holds under a current context belongs
to the owner of the context. -/
theorem DataOk.tlbOwned (data : DataOk total s) {c : Fin ncpus} {p : P}
    (clean : s.tlbPending c = false) (current : genOf total (s.ctx p) = s.generation) :
    TlbOwned total s c p (s.ctx p) := by
  intro q member
  obtain ⟨gen, number⟩ := data.tlb_ok c clean _ member
  have same : s.ctx q = s.ctx p := ctx_ext (gen.trans current.symm) number
  refine data.ctx_inj q p same ?_
  intro zero
  have positive := data.gen_pos
  simp only [zero, genOf_zero] at gen
  omega

/-- Publishing a current context in the slot of a CPU that owes no flush. -/
theorem DataOk.published (data : DataOk total s) {c : Fin ncpus} {p : P}
    (clean : s.tlbPending c = false) (current : genOf total (s.ctx p) = s.generation) :
    Published total { s with active := Function.update s.active c (s.ctx p) } c p
      (s.ctx p) := by
  have nonzero : s.ctx p ≠ 0 := by
    intro zero
    have positive := data.gen_pos
    simp only [zero, genOf_zero] at current
    omega
  exact
    { ctx_eq := rfl
      nonzero := nonzero
      slot := by simp [drained, nonzero]
      gen_le := current.le
      current := ⟨fun _ => current, fun _ => clean⟩
      owned := data.tlbOwned clean current }

/-- The publication is invisible to the other CPUs, unless one of them drains the
slots and had drained this one already. -/
theorem Rely.setActive {c d : Fin ncpus} (distinct : d ≠ c) (ctx : Nat) {pc : Pc P}
    (safe : pc.inLock = true → s.active c ≠ 0) :
    Rely s { s with active := Function.update s.active c ctx } d pc where
  ttbr0 := rfl
  tlb := rfl
  ctx _ _ := rfl
  slot _ _ _ _ := by simp [drained, Function.update_of_ne distinct]
  active empty := by simpa [Function.update_of_ne distinct] using empty
  generation := Or.inl ⟨rfl, rfl⟩
  locked inside := by
    refine ⟨rfl, rfl, rfl, rfl, ?_⟩
    intro e empty
    have other : e ≠ c := by
      rintro rfl
      exact safe inside empty
    simpa [Function.update_of_ne other] using empty

section Steps

variable (ok : AsidOk total s) {c : Fin ncpus} {p : P}
include ok

theorem AsidOk.fastPath {ctx gen old : Nat} (at_ : s.pc c = .readActive p ctx gen old)
    (nonzero : old ≠ 0) (current : genOf total ctx = genOf total gen)
    (exchanged : s.active c = old) :
    AsidOk total
      ({ s with active := Function.update s.active c ctx }.goto c (.load p ctx)) := by
  have here := ok.cpu c
  rw [at_] at here
  obtain ⟨parked, rfl, sameGen⟩ := here
  have busy : s.active c ≠ 0 := by omega
  have clean := (ok.data.active_ok c busy).1
  have currentGen : genOf total (s.ctx p) = s.generation := by
    rw [current, sameGen busy, genOf_whole ok.data.gen_whole]
  have frame : Frame s { s with active := Function.update s.active c (s.ctx p) } c :=
    { Frame.refl ok.control c with }
  refine ok.moveTo frame ?_ (by rintro ⟨⟩) ?_ ?_ ?_
  · rintro q ⟨rfl⟩
    rw [at_]
    exact Or.inl rfl
  · exact (ok.data.setActive clean currentGen rfl).goto (by simp [at_]) _
  · exact ⟨parked, ok.data.published clean currentGen⟩
  · intro d distinct
    exact Rely.setActive distinct _ fun _ => busy

theorem AsidOk.publish {ctx : Nat} (at_ : s.pc c = .publish p ctx) :
    AsidOk total
      ({ s with active := Function.update s.active c ctx }.goto c (.unlock p ctx)) := by
  have here := ok.cpu c
  rw [at_] at here
  obtain ⟨parked, rfl, current, clean⟩ := here
  have held : (s.pc c).inLock = true := by rw [at_]; rfl
  have frame : Frame s { s with active := Function.update s.active c (s.ctx p) } c :=
    { Frame.refl ok.control c with }
  refine ok.moveTo frame ?_ (fun _ => ok.control.lock_held c held) ?_ ?_ ?_
  · rintro q ⟨rfl⟩
    rw [at_]
    exact Or.inl rfl
  · exact (ok.data.setActive clean current rfl).goto (by simp [at_]) _
  · exact ⟨parked, ok.data.published clean current⟩
  · intro d distinct
    refine Rely.setActive distinct _ fun inside => ?_
    rw [ok.control.unlocked held distinct] at inside
    cases inside

theorem AsidOk.acquire (at_ : s.pc c = .slow p) (free : s.lock = none) :
    AsidOk total ({ s with lock := some c }.goto c (.locked p)) := by
  have here := ok.cpu c
  rw [at_] at here
  have frame : Frame s { s with lock := some c } c :=
    { Frame.refl ok.control c with
      lock := by
        intro d _ inside
        have held := ok.control.lock_held d inside
        rw [free] at held
        cases held }
  refine ok.moveTo frame ?_ (fun _ => rfl) ?_ here ?_
  · rintro q ⟨rfl⟩
    rw [at_]
    exact Or.inl rfl
  · exact { ok.data.goto (by simp [at_]) (.locked p) with }
  · intro d _
    exact { Rely.refl s d (s.pc d) with }

theorem AsidOk.release {ctx : Nat} (at_ : s.pc c = .unlock p ctx) :
    AsidOk total ({ s with lock := none }.goto c (.load p ctx)) := by
  have here := ok.cpu c
  rw [at_] at here
  have held : (s.pc c).inLock = true := by rw [at_]; rfl
  have frame : Frame s { s with lock := none } c :=
    { Frame.refl ok.control c with
      lock := by
        intro d distinct inside
        rw [ok.control.unlocked held distinct] at inside
        cases inside }
  refine ok.moveTo frame ?_ (by rintro ⟨⟩) ?_ ⟨here.1, { here.2 with }⟩ ?_
  · rintro q ⟨rfl⟩
    rw [at_]
    exact Or.inl rfl
  · exact { ok.data.goto (by simp [at_]) (.load p ctx) with }
  · intro d _
    exact { Rely.refl s d (s.pc d) with }

/-- The assignment of a fresh number under the lock. -/
theorem AsidOk.assign [DecidableEq P] {asid : Nat} {new : NewContext ncpus}
    (parked : s.ttbr0 c = none) (held : (s.pc c).inLock = true)
    (calm : ∀ q i, s.pc c ≠ .flushing q i) (runs : (s.pc c).proc = some p)
    (stale : genOf total (s.ctx p) ≠ s.generation) (fresh : Fresh total s p asid new) :
    AsidOk total ((s.assign p new).goto c (.assigned p new.ctx)) := by
  have settled := ok.control.settled held calm
  have frame : Frame s (s.assign p new) c :=
    { Frame.refl ok.control c with
      ctx := by
        intro q other
        have distinct : q ≠ p := by
          rintro rfl
          exact other runs
        exact Function.update_of_ne distinct .. }
  refine ok.moveTo frame ?_ (fun _ => ok.control.lock_held c held) ?_ ?_ ?_
  · rintro q ⟨rfl⟩
    exact Or.inl runs
  · exact (fresh.dataOk ok.data stale settled).goto calm _
  · have current := fresh.genOf_ctx ok.data
    exact ⟨parked, Function.update_self .., current⟩
  · intro d distinct
    refine fresh.rely ok.data ?_ (ok.control.unlocked held distinct)
    intro same
    exact distinct (ok.control.alone d c p same runs)

theorem AsidOk.rollover (at_ : s.pc c = .locked p)
    (stale : genOf total (s.ctx p) ≠ s.generation) :
    AsidOk total
      ({ s with bitmap := Function.update (fun _ => false) 0 true }.goto c
        (.flushing p 0)) := by
  have here := ok.cpu c
  rw [at_] at here
  have held : (s.pc c).inLock = true := by rw [at_]; rfl
  have frame : Frame s { s with bitmap := Function.update (fun _ => false) 0 true } c :=
    { Frame.refl ok.control c with }
  refine ok.moveTo frame ?_ (fun _ => ok.control.lock_held c held)
    (ok.data.clearBitmap c p 0) ⟨here, stale, fun d before => by cases before⟩ ?_
  · rintro q ⟨rfl⟩
    rw [at_]
    exact Or.inl rfl
  · intro d distinct
    exact { Rely.refl s d (s.pc d) with
      locked := by
        rw [ok.control.unlocked held distinct]
        rintro ⟨⟩ }

theorem AsidOk.drain (d : Fin ncpus) (at_ : s.pc c = .flushing p d) :
    AsidOk total ((flushCpu total s d).goto c (.flushing p (d + 1))) := by
  have here := ok.cpu c
  rw [at_] at here
  obtain ⟨parked, stale, done⟩ := here
  have held : (s.pc c).inLock = true := by rw [at_]; rfl
  have frame : Frame s (flushCpu total s d) c := { Frame.refl ok.control c with }
  have unsettled : ¬ Settled s := fun settled => settled c p d at_
  refine ok.moveTo frame ?_ (fun _ => ok.control.lock_held c held)
    ((ok.data.flushCpu d unsettled).goto_flushing c p _) ⟨parked, stale, ?_⟩ ?_
  · rintro q ⟨rfl⟩
    rw [at_]
    exact Or.inl rfl
  · intro e before
    by_cases same : e = d
    · subst same
      exact flushCpu_self e
    · have earlier : e.val < d.val := by
        have distinct : e.val ≠ d.val := fun equal => same (Fin.ext equal)
        omega
      refine ⟨flushCpu_active d e (done e earlier).1, ?_⟩
      rw [flushCpu_reserved_of_ne same]
      exact fun nonzero => flushCpu_bitmap d ((done e earlier).2 nonzero)
  · intro e distinct
    exact Rely.flushCpu d e (ok.control.unlocked held distinct)

theorem AsidOk.advance (positive : 0 < total) (at_ : s.pc c = .flushing p ncpus) :
    AsidOk total ((flushEnd total s).goto c (.flushed p)) := by
  have here := ok.cpu c
  rw [at_] at here
  obtain ⟨parked, -, done⟩ := here
  have held : (s.pc c).inLock = true := by rw [at_]; rfl
  have frame : Frame s (flushEnd total s) c := { Frame.refl ok.control c with }
  have empty : ∀ d, s.active d = 0 := fun d => (done d d.isLt).1
  refine ok.moveTo frame ?_ (fun _ => ok.control.lock_held c held) ?_
    ⟨parked, ok.data.gen_ne_next positive p⟩ ?_
  · rintro q ⟨rfl⟩
    rw [at_]
    exact Or.inl rfl
  · exact ok.data.flushEnd positive empty (fun d => (done d d.isLt).2) c _
  · intro d distinct
    exact Rely.flushEnd positive empty d (ok.control.unlocked held distinct)

theorem AsidOk.tlbi {ctx : Nat} (at_ : s.pc c = .assigned p ctx) :
    AsidOk total
      ({ s with
          tlbPending := Function.update s.tlbPending c false
          tlb := Function.update s.tlb c ∅ }.goto c (.publish p ctx)) := by
  have here := ok.cpu c
  rw [at_] at here
  obtain ⟨parked, owner, current⟩ := here
  have held : (s.pc c).inLock = true := by rw [at_]; rfl
  refine ok.moveTo { Frame.refl ok.control c with } ?_
    (fun _ => ok.control.lock_held c held) ?_
    ⟨parked, owner, current, Function.update_self ..⟩ ?_
  · rintro q ⟨rfl⟩
    rw [at_]
    exact Or.inl rfl
  · refine { ok.data.goto (by simp [at_]) (.publish p ctx) with
      active_ok := ?_
      tlb_ok := ?_ }
    · intro d nonzero
      obtain ⟨clean, rest⟩ := ok.data.active_ok d nonzero
      refine ⟨?_, rest⟩
      by_cases same : d = c
      · subst same
        exact Function.update_self ..
      · exact (Function.update_of_ne same ..).trans clean
    · intro d clean entry member
      by_cases same : d = c
      · subst same
        simp [AsidState.goto] at member
      · simp only [AsidState.goto, Function.update_of_ne same] at clean member
        exact ok.data.tlb_ok d clean entry member
  · intro d distinct
    exact { Rely.refl s d (s.pc d) with
      tlb := Function.update_of_ne distinct ..
      generation := Or.inl ⟨rfl, Function.update_of_ne distinct ..⟩
      locked := by
        rw [ok.control.unlocked held distinct]
        rintro ⟨⟩ }

/-- Writing TTBR0, to load a process or to park it. -/
theorem AsidOk.setTtbr0 {root : Option (P × Nat)} {pc : Pc P}
    (calm : ∀ q i, s.pc c ≠ .flushing q i) (outside : pc.inLock = false)
    (procs : ∀ q, pc.proc = some q → (s.pc c).proc = some q)
    (self : PcOk total { s with ttbr0 := Function.update s.ttbr0 c root } c pc) :
    AsidOk total ({ s with ttbr0 := Function.update s.ttbr0 c root }.goto c pc) := by
  refine ok.moveTo { Frame.refl ok.control c with } (fun q runs => Or.inl (procs q runs))
    (by rw [outside]; rintro ⟨⟩) { ok.data.goto calm pc with } self ?_
  intro d distinct
  exact { Rely.refl s d (s.pc d) with
    ttbr0 := Function.update_of_ne distinct .. }

/-- Only a CPU that runs a process has it in TTBR0. -/
theorem AsidOk.running_of_ttbr0 {asid : Nat} (loaded : s.ttbr0 c = some (p, asid)) :
    ∃ ctx, s.pc c = .running p ctx ∧ asid = asidOf total ctx ∧
      Published total s c p ctx := by
  have here := ok.cpu c
  cases at_ : s.pc c with
  | running q ctx =>
      rw [at_] at here
      obtain ⟨root, published⟩ := here
      rw [loaded] at root
      cases root
      exact ⟨ctx, rfl, rfl, published⟩
  | idle => rw [at_, PcOk, loaded] at here; cases here
  | slow q => rw [at_, PcOk, loaded] at here; cases here
  | locked q => rw [at_, PcOk, loaded] at here; cases here
  | panicked q => rw [at_, PcOk, loaded] at here; cases here
  | _ => rw [at_, PcOk, loaded] at here; cases here.1

/-- A CPU whose TTBR0 holds a process has published its context. -/
theorem AsidOk.published_of_ttbr0 {asid : Nat}
    (loaded : s.ttbr0 c = some (p, asid)) :
    asid = asidOf total (s.ctx p) ∧ Published total s c p (s.ctx p) := by
  obtain ⟨ctx, -, rfl, published⟩ := ok.running_of_ttbr0 loaded
  have ctxEq := published.ctx_eq
  subst ctxEq
  exact ⟨rfl, published⟩

/-- The table walker fills the TLB of a CPU from the loaded table. -/
theorem AsidOk.fill {asid : Nat} (loaded : s.ttbr0 c = some (p, asid)) :
    AsidOk total
      { s with tlb := Function.update s.tlb c (insert (asid, p) (s.tlb c)) } := by
  obtain ⟨ctx, at_, rfl, published⟩ := ok.running_of_ttbr0 loaded
  refine ⟨{ ok.control with }, ?_, ?_⟩
  · refine { ok.data with tlb_ok := ?_ }
    intro d clean entry member
    by_cases same : d = c
    · subst same
      simp only [Function.update_self, Set.mem_insert_iff] at member
      rcases member with rfl | member
      · simp only [published.ctx_eq]
        exact ⟨published.current.mp clean, trivial⟩
      · exact ok.data.tlb_ok d clean entry member
    · simp only [Function.update_of_ne same] at member
      exact ok.data.tlb_ok d clean entry member
  · intro d
    by_cases same : d = c
    · subst same
      change PcOk total _ d (s.pc d)
      rw [at_]
      refine ⟨loaded, { published with owned := ?_ }⟩
      intro q member
      simp only [Function.update_self, Set.mem_insert_iff, Prod.mk.injEq, true_and] at member
      rcases member with rfl | member
      · rfl
      · exact published.owned q member
    · exact (ok.cpu d).rely { Rely.refl s d (s.pc d) with
        tlb := Function.update_of_ne same .. }

/-- A process dies wherever it is; its context stays. -/
theorem AsidOk.die [DecidableEq P] (q : P) :
    AsidOk total { s with live := Function.update s.live q false } := by
  refine ⟨{ ok.control with unused := ?_ }, { ok.data with }, fun d =>
    (ok.cpu d).rely { Rely.refl s d (s.pc d) with }⟩
  intro r fresh
  obtain ⟨zero, dead, nowhere⟩ := ok.control.unused r fresh
  refine ⟨zero, ?_, nowhere⟩
  by_cases same : r = q
  · subst same
    exact Function.update_self ..
  · exact (Function.update_of_ne same ..).trans dead

/-- A new process starts with the context 0, which it had already. -/
theorem AsidOk.create [DecidableEq P] {q : P} (fresh : s.used q = false) :
    AsidOk total
      { s with
        used := Function.update s.used q true
        live := Function.update s.live q true
        ctx := Function.update s.ctx q 0 } := by
  have zero : Function.update s.ctx q 0 = s.ctx := by
    rw [← (ok.control.unused q fresh).1, Function.update_eq_self]
  rw [zero]
  refine ⟨{ ok.control with unused := ?_ }, { ok.data with }, fun d =>
    (ok.cpu d).rely { Rely.refl s d (s.pc d) with }⟩
  intro r unused
  have other : r ≠ q := by
    rintro rfl
    simp at unused
  simp only [Function.update_of_ne other] at unused ⊢
  exact ok.control.unused r unused

end Steps

end Asid

end Av6
