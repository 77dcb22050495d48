import Av6.AsidSteps

/-!
# No two processes share an ASID, and no TLB hit is stale

The invariant holds of every reachable state, whatever the interleaving.  Two
processes loaded at the same time therefore carry different numbers, and a CPU that
loads a process finds no entry of another process under its number.
-/

namespace Av6

namespace Asid

variable {ncpus total bits : Nat} {P : Type*} [DecidableEq P] {s : AsidState ncpus P}

/-- Every step keeps the invariant. -/
theorem AsidOk.step {t : AsidState ncpus P} (ok : AsidOk total s) (positive : 0 < total)
    (step : AsidStep total s t) : AsidOk total t := by
  cases step with
  | create q fresh => exact ok.create fresh
  | die q alive => exact ok.die q
  | enter c q at_ alive alone =>
      have here := ok.cpu c
      rw [at_] at here
      refine ok.goto (by simp [at_]) ?_ (by rintro ⟨⟩) ⟨here, rfl⟩
      rintro r ⟨rfl⟩
      exact Or.inr ⟨alive, alone⟩
  | readGen c at_ =>
      have here := ok.cpu c
      rw [at_] at here
      exact ok.goto (by simp [at_]) (by simp [at_, Pc.proc]) (by rintro ⟨⟩)
        ⟨here.1, here.2, fun _ => rfl⟩
  | readActive c at_ =>
      have here := ok.cpu c
      rw [at_] at here
      exact ok.goto (by simp [at_]) (by simp [at_, Pc.proc]) (by rintro ⟨⟩) here
  | fastPath c at_ nonzero current exchanged => exact ok.fastPath at_ nonzero current exchanged
  | slowPath c at_ refused =>
      have here := ok.cpu c
      rw [at_] at here
      exact ok.goto (by simp [at_]) (by simp [at_, Pc.proc]) (by rintro ⟨⟩) here.1
  | acquire c at_ free => exact ok.acquire at_ free
  | keep c at_ current =>
      have here := ok.cpu c
      rw [at_] at here
      exact ok.goto (by simp [at_]) (by simp [at_, Pc.proc]) (by simp [at_, Pc.inLock])
        ⟨here, rfl, current⟩
  | renew c at_ stale assigned =>
      have here := ok.cpu c
      rw [at_] at here
      have held : (s.pc c).inLock = true := by rw [at_]; rfl
      have settled := ok.control.settled held (by simp [at_])
      obtain ⟨asid, fresh⟩ := ok.data.fresh_of_newContext settled positive stale assigned
      exact ok.assign here held (by simp [at_]) (by rw [at_]; rfl) stale fresh
  | rollover c at_ stale full => exact ok.rollover at_ stale
  | drain c d at_ => exact ok.drain d at_
  | advance c at_ => exact ok.advance positive at_
  | allot c at_ allotted =>
      have here := ok.cpu c
      rw [at_] at here
      have held : (s.pc c).inLock = true := by rw [at_]; rfl
      have settled := ok.control.settled held (by simp [at_])
      obtain ⟨asid, fresh⟩ := ok.data.fresh_of_allot settled _ positive allotted
      exact ok.assign here.1 held (by simp [at_]) (by rw [at_]; rfl) here.2 fresh
  | exhausted c at_ full =>
      have here := ok.cpu c
      rw [at_] at here
      exact ok.goto (by simp [at_]) (by simp [at_, Pc.proc]) (by simp [at_, Pc.inLock]) here.1
  | tlbi c at_ owed => exact ok.tlbi at_
  | noTlbi c at_ clean =>
      have here := ok.cpu c
      rw [at_] at here
      exact ok.goto (by simp [at_]) (by simp [at_, Pc.proc]) (by simp [at_, Pc.inLock])
        ⟨here.1, here.2.1, here.2.2, clean⟩
  | publish c at_ => exact ok.publish at_
  | release c at_ => exact ok.release at_
  | load c at_ =>
      have here := ok.cpu c
      rw [at_] at here
      exact ok.setTtbr0 (by simp [at_]) rfl (by simp [at_, Pc.proc])
        ⟨Function.update_self .., { here.2 with }⟩
  | park c at_ =>
      exact ok.setTtbr0 (by simp [at_]) rfl (by simp [Pc.proc]) (Function.update_self ..)
  | fill c loaded => exact ok.fill loaded

omit [DecidableEq P] in
/-- At boot nothing is loaded, assigned or owed. -/
theorem asidInit_ok (positive : 0 < total) : AsidOk total (asidInit ncpus total P) where
  control :=
    { unused := fun _ _ => ⟨rfl, rfl, fun _ => by rintro ⟨⟩⟩
      alone := by rintro c d p ⟨⟩
      lock_held := by rintro c ⟨⟩ }
  data :=
    { gen_pos := positive
      gen_whole := Nat.mod_self total
      next_le := positive
      bit_zero := rfl
      gen_le := fun p => by simp [asidInit]
      asid_ne := fun p nonzero => (nonzero rfl).elim
      ctx_inj := fun p q _ nonzero => (nonzero rfl).elim
      ctx_bit := fun _ p _ => by simp [asidInit]
      reserved_bit := fun _ c nonzero => (nonzero rfl).elim
      reserved_own := fun c p nonzero => (nonzero rfl).elim
      reserved_inj := fun c d nonzero => (nonzero rfl).elim
      active_ok := fun c nonzero => (nonzero rfl).elim
      tlb_ok := fun c _ entry member => member.elim }
  cpu _ := rfl

theorem asidOk_of_reachable (reached : AsidReachable bits s) :
    AsidOk (2 ^ bits) s := by
  have positive : 0 < 2 ^ bits := Nat.two_pow_pos bits
  refine TransitionSystem.Reachable.invariant ?_ ?_ reached
  · rintro start rfl
    exact asidInit_ok positive
  · intro state after _ ok step
    exact ok.step positive step

/-- An idle CPU that nobody disturbs takes the slow path and loads the process. -/
theorem AsidReachable.switchIn (reached : AsidReachable bits s) {c : Fin ncpus} {p : P}
    {new : NewContext ncpus} (idle : s.pc c = .idle) (alive : s.live p = true)
    (alone : ∀ d, (s.pc d).proc ≠ some p) (free : s.lock = none) (empty : s.active c = 0)
    (clean : s.tlbPending c = false) (stale : genOf (2 ^ bits) (s.ctx p) ≠ s.generation)
    (assigned : newContext (2 ^ bits) s p = some new) :
    AsidReachable bits
      { s.assign p new with
        lock := none
        active := Function.update s.active c new.ctx
        ttbr0 := Function.update s.ttbr0 c (some (p, asidOf (2 ^ bits) new.ctx))
        pc := Function.update s.pc c (.running p new.ctx) } := by
  -- Every intermediate state is written over `s`, so that the terms stay small.
  have flat : ∀ (t : AsidState ncpus P) (before after : Pc P),
      AsidReachable bits
        (AsidState.goto { t with pc := Function.update s.pc c before } c after) →
      AsidReachable bits { t with pc := Function.update s.pc c after } := by
    intro t before after
    simp [AsidState.goto]
  have at_ : ∀ pc, Function.update s.pc c pc c = pc := fun pc => Function.update_self ..
  have entered : AsidReachable bits
      { s with pc := Function.update s.pc c (.readCtx p (s.ctx p)) } :=
    reached.next (.enter c p idle alive alone)
  have readGen := flat s _ _ (entered.next (.readGen c (at_ _)))
  have readActive := flat s _ _ (readGen.next (.readActive c (at_ _)))
  have slow := flat s _ _
    (readActive.next (.slowPath c (at_ _) fun fast => fast.1 empty))
  have locked := flat { s with lock := some c } _ _ (slow.next (.acquire c (at_ _) free))
  have renewed := flat { s.assign p new with lock := some c } _ _
    (locked.next (.renew c (at_ _) stale assigned))
  have flushed := flat { s.assign p new with lock := some c } _ _
    (renewed.next (.noTlbi c (at_ _) clean))
  have published := flat
    { s.assign p new with
      lock := some c
      active := Function.update s.active c new.ctx } _ _ (flushed.next (.publish c (at_ _)))
  have released := flat
    { s.assign p new with
      lock := none
      active := Function.update s.active c new.ctx } _ _ (published.next (.release c (at_ _)))
  exact flat
    { s.assign p new with
      lock := none
      active := Function.update s.active c new.ctx
      ttbr0 := Function.update s.ttbr0 c (some (p, asidOf (2 ^ bits) new.ctx)) } _ _
    (released.next (.load c (at_ _)))

/-- Two processes loaded side by side on two CPUs, with 256 ASIDs. -/
theorem exists_two_loaded : ∃ s : AsidState 2 Bool, AsidReachable 8 s ∧
    s.ttbr0 0 = some (false, 1) ∧ s.ttbr0 1 = some (true, 2) := by
  have boot : AsidReachable 8 (asidInit 2 (2 ^ 8) Bool) := .start rfl
  have born := (boot.next (.create false rfl)).next (.create true rfl)
  have first := AsidReachable.switchIn born (c := 0) (p := false) rfl rfl
    (by intro d; rintro ⟨⟩) rfl rfl rfl (by decide) rfl
  have second := AsidReachable.switchIn first (c := 1) (p := true) rfl rfl
    (by decide) rfl rfl rfl (by decide) rfl
  exact ⟨_, second, rfl, rfl⟩

/-- ASID exclusivity: processes loaded at the same time carry different numbers, none
of them the reserved one, and live processes never hold the same context. -/
theorem asid_exclusive (reached : AsidReachable bits s) :
    (∀ c d p q a b, s.ttbr0 c = some (p, a) → s.ttbr0 d = some (q, b) → p ≠ q → a ≠ b) ∧
      (∀ c p a, s.ttbr0 c = some (p, a) → a ≠ 0) ∧
      ∀ p q, s.live p = true → s.live q = true → p ≠ q → s.ctx p = s.ctx q → s.ctx p = 0 := by
  have ok := asidOk_of_reachable reached
  refine ⟨?_, ?_, ?_⟩
  · intro c d p q a b first second distinct same
    obtain ⟨rfl, published⟩ := ok.published_of_ttbr0 first
    obtain ⟨rfl, published'⟩ := ok.published_of_ttbr0 second
    have slots : drained s c = drained s d := by
      apply ok.data.drained_ext
      · rw [published.slot]
        exact published.nonzero
      · rw [published'.slot]
        exact published'.nonzero
      · rw [published.slot, published'.slot]
        exact same
    rw [published.slot, published'.slot] at slots
    exact distinct (ok.data.ctx_inj p q slots published.nonzero)
  · intro c p a loaded
    obtain ⟨rfl, published⟩ := ok.published_of_ttbr0 loaded
    exact ok.data.asid_ne p published.nonzero
  · intro p q _ _ distinct same
    by_contra nonzero
    exact distinct (ok.data.ctx_inj p q same nonzero)

theorem asid_exclusive_two : ∃ s : AsidState 2 Bool, AsidReachable 8 s ∧
    s.ttbr0 0 = some (false, 1) ∧ s.ttbr0 1 = some (true, 2) ∧ (1 : Nat) ≠ 2 ∧
      (1 : Nat) ≠ 0 := by
  obtain ⟨s, reached, first, second⟩ := exists_two_loaded
  have exclusive := asid_exclusive reached
  exact ⟨s, reached, first, second,
    exclusive.1 0 1 false true 1 2 first second (by decide), exclusive.2.1 0 false 1 first⟩

/-- No stale TLB hit: a CPU about to load a process, or running it, has no entry of
another process under its number.  The fast path is never taken with a flush owed,
and no current context is loaded before the flush. -/
theorem tlb_never_stale (reached : AsidReachable bits s) :
    (∀ c p ctx, s.pc c = .load p ctx →
      ∀ q, (asidOf (2 ^ bits) ctx, q) ∈ s.tlb c → q = p) ∧
      (∀ c p a, s.ttbr0 c = some (p, a) → ∀ q, (a, q) ∈ s.tlb c → q = p) ∧
      (∀ c p ctx gen old, s.pc c = .readActive p ctx gen old → old ≠ 0 →
        genOf (2 ^ bits) ctx = genOf (2 ^ bits) gen → s.active c = old →
          s.tlbPending c = false) ∧
      ∀ c p ctx, s.pc c = .load p ctx → genOf (2 ^ bits) ctx = s.generation →
        s.tlbPending c = false := by
  have ok := asidOk_of_reachable reached
  refine ⟨?_, ?_, ?_, ?_⟩
  · intro c p ctx at_
    have here := ok.cpu c
    rw [at_] at here
    exact here.2.owned
  · intro c p a loaded
    obtain ⟨rfl, published⟩ := ok.published_of_ttbr0 loaded
    exact published.owned
  · intro c p ctx gen old at_ nonzero _ exchanged
    exact (ok.data.active_ok c (by omega)).1
  · intro c p ctx at_ current
    have here := ok.cpu c
    rw [at_] at here
    exact here.2.current.mpr current

theorem tlb_never_stale_filled : ∃ s : AsidState 2 Bool, AsidReachable 8 s ∧
    s.ttbr0 0 = some (false, 1) ∧ (1, false) ∈ s.tlb 0 ∧
      ∀ q, (1, q) ∈ s.tlb 0 → q = false := by
  obtain ⟨s, reached, first, -⟩ := exists_two_loaded
  have filled := reached.next (.fill 0 first)
  refine ⟨_, filled, first, ?_, (tlb_never_stale filled).2.1 0 false 1 first⟩
  simp

end Asid

end Av6
