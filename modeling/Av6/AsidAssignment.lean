import Av6.AsidPreservation

/-!
# Assigning a context

The three ways in which `new_context` finds a number, reuse of a reserved one, of a
free one, or a new one, are described once by `Fresh`; the assignment then keeps the
invariant whichever way it was.
-/

namespace Av6

namespace Asid

variable {ncpus total : Nat} {P : Type*} {s : AsidState ncpus P}

/-- What an assignment of `new` to a process with a stale context is like: the number
was current for nobody, and wherever a slot reserves it, it now reserves `new`. -/
structure Fresh (total : Nat) (s : AsidState ncpus P) (p : P) (asid : Nat)
    (new : NewContext ncpus) : Prop where
  ctx_eq : new.ctx = s.generation + asid
  asid_pos : asid ≠ 0
  asid_lt : asid < total
  bit : new.bitmap asid = true
  bits : ∀ b, s.bitmap b = true → new.bitmap b = true
  nobody : ∀ q, genOf total (s.ctx q) = s.generation → asidOf total (s.ctx q) ≠ asid
  kept : ∀ d, new.reserved d = s.reserved d ∨
    (s.reserved d = s.ctx p ∧ s.ctx p ≠ 0 ∧ new.reserved d = new.ctx)
  moved : ∀ d, s.reserved d ≠ 0 → asidOf total (s.reserved d) = asid →
    new.reserved d = new.ctx
  next_le : new.next ≤ total

/-- A number whose bit was clear is fresh. -/
theorem DataOk.fresh_of_clear (data : DataOk total s) (settled : Settled s) (p : P)
    {asid next : Nat} (small : asid < total) (clear : s.bitmap asid = false)
    (nextLe : next ≤ total) :
    Fresh total s p asid
      ⟨s.generation + asid, s.reserved, Function.update s.bitmap asid true, next⟩ where
  ctx_eq := rfl
  asid_pos := by
    rintro rfl
    rw [data.bit_zero] at clear
    cases clear
  asid_lt := small
  bit := Function.update_self ..
  bits b set := by
    by_cases same : b = asid
    · rw [same]
      exact Function.update_self ..
    · simpa [Function.update_of_ne same] using set
  nobody q current same := by
    have set := data.ctx_bit settled q current
    rw [same, clear] at set
    cases set
  kept _ := Or.inl rfl
  moved d nonzero same := by
    have set := data.reserved_bit settled d nonzero
    rw [same, clear] at set
    cases set
  next_le := nextLe

theorem DataOk.fresh_of_allot (data : DataOk total s) (settled : Settled s) (p : P)
    {start : Nat} (startLe : start ≤ total) {new : NewContext ncpus}
    (allotted : allotAsid total s.generation start s.bitmap s.reserved = some new) :
    ∃ asid, Fresh total s p asid new := by
  unfold allotAsid at allotted
  dsimp only at allotted
  split at allotted
  · cases allotted
  next found =>
    cases allotted
    rcases bitmapFindZero_spec total s.bitmap start startLe with full | ⟨small, clear⟩
    · exact (found full).elim
    · exact ⟨_, data.fresh_of_clear settled p small clear small⟩

/-- A number that some slot reserves for the process itself is fresh. -/
theorem DataOk.fresh_of_reserved (data : DataOk total s) (settled : Settled s)
    (positive : 0 < total) {p : P} (stale : genOf total (s.ctx p) ≠ s.generation)
    (nonzero : s.ctx p ≠ 0) {c : Fin ncpus} (slot : s.reserved c = s.ctx p) :
    Fresh total s p (asidOf total (s.ctx p))
      ⟨s.generation + asidOf total (s.ctx p),
        fun d => if s.reserved d = s.ctx p then s.generation + asidOf total (s.ctx p)
          else s.reserved d,
        s.bitmap, s.next⟩ := by
  have reserved : s.reserved c ≠ 0 := by omega
  refine
    { ctx_eq := rfl
      asid_pos := data.asid_ne p nonzero
      asid_lt := asidOf_lt positive _
      bit := ?_
      bits := fun _ set => set
      nobody := ?_
      kept := ?_
      moved := ?_
      next_le := data.next_le }
  · have set := data.reserved_bit settled c reserved
    rwa [slot] at set
  · intro q current same
    have owner := data.reserved_own c q reserved current (by rw [slot]; exact same)
    rw [owner, slot] at current
    exact stale current
  · intro d
    by_cases hit : s.reserved d = s.ctx p
    · exact Or.inr ⟨hit, nonzero, if_pos hit⟩
    · exact Or.inl (if_neg hit)
  · intro d other same
    have equal := data.reserved_inj d c other reserved (by rw [slot]; exact same)
    exact if_pos (equal.trans slot)

/-- `new_context` up to the rollover assigns a fresh number. -/
theorem DataOk.fresh_of_newContext (data : DataOk total s) (settled : Settled s)
    (positive : 0 < total) {p : P} (stale : genOf total (s.ctx p) ≠ s.generation)
    {new : NewContext ncpus} (assigned : newContext total s p = some new) :
    ∃ asid, Fresh total s p asid new := by
  unfold newContext at assigned
  dsimp only at assigned
  split at assigned
  · exact data.fresh_of_allot settled p data.next_le assigned
  next nonzero =>
    split at assigned
    next reserved hit =>
      unfold checkUpdateReservedAsid at hit
      split at hit
      next found =>
        obtain ⟨c, slot⟩ := found
        cases hit
        cases assigned
        exact ⟨_, data.fresh_of_reserved settled positive stale nonzero slot⟩
      next => cases hit
    next =>
      split at assigned
      next clear =>
        cases assigned
        exact ⟨_, data.fresh_of_clear settled p (asidOf_lt positive _) clear data.next_le⟩
      next => exact data.fresh_of_allot settled p data.next_le assigned

section Assign

variable {p : P} {asid : Nat} {new : NewContext ncpus} (data : DataOk total s)
  (fresh : Fresh total s p asid new)
include data fresh

theorem Fresh.genOf_ctx : genOf total new.ctx = s.generation := by
  rw [fresh.ctx_eq]
  exact genOf_pack data.gen_whole fresh.asid_lt

theorem Fresh.asidOf_ctx : asidOf total new.ctx = asid := by
  rw [fresh.ctx_eq]
  exact asidOf_pack data.gen_whole fresh.asid_lt

/-- No other process holds the assigned context. -/
theorem Fresh.ctx_ne (q : P) : s.ctx q ≠ new.ctx := by
  intro same
  have gens := fresh.genOf_ctx data
  have asids := fresh.asidOf_ctx data
  rw [← same] at gens asids
  exact fresh.nobody q gens asids

variable [DecidableEq P]

/-- The assignment keeps the invariant of the shared data. -/
theorem Fresh.dataOk (stale : genOf total (s.ctx p) ≠ s.generation) (settled : Settled s) :
    DataOk total (s.assign p new) := by
  have gen := fresh.genOf_ctx data
  have number := fresh.asidOf_ctx data
  have self : (s.assign p new).ctx p = new.ctx := Function.update_self ..
  have other : ∀ {q}, q ≠ p → (s.assign p new).ctx q = s.ctx q := fun distinct =>
    Function.update_of_ne distinct ..
  have currentOther : ∀ {q}, genOf total (s.ctx q) = s.generation → q ≠ p := by
    rintro q current rfl
    exact stale current
  refine
    { gen_pos := data.gen_pos
      gen_whole := data.gen_whole
      next_le := fresh.next_le
      bit_zero := fresh.bits 0 data.bit_zero
      gen_le := ?_
      asid_ne := ?_
      ctx_inj := ?_
      ctx_bit := ?_
      reserved_bit := ?_
      reserved_own := ?_
      reserved_inj := ?_
      active_ok := ?_
      tlb_ok := ?_ }
  · intro q
    by_cases same : q = p
    · rw [same, self, gen]
      exact le_rfl
    · rw [other same]
      exact data.gen_le q
  · intro q nonzero
    by_cases same : q = p
    · rw [same, self, number]
      exact fresh.asid_pos
    · rw [other same] at nonzero ⊢
      exact data.asid_ne q nonzero
  · intro q r equal nonzero
    by_cases first : q = p <;> by_cases second : r = p
    · rw [first, second]
    · rw [first, self, other second] at equal
      exact (fresh.ctx_ne data r equal.symm).elim
    · rw [second, self, other first] at equal
      exact (fresh.ctx_ne data q equal).elim
    · rw [other first] at equal nonzero
      rw [other second] at equal
      exact data.ctx_inj q r equal nonzero
  · intro _ q current
    by_cases same : q = p
    · rw [same, self, number]
      exact fresh.bit
    · rw [other same] at current ⊢
      exact fresh.bits _ (data.ctx_bit settled q current)
  · intro _ c nonzero
    change new.reserved c ≠ 0 at nonzero
    change new.bitmap (asidOf total (new.reserved c)) = true
    rcases fresh.kept c with kept | ⟨-, -, moved⟩
    · rw [kept] at nonzero ⊢
      exact fresh.bits _ (data.reserved_bit settled c nonzero)
    · rw [moved, number]
      exact fresh.bit
  · intro c q nonzero current same
    change new.reserved c ≠ 0 at nonzero
    change asidOf total ((s.assign p new).ctx q) = asidOf total (new.reserved c) at same
    change _ = new.reserved c
    by_cases own : q = p
    · rw [own, self] at same ⊢
      rcases fresh.kept c with kept | ⟨-, -, moved⟩
      · rw [kept] at nonzero same
        exact (fresh.moved c nonzero (same.symm.trans number)).symm
      · exact moved.symm
    · rw [other own] at current same ⊢
      rcases fresh.kept c with kept | ⟨-, -, moved⟩
      · rw [kept] at nonzero same ⊢
        exact data.reserved_own c q nonzero current same
      · rw [moved, number] at same
        exact (fresh.nobody q current same).elim
  · intro c d first second same
    change new.reserved c ≠ 0 at first
    change new.reserved d ≠ 0 at second
    change asidOf total (new.reserved c) = asidOf total (new.reserved d) at same
    change new.reserved c = new.reserved d
    rcases fresh.kept c with keptC | ⟨-, -, movedC⟩ <;>
      rcases fresh.kept d with keptD | ⟨-, -, movedD⟩
    · rw [keptC] at first same ⊢
      rw [keptD] at second same ⊢
      exact data.reserved_inj c d first second same
    · rw [movedD, number, keptC] at same
      rw [keptC] at first
      rw [fresh.moved c first same, movedD]
    · rw [movedC, number, keptD] at same
      rw [keptD] at second
      rw [fresh.moved d second same.symm, movedC]
    · rw [movedC, movedD]
  · intro c nonzero
    obtain ⟨clean, current, q, owner⟩ := data.active_ok c nonzero
    refine ⟨clean, current, q, ?_⟩
    rw [other (currentOther (by rw [owner]; exact current))]
    exact owner
  · intro c clean entry member
    have tagged := data.tlb_ok c clean entry member
    rw [other (currentOther tagged.1)]
    exact tagged

/-- A CPU that runs another process does not notice the assignment. -/
theorem Fresh.rely {d : Fin ncpus} {pc : Pc P} (distinct : pc.proc ≠ some p)
    (outside : pc.inLock = false) : Rely s (s.assign p new) d pc where
  ttbr0 := rfl
  tlb := rfl
  ctx q runs := by
    have other : q ≠ p := by
      rintro rfl
      exact distinct runs
    exact Function.update_of_ne other ..
  slot q runs slot nonzero := by
    have other : q ≠ p := by
      rintro rfl
      exact distinct runs
    change (if s.active d = 0 then new.reserved d else s.active d) = drained s d
    unfold drained at slot ⊢
    split at slot
    next idle =>
      rw [if_pos idle, if_pos idle]
      rcases fresh.kept d with kept | ⟨mine, -, -⟩
      · exact kept
      · exact (other (data.ctx_inj q p (slot.symm.trans mine) nonzero)).elim
    next busy => rw [if_neg busy, if_neg busy]
  active := id
  generation := Or.inl ⟨rfl, rfl⟩
  locked held := by
    rw [outside] at held
    cases held

end Assign

end Asid

end Av6
