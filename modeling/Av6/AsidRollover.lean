import Av6.AsidAssignment

/-!
# A rollover in pieces

`flush_context` clears the bitmap, drains the CPUs one after the other, and advances
the generation.  While it drains, the bitmap is incomplete and nobody may consult it;
what a CPU has loaded moves from its active slot to its reserved one.
-/

namespace Av6

namespace Asid

variable {ncpus total : Nat} {P : Type*} {s : AsidState ncpus P}

theorem drained_flushCpu (c d : Fin ncpus) :
    drained (flushCpu total s c) d = drained s d := by
  by_cases same : d = c
  · subst same
    simp [drained, flushCpu]
  · simp [drained, flushCpu, Function.update_of_ne same]

theorem flushCpu_active (c d : Fin ncpus) (empty : s.active d = 0) :
    (flushCpu total s c).active d = 0 := by
  by_cases same : d = c
  · subst same
    simp [flushCpu]
  · simpa [flushCpu, Function.update_of_ne same] using empty

theorem flushCpu_bitmap (c : Fin ncpus) {b : Nat} (set : s.bitmap b = true) :
    (flushCpu total s c).bitmap b = true := by
  by_cases idle : drained s c = 0
  · simpa [flushCpu, idle] using set
  · by_cases same : b = asidOf total (drained s c)
    · subst same
      simp [flushCpu, idle]
    · simpa [flushCpu, idle, Function.update_of_ne same] using set

/-- The drained context has its bit set again. -/
theorem flushCpu_self (c : Fin ncpus) :
    (flushCpu total s c).active c = 0 ∧ ((flushCpu total s c).reserved c ≠ 0 →
      (flushCpu total s c).bitmap (asidOf total ((flushCpu total s c).reserved c)) = true) := by
  refine ⟨by simp [flushCpu], ?_⟩
  intro nonzero
  have busy : drained s c ≠ 0 := by simpa [flushCpu] using nonzero
  simp [flushCpu, busy]

theorem flushCpu_reserved_of_ne {c d : Fin ncpus} (distinct : d ≠ c) :
    (flushCpu total s c).reserved d = s.reserved d := by
  simp [flushCpu, Function.update_of_ne distinct]

/-- What is drained is either what was reserved already, or a current context. -/
theorem DataOk.drained_cases (data : DataOk total s) (c : Fin ncpus) :
    drained s c = s.reserved c ∨
      (genOf total (drained s c) = s.generation ∧ ∃ p, s.ctx p = drained s c) := by
  unfold drained
  split
  · exact Or.inl rfl
  next busy => exact Or.inr (data.active_ok c busy).2

/-- The drained context is current only for its owner. -/
theorem DataOk.drained_own (data : DataOk total s) (c : Fin ncpus) (p : P)
    (nonzero : drained s c ≠ 0) (current : genOf total (s.ctx p) = s.generation)
    (same : asidOf total (s.ctx p) = asidOf total (drained s c)) :
    s.ctx p = drained s c := by
  rcases data.drained_cases c with kept | ⟨gen, -⟩
  · rw [kept] at nonzero same ⊢
    exact data.reserved_own c p nonzero current same
  · exact ctx_ext (current.trans gen.symm) same

/-- A drained context and a reserved one of the same number are the same. -/
theorem DataOk.drained_inj (data : DataOk total s) (c d : Fin ncpus)
    (first : drained s c ≠ 0) (second : s.reserved d ≠ 0)
    (same : asidOf total (drained s c) = asidOf total (s.reserved d)) :
    drained s c = s.reserved d := by
  rcases data.drained_cases c with kept | ⟨gen, p, owner⟩
  · rw [kept] at first same ⊢
    exact data.reserved_inj c d first second same
  · rw [← owner] at gen same ⊢
    exact data.reserved_own d p second gen same

/-- Two slots of the same number hold the same context. -/
theorem DataOk.drained_ext (data : DataOk total s) (c d : Fin ncpus)
    (first : drained s c ≠ 0) (second : drained s d ≠ 0)
    (same : asidOf total (drained s c) = asidOf total (drained s d)) :
    drained s c = drained s d := by
  rcases data.drained_cases d with kept | ⟨gen, p, owner⟩
  · rw [kept] at second same ⊢
    exact data.drained_inj c d first second same
  · rw [← owner] at gen same ⊢
    exact (data.drained_own c p first gen same.symm).symm

/-- While a CPU drains the slots, the bitmap promises nothing. -/
theorem DataOk.goto_flushing (data : DataOk total s) (c : Fin ncpus)
    (p : P) (i : Nat) : DataOk total (s.goto c (.flushing p i)) := by
  have unsettled : ¬ Settled (s.goto c (.flushing p i)) := fun settled =>
    settled c p i (Function.update_self ..)
  exact { data with
    ctx_bit := fun settled => (unsettled settled).elim
    reserved_bit := fun settled => (unsettled settled).elim }

theorem DataOk.clearBitmap (data : DataOk total s) (c : Fin ncpus)
    (p : P) (i : Nat) :
    DataOk total
      ({ s with bitmap := Function.update (fun _ => false) 0 true }.goto c (.flushing p i)) :=
  { data.goto_flushing c p i with
    bit_zero := rfl
    ctx_bit := fun settled => (settled c p i (Function.update_self ..)).elim
    reserved_bit := fun settled => (settled c p i (Function.update_self ..)).elim }

theorem DataOk.flushCpu (data : DataOk total s) (c : Fin ncpus)
    (unsettled : ¬ Settled s) : DataOk total (flushCpu total s c) := by
  have reservedSelf : (Asid.flushCpu total s c).reserved c = drained s c := by
    simp [Asid.flushCpu]
  refine
    { data with
      bit_zero := flushCpu_bitmap c data.bit_zero
      ctx_bit := fun settled => (unsettled settled).elim
      reserved_bit := fun settled => (unsettled settled).elim
      reserved_own := ?_
      reserved_inj := ?_
      active_ok := ?_ }
  · intro d p nonzero current same
    by_cases own : d = c
    · subst own
      rw [reservedSelf] at nonzero same ⊢
      exact data.drained_own d p nonzero current same
    · rw [flushCpu_reserved_of_ne own] at nonzero same ⊢
      exact data.reserved_own d p nonzero current same
  · intro d e first second same
    by_cases own : d = c <;> by_cases own' : e = c
    · rw [own, own']
    · subst own
      rw [reservedSelf] at first same ⊢
      rw [flushCpu_reserved_of_ne own'] at second same ⊢
      exact data.drained_inj d e first second same
    · subst own'
      rw [reservedSelf] at second same ⊢
      rw [flushCpu_reserved_of_ne own] at first same ⊢
      exact (data.drained_inj e d second first same.symm).symm
    · rw [flushCpu_reserved_of_ne own] at first same ⊢
      rw [flushCpu_reserved_of_ne own'] at second same ⊢
      exact data.reserved_inj d e first second same
  · intro d nonzero
    have distinct : d ≠ c := by
      rintro rfl
      exact nonzero (flushCpu_self d).1
    have active : (Asid.flushCpu total s c).active d = s.active d := by
      simp [Asid.flushCpu, Function.update_of_ne distinct]
    rw [active] at nonzero ⊢
    exact data.active_ok d nonzero

theorem Rely.flushCpu (c d : Fin ncpus) {pc : Pc P} (outside : pc.inLock = false) :
    Rely s (flushCpu total s c) d pc where
  ttbr0 := rfl
  tlb := rfl
  ctx _ _ := rfl
  slot _ _ _ _ := drained_flushCpu c d
  active := flushCpu_active c d
  generation := Or.inl ⟨rfl, rfl⟩
  locked held := by
    rw [outside] at held
    cases held

section FlushEnd

variable (data : DataOk total s) (positive : 0 < total)
include data positive

/-- No context is of the generation that a rollover begins. -/
theorem DataOk.gen_ne_next (p : P) : genOf total (s.ctx p) ≠ s.generation + total := by
  have bound := data.gen_le p
  omega

theorem DataOk.flushEnd (empty : ∀ c, s.active c = 0)
    (bits : ∀ c, s.reserved c ≠ 0 → s.bitmap (asidOf total (s.reserved c)) = true)
    (c : Fin ncpus) (pc : Pc P) : DataOk total ((flushEnd total s).goto c pc) where
  gen_pos := Nat.add_pos_left data.gen_pos total
  gen_whole := by
    change (s.generation + total) % total = 0
    rw [Nat.add_mod_right]
    exact data.gen_whole
  next_le := positive
  bit_zero := data.bit_zero
  gen_le p := (data.gen_le p).trans (Nat.le_add_right ..)
  asid_ne := data.asid_ne
  ctx_inj := data.ctx_inj
  ctx_bit _ p current := (data.gen_ne_next positive p current).elim
  reserved_bit _ := bits
  reserved_own _ p _ current _ := (data.gen_ne_next positive p current).elim
  reserved_inj := data.reserved_inj
  active_ok c nonzero := (nonzero (empty c)).elim
  tlb_ok _ clean := by cases clean

omit data in
theorem Rely.flushEnd (empty : ∀ c, s.active c = 0) (d : Fin ncpus) {pc : Pc P}
    (outside : pc.inLock = false) : Rely s (flushEnd total s) d pc where
  ttbr0 := rfl
  tlb := rfl
  ctx _ _ := rfl
  slot _ _ _ _ := rfl
  active := id
  generation := Or.inr ⟨Nat.lt_add_of_pos_right positive, empty d, rfl⟩
  locked held := by
    rw [outside] at held
    cases held

end FlushEnd

end Asid

end Av6
