import Av6.AsidModel

/-!
# What every interleaving of the ASID allocator keeps

The invariant has a part about the shared data and a part about each CPU.  Its heart
is the slot of a CPU, the active context or, once a rollover has drained it, the
reserved one: whatever a CPU has loaded stays in its slot, a number in a slot is
handed to nobody else, and a CPU whose active slot is not empty owes no flush.

A step of one CPU is seen by another only through `Rely`.
-/

namespace Av6

namespace Asid

variable {ncpus total : Nat} {P : Type*}

theorem genOf_add_asidOf (total ctx : Nat) : genOf total ctx + asidOf total ctx = ctx :=
  Nat.sub_add_cancel (Nat.mod_le ctx total)

theorem ctx_ext {total first second : Nat} (gens : genOf total first = genOf total second)
    (asids : asidOf total first = asidOf total second) : first = second := by
  rw [← genOf_add_asidOf total first, gens, asids, genOf_add_asidOf]

@[simp]
theorem genOf_zero (total : Nat) : genOf total 0 = 0 := by
  simp [genOf]

@[simp]
theorem asidOf_zero (total : Nat) : asidOf total 0 = 0 := by
  simp [asidOf]

theorem asidOf_lt (positive : 0 < total) (ctx : Nat) : asidOf total ctx < total :=
  Nat.mod_lt ctx positive

section Pack

variable {generation asid : Nat} (whole : generation % total = 0) (small : asid < total)
include whole small

theorem asidOf_pack : asidOf total (generation + asid) = asid := by
  rw [asidOf, Nat.add_mod, whole, Nat.zero_add, Nat.mod_mod, Nat.mod_eq_of_lt small]

theorem genOf_pack : genOf total (generation + asid) = generation := by
  have := asidOf_pack whole small
  unfold asidOf at this
  rw [genOf, this]
  omega

end Pack

theorem genOf_whole {generation : Nat} (whole : generation % total = 0) :
    genOf total generation = generation := by
  simp [genOf, whole]

theorem bitmapFindZero_spec (total : Nat) (bitmap : Nat → Bool) (start : Nat)
    (inRange : start ≤ total) :
    bitmapFindZero total bitmap start = total ∨
      (bitmapFindZero total bitmap start < total ∧
        bitmap (bitmapFindZero total bitmap start) = false) := by
  unfold bitmapFindZero
  split
  next i found =>
    have member := List.mem_range'_1.mp (List.mem_of_find?_eq_some found)
    have clear := List.find?_some found
    exact Or.inr ⟨by omega, by simpa using clear⟩
  next =>
    split
    next b found =>
      have member := List.mem_range'_1.mp (List.mem_of_find?_eq_some found)
      have clear := List.find?_some found
      exact Or.inr ⟨by omega, by simpa using clear⟩
    next => exact Or.inl rfl

/-- A CPU holds `asid_lock` at these points. -/
def Pc.inLock : Pc P → Bool
  | .locked _ | .flushing _ _ | .flushed _ | .assigned _ _ | .publish _ _ | .unlock _ _ => true
  | .panicked _ => true
  | _ => false

/-- The entries of a CPU tagged with the number of `ctx` belong to `p`. -/
def TlbOwned (total : Nat) (s : AsidState ncpus P) (c : Fin ncpus) (p : P) (ctx : Nat) :
    Prop :=
  ∀ q, (asidOf total ctx, q) ∈ s.tlb c → q = p

/-- From the publication of `ctx` on: the slot holds it, and it is of the current
generation exactly as long as no flush is owed. -/
structure Published (total : Nat) (s : AsidState ncpus P) (c : Fin ncpus) (p : P)
    (ctx : Nat) : Prop where
  ctx_eq : s.ctx p = ctx
  nonzero : ctx ≠ 0
  slot : drained s c = ctx
  gen_le : genOf total ctx ≤ s.generation
  current : s.tlbPending c = false ↔ genOf total ctx = s.generation
  owned : TlbOwned total s c p ctx

/-- What holds of a CPU at each point of `asid_switch`. -/
def PcOk (total : Nat) (s : AsidState ncpus P) (c : Fin ncpus) : Pc P → Prop
  | .idle => s.ttbr0 c = none
  | .readCtx p ctx => s.ttbr0 c = none ∧ s.ctx p = ctx
  | .readGen p ctx gen =>
      s.ttbr0 c = none ∧ s.ctx p = ctx ∧ (s.active c ≠ 0 → gen = s.generation)
  | .readActive p ctx gen _ =>
      s.ttbr0 c = none ∧ s.ctx p = ctx ∧ (s.active c ≠ 0 → gen = s.generation)
  | .slow _ => s.ttbr0 c = none
  | .locked _ => s.ttbr0 c = none
  | .flushing p i =>
      s.ttbr0 c = none ∧ genOf total (s.ctx p) ≠ s.generation ∧
        ∀ d : Fin ncpus, d.val < i → s.active d = 0 ∧
          (s.reserved d ≠ 0 → s.bitmap (asidOf total (s.reserved d)) = true)
  | .flushed p => s.ttbr0 c = none ∧ genOf total (s.ctx p) ≠ s.generation
  | .assigned p ctx =>
      s.ttbr0 c = none ∧ s.ctx p = ctx ∧ genOf total ctx = s.generation
  | .publish p ctx =>
      s.ttbr0 c = none ∧ s.ctx p = ctx ∧ genOf total ctx = s.generation ∧
        s.tlbPending c = false
  | .unlock p ctx =>
      s.ttbr0 c = none ∧ Published total s c p ctx
  | .load p ctx => s.ttbr0 c = none ∧ Published total s c p ctx
  | .running p ctx =>
      s.ttbr0 c = some (p, asidOf total ctx) ∧ Published total s c p ctx
  | .panicked _ => s.ttbr0 c = none

/-- No CPU is draining the active slots, so the bitmap is complete. -/
def Settled (s : AsidState ncpus P) : Prop :=
  ∀ c p i, s.pc c ≠ .flushing p i

/-- The invariant of the shared data. -/
structure DataOk (total : Nat) (s : AsidState ncpus P) : Prop where
  gen_pos : 0 < s.generation
  gen_whole : s.generation % total = 0
  next_le : s.next ≤ total
  bit_zero : s.bitmap 0 = true
  gen_le : ∀ p, genOf total (s.ctx p) ≤ s.generation
  asid_ne : ∀ p, s.ctx p ≠ 0 → asidOf total (s.ctx p) ≠ 0
  ctx_inj : ∀ p q, s.ctx p = s.ctx q → s.ctx p ≠ 0 → p = q
  ctx_bit : Settled s → ∀ p, genOf total (s.ctx p) = s.generation →
    s.bitmap (asidOf total (s.ctx p)) = true
  reserved_bit : Settled s → ∀ c, s.reserved c ≠ 0 →
    s.bitmap (asidOf total (s.reserved c)) = true
  /-- A number in a reserved slot is current only for the owner of the slot. -/
  reserved_own : ∀ c p, s.reserved c ≠ 0 → genOf total (s.ctx p) = s.generation →
    asidOf total (s.ctx p) = asidOf total (s.reserved c) → s.ctx p = s.reserved c
  reserved_inj : ∀ c d, s.reserved c ≠ 0 → s.reserved d ≠ 0 →
    asidOf total (s.reserved c) = asidOf total (s.reserved d) →
      s.reserved c = s.reserved d
  active_ok : ∀ c, s.active c ≠ 0 → s.tlbPending c = false ∧
    genOf total (s.active c) = s.generation ∧ ∃ p, s.ctx p = s.active c
  tlb_ok : ∀ c, s.tlbPending c = false → ∀ entry ∈ s.tlb c,
    genOf total (s.ctx entry.2) = s.generation ∧ asidOf total (s.ctx entry.2) = entry.1

/-- The invariant of who runs what: a process is on one CPU at most, one CPU at most
is inside the lock, and a process not created yet is untouched. -/
structure ControlOk (s : AsidState ncpus P) : Prop where
  unused : ∀ p, s.used p = false → s.ctx p = 0 ∧ s.live p = false ∧
    ∀ c, (s.pc c).proc ≠ some p
  alone : ∀ c d p, (s.pc c).proc = some p → (s.pc d).proc = some p → c = d
  lock_held : ∀ c, (s.pc c).inLock = true → s.lock = some c

/-- The invariant. -/
structure AsidOk (total : Nat) (s : AsidState ncpus P) : Prop where
  control : ControlOk s
  data : DataOk total s
  cpu : ∀ c, PcOk total s c (s.pc c)

/-- What a CPU at `pc` may rely on when another CPU moves. -/
structure Rely (s t : AsidState ncpus P) (c : Fin ncpus) (pc : Pc P) : Prop where
  ttbr0 : t.ttbr0 c = s.ttbr0 c
  tlb : t.tlb c = s.tlb c
  ctx : ∀ p, pc.proc = some p → t.ctx p = s.ctx p
  slot : ∀ p, pc.proc = some p → drained s c = s.ctx p → s.ctx p ≠ 0 →
    drained t c = drained s c
  active : s.active c = 0 → t.active c = 0
  /-- A rollover drains the CPU and makes it owe a flush. -/
  generation : (t.generation = s.generation ∧ t.tlbPending c = s.tlbPending c) ∨
    (s.generation < t.generation ∧ t.active c = 0 ∧ t.tlbPending c = true)
  locked : pc.inLock = true → t.generation = s.generation ∧
    t.tlbPending c = s.tlbPending c ∧ t.reserved = s.reserved ∧ t.bitmap = s.bitmap ∧
      ∀ d, s.active d = 0 → t.active d = 0

theorem Published.rely {s t : AsidState ncpus P} {c : Fin ncpus} {p : P} {ctx : Nat}
    {pc : Pc P} (published : Published total s c p ctx) (rely : Rely s t c pc)
    (same : pc.proc = some p) : Published total t c p ctx where
  ctx_eq := (rely.ctx p same).trans published.ctx_eq
  nonzero := published.nonzero
  slot := by
    have slot := published.slot
    have ctxEq := published.ctx_eq
    have nonzero := published.nonzero
    rw [rely.slot p same (by omega) (by omega)]
    exact slot
  gen_le := by
    have bound := published.gen_le
    rcases rely.generation with ⟨same, -⟩ | ⟨later, -⟩ <;> omega
  current := by
    rcases rely.generation with ⟨generation, pending⟩ | ⟨later, -, owed⟩
    · rw [generation, pending]
      exact published.current
    · have bound := published.gen_le
      rw [owed]
      constructor
      · rintro ⟨⟩
      · intro current
        omega
  owned := by
    intro q member
    rw [rely.tlb] at member
    exact published.owned q member

/-- What holds of a CPU survives the steps of the others. -/
theorem PcOk.rely {s t : AsidState ncpus P} {c : Fin ncpus} {pc : Pc P}
    (ok : PcOk total s c pc) (rely : Rely s t c pc) : PcOk total t c pc := by
  have lockless : ∀ gen, (s.active c ≠ 0 → gen = s.generation) →
      t.active c ≠ 0 → gen = t.generation := by
    intro gen fresh nonzero
    rcases rely.generation with ⟨same, -⟩ | ⟨-, drained, -⟩
    · rw [same]
      exact fresh fun empty => nonzero (rely.active empty)
    · exact (nonzero drained).elim
  cases pc with
  | idle => exact rely.ttbr0.trans ok
  | readCtx p ctx => exact ⟨rely.ttbr0.trans ok.1, (rely.ctx p rfl).trans ok.2⟩
  | readGen p ctx gen =>
      exact ⟨rely.ttbr0.trans ok.1, (rely.ctx p rfl).trans ok.2.1, lockless gen ok.2.2⟩
  | readActive p ctx gen old =>
      exact ⟨rely.ttbr0.trans ok.1, (rely.ctx p rfl).trans ok.2.1, lockless gen ok.2.2⟩
  | slow p => exact rely.ttbr0.trans ok
  | locked p => exact rely.ttbr0.trans ok
  | flushing p i =>
      obtain ⟨generation, -, reserved, bitmap, active⟩ := rely.locked rfl
      refine ⟨rely.ttbr0.trans ok.1, ?_, ?_⟩
      · rw [rely.ctx p rfl, generation]
        exact ok.2.1
      · intro d before
        rw [reserved, bitmap]
        exact ⟨active d (ok.2.2 d before).1, (ok.2.2 d before).2⟩
  | flushed p =>
      refine ⟨rely.ttbr0.trans ok.1, ?_⟩
      rw [rely.ctx p rfl, (rely.locked rfl).1]
      exact ok.2
  | assigned p ctx =>
      refine ⟨rely.ttbr0.trans ok.1, (rely.ctx p rfl).trans ok.2.1, ?_⟩
      rw [(rely.locked rfl).1]
      exact ok.2.2
  | publish p ctx =>
      refine ⟨rely.ttbr0.trans ok.1, (rely.ctx p rfl).trans ok.2.1, ?_, ?_⟩
      · rw [(rely.locked rfl).1]
        exact ok.2.2.1
      · rw [(rely.locked rfl).2.1]
        exact ok.2.2.2
  | unlock p ctx => exact ⟨rely.ttbr0.trans ok.1, ok.2.rely rely rfl⟩
  | load p ctx => exact ⟨rely.ttbr0.trans ok.1, ok.2.rely rely rfl⟩
  | running p ctx => exact ⟨rely.ttbr0.trans ok.1, ok.2.rely rely rfl⟩
  | panicked p => exact rely.ttbr0.trans ok

end Asid

end Av6
