import Av6.AsidExclusivity
import Mathlib.Data.Set.Card

/-!
# The pool of numbers after a rollover

A rollover keeps the reserved number and at most one number for each CPU.  With more numbers than
that there is one to hand out, so that a CPU never stops at the assertion behind the rollover.
-/

namespace Av6

namespace Asid

variable {ncpus total start bits : Nat} {P : Type*} {s t : AsidState ncpus P} {bitmap : Nat → Bool}

/-- Where the search finds nothing, every number is taken. -/
theorem bitmapFindZero_full (inRange : start ≤ total)
    (full : bitmapFindZero total bitmap start = total) {b : Nat} (positive : 1 ≤ b)
    (small : b < total) : bitmap b = true := by
  unfold bitmapFindZero at full
  split at full
  next i found =>
    have member := List.mem_range'_1.mp (List.mem_of_find?_eq_some found)
    omega
  next above =>
    split at full
    next i found =>
      have member := List.mem_range'_1.mp (List.mem_of_find?_eq_some found)
      omega
    next below =>
      rcases Nat.lt_or_ge b start with before | after
      · have taken := List.find?_eq_none.mp below b (List.mem_range'_1.mpr (by omega))
        simpa using taken
      · have taken := List.find?_eq_none.mp above b (List.mem_range'_1.mpr (by omega))
        simpa using taken

/-- The bits that are set are the reserved one and those of the slots of the first `n` CPUs. -/
def Carried (total : Nat) (s : AsidState ncpus P) (n : Nat) : Prop :=
  ∀ b, s.bitmap b = true → b = 0 ∨ ∃ d : Fin ncpus, d.val < n ∧ b = asidOf total (s.reserved d)

/-- What is known of the bitmap at each point of `asid_switch`. -/
def PoolAt (total : Nat) (s : AsidState ncpus P) : Pc P → Prop
  | .flushing _ i => Carried total s i
  | .flushed _ => Carried total s ncpus
  | .panicked _ => False
  | _ => True

/-- The hint is a number, and no CPU has stopped. -/
structure PoolOk (total : Nat) (s : AsidState ncpus P) : Prop where
  hint : 1 ≤ s.next
  cpu : ∀ c, PoolAt total s (s.pc c)

/-- Number 0 and the numbers of the reserved slots. -/
def slotAsids (total : Nat) (s : AsidState ncpus P) : Finset Nat :=
  insert 0 (Finset.univ.image fun d => asidOf total (s.reserved d))

theorem card_slotAsids_le (total : Nat) (s : AsidState ncpus P) :
    (slotAsids total s).card ≤ ncpus + 1 := by
  have slots := Finset.card_image_le (s := Finset.univ) (f := fun d => asidOf total (s.reserved d))
  rw [Finset.card_univ, Fintype.card_fin] at slots
  exact (Finset.card_insert_le ..).trans (Nat.add_le_add_right slots 1)

theorem Carried.mem_slotAsids {n b : Nat} (carried : Carried total s n) (set : s.bitmap b = true) :
    b ∈ slotAsids total s := by
  unfold slotAsids
  rcases carried b set with rfl | ⟨d, -, rfl⟩
  · exact Finset.mem_insert_self ..
  · apply Finset.mem_insert_of_mem
    exact Finset.mem_image_of_mem _ (Finset.mem_univ d)

/-- Fewer bits than numbers: one of them is clear. -/
theorem Carried.exists_clear {n : Nat} (carried : Carried total s n) (few : ncpus + 1 < total) :
    ∃ b, 1 ≤ b ∧ b < total ∧ s.bitmap b = false := by
  by_contra none_
  have inside : Finset.range total ⊆ slotAsids total s := by
    intro b member
    have small := Finset.mem_range.mp member
    rcases Nat.eq_zero_or_pos b with rfl | positive
    · exact Finset.mem_insert_self ..
    · apply carried.mem_slotAsids
      by_contra clear
      exact none_ ⟨b, positive, small, by simpa using clear⟩
  have bound := Finset.card_le_card inside
  rw [Finset.card_range] at bound
  have slots := card_slotAsids_le total s
  omega

/-- With a clear bit left, a number is allotted. -/
theorem allotAsid_of_clear {generation next : Nat} {reserved : Fin ncpus → Nat}
    (inRange : next ≤ total) {b : Nat} (positive : 1 ≤ b) (small : b < total)
    (clear : bitmap b = false) :
    ∃ asid < total, bitmap asid = false ∧ allotAsid total generation next bitmap reserved =
      some ⟨generation + asid, reserved, Function.update bitmap asid true, asid + 1⟩ := by
  rcases bitmapFindZero_spec total bitmap next inRange with full | ⟨less, free⟩
  · rw [bitmapFindZero_full inRange full positive small] at clear
    cases clear
  · refine ⟨_, less, free, ?_⟩
    exact if_neg less.ne

theorem PoolAt.rely {pc : Pc P} (at_ : PoolAt total s pc)
    (same : pc.inLock = true → t.bitmap = s.bitmap ∧ t.reserved = s.reserved) :
    PoolAt total t pc := by
  cases pc with
  | flushing p i =>
      obtain ⟨bitmap, reserved⟩ := same rfl
      unfold PoolAt Carried at at_ ⊢
      rwa [bitmap, reserved]
  | flushed p =>
      obtain ⟨bitmap, reserved⟩ := same rfl
      unfold PoolAt Carried at at_ ⊢
      rwa [bitmap, reserved]
  | panicked p => exact at_
  | _ => trivial

/-- A CPU moves to another point; the others in the lock do not see the bitmap change. -/
theorem PoolOk.move (ok : PoolOk total s) {c : Fin ncpus} {pc : Pc P}
    (moved : t.pc = Function.update s.pc c pc) (hint : 1 ≤ t.next) (here : PoolAt total t pc)
    (others : ∀ d ≠ c, (s.pc d).inLock = true → t.bitmap = s.bitmap ∧ t.reserved = s.reserved) :
    PoolOk total t := by
  refine ⟨hint, ?_⟩
  intro d
  rw [moved]
  by_cases same : d = c
  · rw [same, Function.update_self]
    exact here
  · rw [Function.update_of_ne same]
    exact (ok.cpu d).rely (others d same)

/-- The bitmap and the slots stay as they are. -/
theorem PoolOk.goto (ok : PoolOk total s) {c : Fin ncpus} {pc : Pc P}
    (moved : t.pc = Function.update s.pc c pc) (next : t.next = s.next)
    (here : PoolAt total t pc) (bitmap : t.bitmap = s.bitmap) (reserved : t.reserved = s.reserved) :
    PoolOk total t :=
  ok.move moved (by rw [next]; exact ok.hint) here fun _ _ _ => ⟨bitmap, reserved⟩

/-- Only the holder of the lock changes the bitmap. -/
theorem PoolOk.holder (ok : PoolOk total s) (control : ControlOk s) {c : Fin ncpus} {pc : Pc P}
    (held : (s.pc c).inLock = true) (moved : t.pc = Function.update s.pc c pc)
    (hint : 1 ≤ t.next) (here : PoolAt total t pc) : PoolOk total t := by
  apply ok.move moved hint here
  intro d other inside
  rw [control.unlocked held other] at inside
  cases inside

/-- One round of the loop carries the number of one more CPU over. -/
theorem Carried.flushCpu {c : Fin ncpus} (carried : Carried total s c) :
    Carried total (flushCpu total s c) (c + 1) := by
  have earlier : ∀ b, s.bitmap b = true → b = 0 ∨ ∃ d : Fin ncpus, d.val < c.val + 1 ∧
      b = asidOf total ((Asid.flushCpu total s c).reserved d) := by
    intro b set
    rcases carried b set with zero | ⟨d, before, number⟩
    · exact Or.inl zero
    · have distinct : d ≠ c := by
        intro same
        rw [same] at before
        exact lt_irrefl _ before
      refine Or.inr ⟨d, by omega, ?_⟩
      rw [flushCpu_reserved_of_ne distinct]
      exact number
  intro b set
  change (if drained s c = 0 then s.bitmap
    else Function.update s.bitmap (asidOf total (drained s c)) true) b = true at set
  split at set
  · exact earlier b set
  · by_cases own : b = asidOf total (drained s c)
    · refine Or.inr ⟨c, Nat.lt_succ_self _, ?_⟩
      have slot : (Asid.flushCpu total s c).reserved c = drained s c := Function.update_self ..
      rw [own, slot]
    · rw [Function.update_of_ne own] at set
      exact earlier b set

theorem next_of_allot {generation next : Nat} {reserved : Fin ncpus → Nat} {new : NewContext ncpus}
    (allotted : allotAsid total generation next bitmap reserved = some new) : 1 ≤ new.next := by
  unfold allotAsid at allotted
  dsimp only at allotted
  split at allotted
  · cases allotted
  · cases allotted
    exact Nat.le_add_left ..

theorem PoolOk.next_of_newContext (ok : PoolOk total s) {p : P} {new : NewContext ncpus}
    (assigned : newContext total s p = some new) : 1 ≤ new.next := by
  unfold newContext at assigned
  dsimp only at assigned
  split at assigned
  · exact next_of_allot assigned
  · split at assigned
    · cases assigned
      exact ok.hint
    · split at assigned
      · cases assigned
        exact ok.hint
      · exact next_of_allot assigned

variable [DecidableEq P]

/-- Every step keeps what is known of the bitmap. -/
theorem PoolOk.step (ok : PoolOk total s) (control : ControlOk s) (few : ncpus + 1 < total)
    (step : AsidStep total s t) : PoolOk total t := by
  cases step with
  | create q fresh => exact ⟨ok.hint, fun c => (ok.cpu c).rely fun _ => ⟨rfl, rfl⟩⟩
  | die q alive => exact ⟨ok.hint, fun c => (ok.cpu c).rely fun _ => ⟨rfl, rfl⟩⟩
  | fill c loaded => exact ⟨ok.hint, fun c => (ok.cpu c).rely fun _ => ⟨rfl, rfl⟩⟩
  | renew c at_ stale assigned =>
      have held : (s.pc c).inLock = true := by rw [at_]; rfl
      exact ok.holder control held rfl (ok.next_of_newContext assigned) trivial
  | rollover c at_ stale full =>
      have held : (s.pc c).inLock = true := by rw [at_]; rfl
      apply ok.holder control held rfl
      · exact ok.hint
      · intro b set
        left
        by_contra other
        change Function.update (fun _ => false) 0 true b = true at set
        rw [Function.update_of_ne other] at set
        cases set
  | drain c d at_ =>
      have held : (s.pc c).inLock = true := by rw [at_]; rfl
      have here := ok.cpu c
      rw [at_] at here
      exact ok.holder control held rfl ok.hint (Carried.flushCpu here)
  | advance c at_ =>
      have held : (s.pc c).inLock = true := by rw [at_]; rfl
      have here := ok.cpu c
      rw [at_] at here
      exact ok.holder control held rfl le_rfl here
  | allot c at_ allotted =>
      have held : (s.pc c).inLock = true := by rw [at_]; rfl
      exact ok.holder control held rfl (next_of_allot allotted) trivial
  | exhausted c at_ full =>
      have here := ok.cpu c
      rw [at_] at here
      obtain ⟨b, positive, small, clear⟩ := Carried.exists_clear here few
      have inRange : 1 ≤ total := by omega
      obtain ⟨asid, -, -, found⟩ := allotAsid_of_clear inRange positive small clear
      rw [full] at found
      cases found
  | _ => exact ok.goto rfl rfl trivial rfl rfl

end Asid

end Av6
